/-
  EcmaObjects.Proofs.ListIterator — list iterators under any interleaving.

  A list iterator keeps its position on its own object, and any list iterator's `next` may
  be called on it, by any code, at any time. `Act.NextCalls` lists those calls for one
  object in the order in which they are made, nested in other calls or not; a session is any
  number of runs, one after another (`World.Session`).
  - `NextCalls.sound`: a call counts once, and nothing but a call counts; so the list and the
    number of calls tell the position (`Store.ListAt`), and each call gives its item.
  - `NextCalls.exists_of_public`: every public action has such a list of calls.
  - `list_iterator_law`: from when it is made, the k-th call on a list iterator gives the
    k-th item, or the end when there is none, as a fresh result that is read without any call;
    also where the function is another list iterator's.
-/

import EcmaObjects.Proofs.Public
import EcmaObjects.Proofs.Reading

namespace EcmaObjects

variable {R : Rules} {σ α β : Type}

/-! ## The position of a list iterator -/

namespace Store

/-- A list iterator over these items, on which `next` was called `k` times. -/
def ListAt (s : Store) (o : ObjectId) (items : List Value) (k : Nat) : Prop :=
  s.iteration? o = some (.list items.toArray (min k items.length))

def IsListNext (s : Store) (f : Value) : Prop := Act.behavior? s f = some (.builtin .listNext)

theorem iteration?_add_of_some {s : Store} {o : ObjectId} {it : Iteration} (h : s.iteration? o = some it) (new : Object) :
    (s.add new).iteration? o = some it := by
  obtain ⟨obj, hg, hi⟩ := Option.bind_eq_some_iff.mp h
  rw [iteration?, get?_add_of_some hg]
  exact hi

theorem ListAt.add {s : Store} {o : ObjectId} {items : List Value} {k : Nat} (h : s.ListAt o items k) (new : Object) :
    (s.add new).ListAt o items k :=
  iteration?_add_of_some h new

theorem iteration?_modify {s : Store} {o p : ObjectId} {f : Object → Object}
    (hf : ∀ obj, s.get? p = some obj → o = p → (f obj).iteration = obj.iteration) :
    (s.modify p f).iteration? o = s.iteration? o := by
  rw [iteration?, get?_modify, iteration?]
  by_cases h : o = p
  · subst h
    rw [if_pos rfl]
    cases hg : s.get? o with
    | none => rfl
    | some obj => exact hf obj hg rfl
  · rw [if_neg h]

theorem iteration?_define {s s' : Store} {o p : ObjectId} {k : PropertyKey} {d : Descriptor}
    (h : s.define? p k d = some s') : s'.iteration? o = s.iteration? o := by
  obtain ⟨obj, obj', hg, hd, rfl⟩ := define?_eq_some.mp h
  refine iteration?_modify fun obj₁ h₁ _ => ?_
  cases hg.symm.trans h₁
  exact (Object.define?_native hd).2

theorem iteration?_nextItem {s s' : Store} {o : ObjectId} {v : Value} {item : Option Value} (hv : v ≠ .object o)
    (h : s.nextItem? v = some (item, s')) : s'.iteration? o = s.iteration? o := by
  obtain ⟨p, obj, obj', rfl, hg, hn, rfl⟩ := nextItem?_eq_some.mp h
  refine iteration?_modify fun _ _ e => ?_
  subst e
  exact absurd rfl hv

theorem ListAt.next {s : Store} {o : ObjectId} {items : List Value} {k : Nat} (h : s.ListAt o items k) :
    ∃ s', s.nextItem? (.object o) = some (items[k]?, s') ∧ s'.ListAt o items (k + 1) := by
  obtain ⟨obj, hg, hi⟩ := Option.bind_eq_some_iff.mp h
  have step : ∃ obj', obj.nextItem? = some (items[k]?, obj') ∧
      obj'.iteration = some (.list items.toArray (min (k + 1) items.length)) := by
    unfold Object.nextItem?
    simp only [hi]
    by_cases hk : k < items.length
    · have here : min k items.length = k := by omega
      have there : min (k + 1) items.length = k + 1 := by omega
      refine ⟨{ obj with iteration := some (.list items.toArray (k + 1)) }, ?_, by rw [there]⟩
      simp [here, hk]
    · have here : min k items.length = items.length := by omega
      have there : min (k + 1) items.length = items.length := by omega
      refine ⟨obj, ?_, by rw [there, hi, here]⟩
      simp [here, hk]
  obtain ⟨obj', hn, hi'⟩ := step
  refine ⟨s.modify o fun _ => obj', nextItem?_eq_some.mpr ⟨o, obj, obj', rfl, hg, hn, rfl⟩, ?_⟩
  show (s.modify o fun _ => obj').iteration? o = _
  rw [iteration?, get?_modify, if_pos rfl, hg]
  exact hi'

end Store

/-! ## Calls of `next` -/

structure NextCall (σ : Type) where
  before : World σ
  result : Result σ Value

def NextCall.Gives (c : NextCall σ) (item : Option Value) : Prop :=
  ∃ o w', c.result = .ok (.object o) w' ∧ c.before.FreshResult (item.getD .undefined) item.isNone o w'

/-- The calls give the items from number `k` on, and the end where there are no more. -/
def NextCall.GiveFrom (items : List Value) (k : Nat) (calls : List (NextCall σ)) : Prop :=
  ∀ (i : Nat) (c : NextCall σ), calls[i]? = some c → c.Gives items[k + i]?

theorem NextCall.giveFrom_nil (items : List Value) (k : Nat) : GiveFrom items k ([] : List (NextCall σ)) :=
  fun _ _ h => nomatch h

theorem NextCall.GiveFrom.append {items : List Value} {k : Nat} {l l' : List (NextCall σ)} (h : GiveFrom items k l)
    (h' : GiveFrom items (k + l.length) l') : GiveFrom items k (l ++ l') := by
  intro i c hc
  by_cases hi : i < l.length
  · rw [List.getElem?_append_left hi] at hc
    exact h i c hc
  · have later : k + l.length + (i - l.length) = k + i := by omega
    rw [List.getElem?_append_right (Nat.le_of_not_lt hi)] at hc
    rw [← later]
    exact h' (i - l.length) c hc

namespace Act

theorem listNext_gives {w : World σ} {o : ObjectId} {items : List Value} {k : Nat} (h : w.machine.store.ListAt o items k)
    (env : Env σ) :
    NextCall.Gives ⟨w, listNext (.object o) env w⟩ items[k]? ∧
      (listNext (.object o) env w).world.machine.store.ListAt o items (k + 1) := by
  obtain ⟨s, hn, hs⟩ := h.next
  rw [listNext_apply, hn]
  refine ⟨⟨_, _, rfl, ?_⟩, hs.add _⟩
  let moved : World σ := { w with machine := { w.machine with store := s } }
  have result := moved.freshResult_add (items[k]?.getD .undefined) items[k]?.isNone
  obtain ⟨p, obj, obj', -, -, -, hs'⟩ := Store.nextItem?_eq_some.mp hn
  have same : s.fresh = w.machine.store.fresh := by
    subst hs'
    exact congrArg ObjectId.mk (Store.size_modify _ _ _)
  refine { result with fresh := ?_ }
  show w.machine.store.get? s.fresh = none
  rw [same, Store.get?_fresh]

/-! ## Operations that call nothing -/

/-- The operations of the machine, but for calls and for the `next` of list iterators. -/
inductive Silent : {α : Type} → Act σ α → Prop
  | ret {α : Type} (a : α) : Silent (pure a : Act σ α)
  | raise {α : Type} (c : Abrupt) : Silent (raise c : Act σ α)
  | fail {α : Type} (f : Fault) : Silent (fail f : Act σ α)
  | maxDepth : Silent maxDepth
  | rounds : Silent rounds
  | store : Silent store
  | withHost {α : Type} (f : σ → α × σ) : Silent (withHost f)
  | create (obj : Object) : Silent (create obj)
  | newSymbol (description : Option String) : Silent (newSymbol description)
  | define (o : ObjectId) (k : PropertyKey) (d : Descriptor) : Silent (define o k d)
  | setProto (o : ObjectId) (p : Option ObjectId) : Silent (setProto o p)
  | newSettlement : Silent newSettlement
  | settlement? (n : Nat) : Silent (settlement? n)
  | decideOnce (n : Nat) (outcome : Completion) : Silent (decideOnce n outcome)
  | prevent (o : ObjectId) : Silent (modifyStore (·.modify o fun obj => { obj with extensible := false }))
  | insert (o : ObjectId) (k : PropertyKey) (d : Descriptor) : Silent (modifyStore (·.modify o (·.insert k d)))

theorem Silent.iteration? {x : Act σ α} (h : Silent x) {env : Env σ} {w : World σ} {o : ObjectId} {it : Iteration}
    (hi : w.machine.store.iteration? o = some it) : (x env w).world.machine.store.iteration? o = some it := by
  cases h with
  | ret | raise | fail | maxDepth | rounds | store | withHost | newSymbol | newSettlement | settlement? | decideOnce =>
    exact hi
  | create obj => exact Store.iteration?_add_of_some hi obj
  | define p k d =>
    rw [define_apply]
    cases hd : w.machine.store.define? p k d with
    | none => exact hi
    | some s => exact (Store.iteration?_define hd).trans hi
  | setProto p q =>
    have ends := setProto_reparents p q env w
    generalize Act.setProto p q env w = result at ends ⊢
    cases ends with
    | missing | unchanged | closed | cycle => exact hi
    | tooDeep => exact Store.iteration?_add_of_some hi _
    | granted =>
      rw [← hi]
      exact Store.iteration?_modify fun _ _ _ => rfl
  | prevent | insert =>
    rw [← hi]
    exact Store.iteration?_modify fun _ _ _ => rfl

theorem listNext_other {w : World σ} {o : ObjectId} {this : Value} (hne : this ≠ .object o) (env : Env σ) {it : Iteration}
    (hi : w.machine.store.iteration? o = some it) :
    (listNext this env w).world.machine.store.iteration? o = some it := by
  rw [listNext_apply]
  cases hn : w.machine.store.nextItem? this with
  | none => exact Store.iteration?_add_of_some hi _
  | some r => exact Store.iteration?_add_of_some ((Store.iteration?_nextItem hne hn).trans hi) _

/-! ## All calls on one object -/

section
variable (host : Host σ) (config : Config) (rounds : Nat) (o : ObjectId)

/-- The calls of a list iterator's `next` on `o`, in the order in which they are made, while an
    action runs with at most `depth` calls nested in it. A call that breaks off the
    evaluation at the bottom is not made. -/
inductive NextCalls : {α : Type} → Nat → Act σ α → World σ → List (NextCall σ) → Prop
  | next (depth : Nat) (w : World σ) :
      NextCalls depth (listNext (.object o)) w [⟨w, (listNext (.object o)).run host config ⟨depth, rounds⟩ w⟩]
  | other (depth : Nat) {this : Value} (w : World σ) : this ≠ .object o → NextCalls depth (listNext this) w []
  | silent {α : Type} (depth : Nat) {x : Act σ α} (w : World σ) : x.Silent → NextCalls depth x w []
  | bind {α β : Type} {depth : Nat} {x : Act σ α} {f : α → Act σ β} {a : α} {w w₁ : World σ} {l l' : List (NextCall σ)} :
      NextCalls depth x w l → x.run host config ⟨depth, rounds⟩ w = .ok a w₁ → NextCalls depth (f a) w₁ l' →
      NextCalls depth (x >>= f) w (l ++ l')
  /-- What does not end normally is not gone on with. -/
  | stop {α β : Type} {depth : Nat} {x : Act σ α} {f : α → Act σ β} {w : World σ} {l : List (NextCall σ)} :
      NextCalls depth x w l → (∀ a w₁, x.run host config ⟨depth, rounds⟩ w ≠ .ok a w₁) → NextCalls depth (x >>= f) w l
  | attempt {α : Type} {depth : Nat} {x : Act σ α} {w : World σ} {l : List (NextCall σ)} :
      NextCalls depth x w l → NextCalls depth (attempt x) w l
  | perform {depth : Nat} {b : Behavior} {this : Value} {args : List Value} {w : World σ} {l : List (NextCall σ)} :
      NextCalls depth (b.run host this args) w l → NextCalls (depth + 1) (perform b this args) w l
  | exhausted (b : Behavior) (this : Value) (args : List Value) (w : World σ) :
      NextCalls 0 (perform b this args) w []

end

namespace NextCalls

variable {host : Host σ} {config : Config} {rounds depth : Nat} {o : ObjectId}

theorem sound {x : Act σ α} {w : World σ} {calls : List (NextCall σ)} (h : NextCalls host config rounds o depth x w calls)
    {items : List Value} {k : Nat} (hk : w.machine.store.ListAt o items k) :
    (x.run host config ⟨depth, rounds⟩ w).world.machine.store.ListAt o items (k + calls.length) ∧
      NextCall.GiveFrom items k calls := by
  induction h generalizing k with
  | next depth w =>
    obtain ⟨gives, moved⟩ := listNext_gives hk (.ofHost host config ⟨depth, rounds⟩)
    refine ⟨moved, fun i c hc => ?_⟩
    cases i with
    | zero =>
      cases hc
      exact gives
    | succ i => cases hc
  | other depth w hne => exact ⟨listNext_other hne _ hk, NextCall.giveFrom_nil items k⟩
  | silent depth w hx => exact ⟨hx.iteration? hk, NextCall.giveFrom_nil items k⟩
  | @bind α β depth x f a w w₁ l l' _ hr _ ihx ihf =>
    obtain ⟨atX, givesX⟩ := ihx hk
    rw [hr] at atX
    -- The items are numbered along the run: the rest goes on where the front part has come to.
    obtain ⟨atF, givesF⟩ := ihf atX
    rw [run_bind_of_ok hr, List.length_append, ← Nat.add_assoc]
    exact ⟨atF, givesX.append givesF⟩
  | stop _ hr ih =>
    rw [world_run_bind hr]
    exact ih hk
  | attempt _ ih =>
    rw [world_run_attempt]
    exact ih hk
  | perform _ ih => exact ih hk
  | exhausted => exact ⟨hk, NextCall.giveFrom_nil items k⟩

theorem exists_of_performed (performed : ∀ b this args w, ∃ calls,
      NextCalls host config rounds o depth (Act.perform b this args) w calls) {x : Act σ α} (hx : x.Public R)
    (w : World σ) : ∃ calls, NextCalls host config rounds o depth x w calls := by
  induction hx generalizing w with
  | ret a => exact ⟨[], .silent _ w (.ret a)⟩
  | raise c => exact ⟨[], .silent _ w (.raise c)⟩
  | fail f => exact ⟨[], .silent _ w (.fail f)⟩
  | maxDepth => exact ⟨[], .silent _ w .maxDepth⟩
  | rounds => exact ⟨[], .silent _ w .rounds⟩
  | store => exact ⟨[], .silent _ w .store⟩
  | withHost f => exact ⟨[], .silent _ w (.withHost f)⟩
  | create => exact ⟨[], .silent _ w (.create _)⟩
  | newSymbol description => exact ⟨[], .silent _ w (.newSymbol description)⟩
  | define p k => exact ⟨[], .silent _ w (.define p k _)⟩
  | setProto p q => exact ⟨[], .silent _ w (.setProto p q)⟩
  | newSettlement => exact ⟨[], .silent _ w .newSettlement⟩
  | settlement? n => exact ⟨[], .silent _ w (.settlement? n)⟩
  | decideOnce n outcome => exact ⟨[], .silent _ w (.decideOnce n outcome)⟩
  | prevent p => exact ⟨[], .silent _ w (.prevent p)⟩
  | insert p k d => exact ⟨[], .silent _ w (.insert p k d)⟩
  | perform b this args => exact performed b this args w
  | listNext this =>
    -- A call counts by the iterator that it moves, whoever makes it.
    by_cases h : this = .object o
    · subst h
      exact ⟨_, .next _ w⟩
    · exact ⟨[], .other _ w h⟩
  | @bind α β x f _ _ ihx ihf =>
    obtain ⟨l, hl⟩ := ihx w
    cases hr : x.run host config ⟨depth, rounds⟩ w with
    | ok a w₁ =>
      obtain ⟨l', hl'⟩ := ihf a w₁
      exact ⟨l ++ l', .bind hl hr hl'⟩
    | abrupt c w₁ | fault e w₁ => exact ⟨l, .stop hl fun a w₂ h => nomatch hr.symm.trans h⟩
  | attempt _ ih =>
    obtain ⟨l, hl⟩ := ih w
    exact ⟨l, .attempt hl⟩

/-- Every public action does, by induction on the depth to which calls may be nested. -/
theorem exists_of_public (hh : host.Public R) {x : Act σ α} (hx : x.Public R) (w : World σ) :
    ∃ calls, NextCalls host config rounds o depth x w calls := by
  induction depth generalizing α x w with
  | zero => exact exists_of_performed (fun b this args w => ⟨[], .exhausted b this args w⟩) hx w
  | succ depth ih =>
    refine exists_of_performed (fun b this args w => ?_) hx w
    obtain ⟨calls, hc⟩ := ih (b.public hh this args) w
    exact ⟨calls, .perform hc⟩

/-! ## Calls of functions -/

theorem bind_silent {x : Act σ α} {f : α → Act σ β} {w : World σ} {calls : List (NextCall σ)}
    (h : NextCalls host config rounds o depth x w calls) (hf : ∀ a, Silent (f a)) :
    NextCalls host config rounds o depth (x >>= f) w calls := by
  cases hr : x.run host config ⟨depth, rounds⟩ w with
  | ok a w₁ =>
    rw [← List.append_nil calls]
    exact .bind h hr (.silent _ w₁ (hf a))
  | abrupt c w₁ | fault e w₁ => exact .stop h fun a w₂ h => nomatch hr.symm.trans h

theorem call {f : Value} {w : World σ} (hf : w.machine.store.IsListNext f) (args : List Value) :
    NextCalls host config rounds o (depth + 1) (Act.call f (.object o) args) w
      [⟨w, (Act.call f (.object o) args).run host config ⟨depth + 1, rounds⟩ w⟩] := by
  have performed : NextCalls host config rounds o (depth + 1) (Act.perform (.builtin .listNext) (.object o) args) w
      [⟨w, (listNext (.object o)).run host config ⟨depth, rounds⟩ w⟩] := .perform (.next depth w)
  have completed : NextCalls host config rounds o (depth + 1)
      (Act.completion (Act.perform (.builtin .listNext) (.object o) args)) w
      [⟨w, (listNext (.object o)).run host config ⟨depth, rounds⟩ w⟩] :=
    bind_silent (.attempt performed) fun _ => .ret _
  have called : NextCalls host config rounds o (depth + 1) (Act.callFunction f (.object o) args) w
      [⟨w, (listNext (.object o)).run host config ⟨depth, rounds⟩ w⟩] := by
    refine .bind (.silent _ w .store) rfl ?_
    simp only [show behavior? w.machine.store f = some (.builtin .listNext) from hf]
    exact bind_silent completed fun _ => .ret _
  have same : (Act.call f (.object o) args).run host config ⟨depth + 1, rounds⟩ w =
      (listNext (.object o)).run host config ⟨depth, rounds⟩ w := by
    have run : (Act.call f (.object o) args).run host config ⟨depth + 1, rounds⟩ w =
        ((listNext (.object o)).run host config ⟨depth, rounds⟩ w).ofCall := call_of_some hf _ _
    rw [run, Act.run, listNext_apply]
    cases w.machine.store.nextItem? (.object o) with
    | none => rfl
    | some r => rfl
  rw [same]
  refine bind_silent called fun c => ?_
  cases c with
  | normal v => exact .ret v
  | abrupt a => exact .raise a

end NextCalls
end Act

/-! ## Sessions -/

/-- Runs of public actions one after another, each with a budget of its own and however it
    ended, together with all calls of `next` on `o` that they made. -/
inductive World.Session (R : Rules) (host : Host σ) (config : Config) (o : ObjectId) (first : World σ) :
    List (NextCall σ) → World σ → Prop
  | start : Session R host config o first [] first
  | run {α : Type} {calls more : List (NextCall σ)} {w : World σ} {x : Act σ α} {budget : Budget} :
      Session R host config o first calls w → x.Public R →
      x.NextCalls host config budget.rounds o budget.depth w more →
      Session R host config o first (calls ++ more) (x.run host config budget w).world

namespace World.Session

variable {host : Host σ} {config : Config} {o : ObjectId} {first w : World σ} {calls : List (NextCall σ)}

theorem steps (hh : host.Public R) (h : first.Session R host config o calls w) :
    Machine.Run R first.machine w.machine := by
  induction h with
  | start => exact .refl
  | run _ hx _ ih => exact ih.trans (run_steps hh hx config _ _)

theorem sound (h : first.Session R host config o calls w) {items : List Value}
    (hk : first.machine.store.ListAt o items 0) :
    w.machine.store.ListAt o items calls.length ∧ NextCall.GiveFrom items 0 calls := by
  induction h with
  | start => exact ⟨hk, NextCall.giveFrom_nil items 0⟩
  | run _ _ hc ih =>
    obtain ⟨here, before⟩ := ih
    obtain ⟨there, after⟩ := hc.sound here
    rw [List.length_append]
    exact ⟨there, before.append (by rw [Nat.zero_add]; exact after)⟩

end World.Session

/-! ## The law of list iterators -/

/-- What a list iterator does, from when it was made, whatever else goes on. -/
structure ListIteratorLaw (R : Rules) (host : Host σ) (config : Config) (items : List Value) (r : IteratorRecord)
    (made : World σ) : Prop where
  /-- The k-th call gives the k-th item, and the end from there on where there are no more. -/
  gives {calls : List (NextCall σ)} {w : World σ} : made.Session R host config r.iterator calls w →
    ∀ (k : Nat) (c : NextCall σ), calls[k]? = some c → c.Gives items[k]?
  goes_on {calls : List (NextCall σ)} {w : World σ} : made.Session R host config r.iterator calls w →
    ∀ {α : Type} {x : Act σ α}, x.Public R → ∀ budget, ∃ more,
      made.Session R host config r.iterator (calls ++ more) (x.run host config budget w).world
  calls {calls : List (NextCall σ)} {w : World σ} : made.Session R host config r.iterator calls w →
    ∀ {f : Value}, w.machine.store.IsListNext f → ∀ args depth rounds,
      let result := (Act.call f (.object r.iterator) args).run host config ⟨depth + 1, rounds⟩ w
      made.Session R host config r.iterator (calls ++ [⟨w, result⟩]) result.world
  next : made.machine.store.IsListNext r.next
  keeps {calls more : List (NextCall σ)} {w w' : World σ} : made.Session R host config r.iterator calls w →
    w.Session R host config r.iterator more w' →
    ∀ {f : Value}, w.machine.store.IsListNext f → w'.machine.store.IsListNext f

def Object.ofList (items : List Value) : Object :=
  { proto := some Intrinsic.iteratorPrototype.object, iteration := some (.list items.toArray 0) }

theorem Act.listIterator_apply (items : List Value) (env : Env σ) (w : World σ) :
    let made : World σ := (w.add (.ofList items)).add (.ofFunction ⟨"next", 0, .builtin .listNext⟩)
    ∃ r, Act.listIterator items env w = .ok r made ∧ made.machine.store.ListAt r.iterator items 0 ∧
      made.machine.store.IsListNext r.next := by
  intro made
  refine ⟨⟨w.machine.store.fresh, .object (w.add (.ofList items)).machine.store.fresh, false⟩, rfl, ?_, ?_⟩
  · refine Store.ListAt.add ?_ _
    show (w.machine.store.add (.ofList items)).iteration? w.machine.store.fresh = _
    rw [Store.iteration?, Store.get?_add, if_pos rfl]
    simp [Object.ofList]
  · have read : made.machine.store.get? (w.add (.ofList items)).machine.store.fresh = _ := Store.get?_add _ _ _
    rw [if_pos rfl] at read
    simp only [Store.IsListNext, Act.behavior?, Value.object?, Option.bind_some, read]
    rfl

/-- In whatever world a list iterator is made, it gives its items one by one, under every
    interleaving of calls on it with calls on others and with all other operations. -/
theorem list_iterator_law {host : Host σ} (hh : host.Public R) (config : Config) (budget : Budget) (items : List Value)
    (w : World σ) :
    ∃ r made, (Act.listIterator items).run host config budget w = .ok r made ∧
      ListIteratorLaw R host config items r made := by
  obtain ⟨r, run, first, next⟩ := Act.listIterator_apply items (.ofHost host config budget) w
  refine ⟨r, _, run, ?_⟩
  constructor
  · intro calls w' hs k c hc
    have gives := (hs.sound first).2 k c hc
    rw [Nat.zero_add] at gives
    exact gives
  · intro calls w' hs α x hx budget
    have called : ∃ more, x.NextCalls host config budget.rounds r.iterator budget.depth w' more :=
      Act.NextCalls.exists_of_public hh hx w'
    obtain ⟨more, hm⟩ := called
    exact ⟨more, hs.run hx hm⟩
  · intro calls w' hs f hf args depth rounds
    exact hs.run (.call f _ args) (.call hf args)
  · exact next
  · intro calls more w₁ w₂ _ hs f hf
    exact (hs.steps hh).behavior? hf

/-- Two calls on an iterator over one item, the second of another iterator's `next`: they
    give the item, and then the end. -/
theorem a_list_iterator_gives_its_item_once :
    let run {α : Type} (x : Act Unit α) (w : World Unit) : Result Unit α := x.run idle ⟨8⟩ ⟨64, 64⟩ w
    ∃ other w r made, run (Act.listIterator []) ⟨{}, ()⟩ = .ok other w ∧ run (Act.listIterator [.null]) w = .ok r made ∧
      let first : NextCall Unit := ⟨made, run (Act.call r.next (.object r.iterator) []) made⟩
      let second : NextCall Unit :=
        ⟨first.result.world, run (Act.call other.next (.object r.iterator) []) first.result.world⟩
      first.Gives (some .null) ∧ second.Gives none := by
  intro run
  have hh : (idle : Host Unit).Public .checked := fun _ _ _ => .ret _
  obtain ⟨other, w, ho, othersLaw⟩ := list_iterator_law hh ⟨8⟩ ⟨64, 64⟩ [] ⟨{}, ()⟩
  obtain ⟨r, made, hr, law⟩ := list_iterator_law hh ⟨8⟩ ⟨64, 64⟩ [.null] w
  obtain ⟨more, hm⟩ := othersLaw.goes_on .start (.listIterator [.null]) ⟨64, 64⟩
  rw [hr] at hm
  have others : made.machine.store.IsListNext other.next := othersLaw.keeps .start hm othersLaw.next
  have once := law.calls .start law.next [] 63 64
  have twice := law.calls once (law.keeps .start once others) [] 63 64
  exact ⟨other, w, r, made, ho, hr, law.gives twice 0 _ rfl, law.gives twice 1 _ rfl⟩

end EcmaObjects
