/-
  EcmaObjects.Proofs.Chain — prototype chains, and how far the walks along them go.

  In a machine that can be reached every chain ends (`Machine.Reachable.grounded`): an
  object is made with a prototype that is there, and takes another only if that does not
  lead back to it. So every walk has a number of links to follow:
  - `Store.Reaches`: those from an object to the nearest owner of a key, or to the last
    object of its chain;
  - `Store.Climbs`: those from an object to a target above it, or to the last object.
  `walk_law` says what each walk does when this number meets the limit.
  Reading keeps to the limit. Writing takes the end of a chain without an owner for one
  more link, and looking for an ancestor goes one link on before it counts, so at the
  limit the walks disagree (`walks_disagree_at_the_limit`).
-/

import EcmaObjects.Proofs.Public

namespace EcmaObjects

variable {σ : Type} {R : Rules}

namespace Store

/-! ## Links -/

theorem protoOf_add (s : Store) (obj : Object) (o : ObjectId) :
    (s.add obj).protoOf o = if o = s.fresh then s.link? obj.proto else s.protoOf o := by
  unfold protoOf
  rw [get?_add]
  split <;> rfl

theorem protoOf_modify (s : Store) (o : ObjectId) (f : Object → Object) (p : ObjectId) :
    (s.modify o f).protoOf p = if p = o then (s.get? p).bind fun obj => (f obj).proto else s.protoOf p := by
  unfold protoOf
  rw [get?_modify]
  split
  · cases s.get? p <;> rfl
  · rfl

theorem protoOf_modify_of_proto_eq {s : Store} {o : ObjectId} {f : Object → Object}
    (h : ∀ obj, s.get? o = some obj → (f obj).proto = obj.proto) (p : ObjectId) :
    (s.modify o f).protoOf p = s.protoOf p := by
  rw [protoOf_modify]
  split
  · rename_i e
    subst e
    cases hg : s.get? p with
    | none => simp [protoOf, hg]
    | some obj => simp [protoOf, hg, h obj hg]
  · rfl

theorem link?_eq_some {s : Store} {p : Option ObjectId} {q : ObjectId} (h : s.link? p = some q) :
    p = some q ∧ s.has q = true :=
  Option.filter_eq_some_iff.mp h

/-! ## Chains that end -/

/-- The chain of `o` ends after `n` links. -/
inductive Ends (s : Store) : ObjectId → Nat → Prop
  | last {o : ObjectId} : s.protoOf o = none → Ends s o 0
  | link {o p : ObjectId} {n : Nat} : s.protoOf o = some p → Ends s p n → Ends s o (n + 1)

/-- Every link leads to an object of the store, and every chain ends. -/
structure Grounded (s : Store) : Prop where
  closed {o p : ObjectId} : s.protoOf o = some p → s.has p = true
  ends (o : ObjectId) : ∃ n, s.Ends o n

theorem Ends.congr {s s' : Store} (hp : ∀ o, s'.protoOf o = s.protoOf o) {o : ObjectId} {n : Nat} (h : s.Ends o n) :
    s'.Ends o n := by
  induction h with
  | last h => exact .last ((hp _).trans h)
  | link h _ ih => exact .link ((hp _).trans h) ih

theorem Grounded.congr {s s' : Store} (h : s.Grounded) (hp : ∀ o, s'.protoOf o = s.protoOf o)
    (hs : s.size ≤ s'.size) : s'.Grounded where
  closed {o p} hl := by
    have hhas : p.index < s.size := of_decide_eq_true (h.closed ((hp o).symm.trans hl))
    exact decide_eq_true (Nat.lt_of_lt_of_le hhas hs)
  ends o := by
    obtain ⟨n, hn⟩ := h.ends o
    exact ⟨n, hn.congr hp⟩

/-- No link leads to the fresh handle, so a new object is the start of its own chain only. -/
theorem Grounded.add {s : Store} (h : s.Grounded) (obj : Object) : (s.add obj).Grounded := by
  have old {o : ObjectId} (ho : s.has o = true) : (s.add obj).protoOf o = s.protoOf o := by
    rw [protoOf_add, if_neg]
    rintro rfl
    obtain ⟨obj', hg⟩ := (s.has_iff _).mp ho
    rw [s.get?_fresh] at hg
    cases hg
  have ends {o : ObjectId} {n : Nat} (hn : s.Ends o n) : s.has o = true → (s.add obj).Ends o n := by
    induction hn with
    | last hp => exact fun ho => .last ((old ho).trans hp)
    | link hp _ ih => exact fun ho => .link ((old ho).trans hp) (ih (h.closed hp))
  have has {p : ObjectId} (hp : s.has p = true) : (s.add obj).has p = true := by
    have hlt : p.index < s.size := of_decide_eq_true hp
    exact decide_eq_true (by rw [size_add]; omega)
  constructor
  · intro o p hp
    rw [protoOf_add] at hp
    split at hp
    · exact has (link?_eq_some hp).2
    · exact has (h.closed hp)
  · intro o
    cases hp : (s.add obj).protoOf o with
    | none => exact ⟨0, .last hp⟩
    | some p =>
      have hs : s.has p = true := by
        rw [protoOf_add] at hp
        split at hp
        · exact (link?_eq_some hp).2
        · exact h.closed hp
      obtain ⟨n, hn⟩ := h.ends p
      exact ⟨n + 1, .link hp (ends hn hs)⟩

/-- A chain that was seen to avoid an object ends whatever the link of that object becomes, and
    before the limit. -/
theorem ends_of_reparent? {s s' : Store} {o : ObjectId} (hp : ∀ p, p ≠ o → s'.protoOf p = s.protoOf p) {limit : Nat}
    {p : ObjectId} (h : s.reparent? o limit (some p) = some true) : ∃ n, n < limit ∧ s'.Ends p n := by
  induction limit generalizing p with
  | zero =>
    by_cases e : p = o
    · simp [reparent?, e] at h
    · simp [reparent?, e] at h
  | succ limit ih =>
    by_cases e : p = o
    · simp [reparent?, e] at h
    · simp only [reparent?, e, if_false] at h
      cases hq : s.protoOf p with
      | none => exact ⟨0, Nat.succ_pos limit, .last ((hp p e).trans hq)⟩
      | some q =>
        rw [hq] at h
        obtain ⟨n, hlt, hn⟩ := ih h
        exact ⟨n + 1, Nat.succ_lt_succ hlt, .link ((hp p e).trans hq) hn⟩

section
variable {s : Store} {o : ObjectId} {p : Option ObjectId} {limit : Nat}

theorem protoOf_reparent_ne {q : ObjectId} (hq : q ≠ o) :
    (s.modify o fun obj => { obj with proto := s.link? p }).protoOf q = s.protoOf q := by
  rw [protoOf_modify, if_neg hq]

theorem protoOf_reparent_self {q : ObjectId}
    (hq : (s.modify o fun obj => { obj with proto := s.link? p }).protoOf o = some q) : p = some q ∧ s.has q = true := by
  rw [protoOf_modify, if_pos rfl] at hq
  obtain ⟨_, _, hl⟩ := Option.bind_eq_some_iff.mp hq
  exact link?_eq_some hl

theorem ends_reparent (hr : s.reparent? o limit p = some true) :
    ∃ n, n ≤ limit ∧ (s.modify o fun obj => { obj with proto := s.link? p }).Ends o n := by
  cases hq : (s.modify o fun obj => { obj with proto := s.link? p }).protoOf o with
  | none => exact ⟨0, Nat.zero_le _, .last hq⟩
  | some q =>
    obtain ⟨rfl, -⟩ := protoOf_reparent_self hq
    obtain ⟨n, hlt, hn⟩ := ends_of_reparent? (fun _ => protoOf_reparent_ne) hr
    exact ⟨n + 1, hlt, .link hq hn⟩

theorem Grounded.reparent (h : s.Grounded) (hr : s.reparent? o limit p = some true) :
    (s.modify o fun obj => { obj with proto := s.link? p }).Grounded := by
  obtain ⟨m, -, top⟩ := ends_reparent hr
  constructor
  · intro q q' hq
    show decide _ = true
    rw [size_modify]
    by_cases e : q = o
    · subst e
      exact (protoOf_reparent_self hq).2
    · exact h.closed ((protoOf_reparent_ne e).symm.trans hq)
  · intro q
    obtain ⟨n, hn⟩ := h.ends q
    -- The old chain of `q` carries over up to `o`; from there the new one goes on.
    induction hn with
    | @last q hl =>
      by_cases e : q = o
      · exact ⟨m, e ▸ top⟩
      · exact ⟨0, .last ((protoOf_reparent_ne e).trans hl)⟩
    | @link q q' n hl _ ih =>
      by_cases e : q = o
      · exact ⟨m, e ▸ top⟩
      · obtain ⟨n, hn⟩ := ih
        exact ⟨n + 1, .link ((protoOf_reparent_ne e).trans hl) hn⟩

end

/-- Among the first objects, prototypes come before the objects that inherit from them. -/
theorem realm_grounded : Realm.store.Grounded := by
  have before : ∀ i < Realm.store.size, ∀ p ∈ Realm.store.protoOf ⟨i⟩, p.index < i := by decide
  have lower {o p : ObjectId} (hp : Realm.store.protoOf o = some p) :
      o.index < Realm.store.size ∧ p.index < o.index := by
    have ho : o.index < Realm.store.size := by
      obtain ⟨obj, hg, -⟩ := Option.bind_eq_some_iff.mp hp
      exact of_decide_eq_true ((Realm.store.has_iff o).mpr ⟨obj, hg⟩)
    exact ⟨ho, before o.index ho p hp⟩
  constructor
  · intro o p hp
    obtain ⟨h1, h2⟩ := lower hp
    exact decide_eq_true (by omega)
  · intro ⟨i⟩
    induction i using Nat.strongRecOn with
    | ind i ih =>
      cases hp : Realm.store.protoOf ⟨i⟩ with
      | none => exact ⟨0, .last hp⟩
      | some p =>
        obtain ⟨n, hn⟩ := ih p.index (lower hp).2
        exact ⟨n + 1, .link hp hn⟩

end Store

theorem Machine.Step.grounded {m m' : Machine} (h : Machine.Step R m m') (hg : m.store.Grounded) :
    m'.store.Grounded := by
  rcases h.store_cases with hs | ⟨obj, -, hs⟩ | ⟨o, f, hf, hs⟩ | ⟨o, p, limit, -, hr, hs⟩
  · rw [hs]
    exact hg
  · rw [hs]
    exact hg.add obj
  · have links := Store.protoOf_modify_of_proto_eq fun obj ho => (hf obj ho).2
    rw [hs]
    exact hg.congr links (Nat.le_of_eq (m.store.size_modify o f).symm)
  · rw [hs]
    exact hg.reparent hr

/-- In a machine that can be reached no chain of prototypes goes in a circle. -/
theorem Machine.Reachable.grounded {m : Machine} (h : m.Reachable R) : m.store.Grounded := by
  induction h with
  | refl => exact Store.realm_grounded
  | tail _ hs ih => exact hs.grounded ih

namespace Store

variable {s : Store} {k : PropertyKey} {target : ObjectId}

/-! ## The links that a walk follows -/

/-- From `o` it takes `n` links to the nearest owner of `k`, which has it as `r`, or without
    an owner to the last object. -/
inductive Reaches (s : Store) (k : PropertyKey) : ObjectId → Nat → Option Descriptor → Prop
  | owner {o : ObjectId} {d : Descriptor} : s.own? o k = some d → Reaches s k o 0 (some d)
  | last {o : ObjectId} : s.own? o k = none → s.protoOf o = none → Reaches s k o 0 none
  | link {o p : ObjectId} {n : Nat} {r : Option Descriptor} :
      s.own? o k = none → s.protoOf o = some p → Reaches s k p n r → Reaches s k o (n + 1) r

/-- From `o` it takes `n` links to the target above it, or if it is not there, to the last object. -/
inductive Climbs (s : Store) (target : ObjectId) : ObjectId → Nat → (met : Bool) → Prop
  | met {o : ObjectId} : s.protoOf o = some target → Climbs s target o 1 true
  | last {o : ObjectId} : s.protoOf o = none → Climbs s target o 0 false
  | link {o p : ObjectId} {n : Nat} {met : Bool} :
      s.protoOf o = some p → p ≠ target → Climbs s target p n met → Climbs s target o (n + 1) met

theorem Ends.reaches {o : ObjectId} {n : Nat} (h : s.Ends o n) (k : PropertyKey) : ∃ n r, s.Reaches k o n r := by
  induction h with
  | @last o hp =>
    cases hk : s.own? o k with
    | some d => exact ⟨0, some d, .owner hk⟩
    | none => exact ⟨0, none, .last hk hp⟩
  | @link o p n hp _ ih =>
    cases hk : s.own? o k with
    | some d => exact ⟨0, some d, .owner hk⟩
    | none =>
      obtain ⟨n, r, hr⟩ := ih
      exact ⟨n + 1, r, .link hk hp hr⟩

theorem Ends.climbs {o : ObjectId} {n : Nat} (h : s.Ends o n) (target : ObjectId) :
    ∃ n met, s.Climbs target o n met := by
  induction h with
  | last hp => exact ⟨0, false, .last hp⟩
  | @link o p n hp _ ih =>
    by_cases e : p = target
    · exact ⟨1, true, .met (e ▸ hp)⟩
    · obtain ⟨n, met, hc⟩ := ih
      exact ⟨n + 1, met, .link hp e hc⟩

/-! ## The walks at a limit -/

theorem Reaches.find {o : ObjectId} {n : Nat} {r : Option Descriptor} (h : s.Reaches k o n r) (limit : Nat) :
    s.find k limit o = if limit < n then .tooDeep else r.elim .absent .found := by
  induction h generalizing limit with
  | owner hk => unfold Store.find; simp [hk]
  | last hk hp => unfold Store.find; simp [hk, hp]
  | @link o p n r hk hp _ ih =>
    unfold Store.find
    cases limit with
    | zero => simp [hk, hp]
    | succ limit => simp [hk, hp, ih]

theorem Reaches.findForWrite {o : ObjectId} {n : Nat} {r : Option Descriptor} (h : s.Reaches k o n r) (limit : Nat) :
    s.findForWrite k limit o =
      if limit < n ∨ (limit = n ∧ r = none) then .tooDeep else r.elim .absent .found := by
  induction h generalizing limit with
  | owner hk => unfold Store.findForWrite; simp [hk]
  | last hk hp =>
    unfold Store.findForWrite
    cases limit with
    | zero => simp [hk]
    | succ limit => simp [hk, hp]
  | @link o p n r hk hp _ ih =>
    unfold Store.findForWrite
    cases limit with
    | zero => simp [hk]
    | succ limit => simp [hk, hp, ih]

theorem Climbs.pos {o : ObjectId} {n : Nat} (h : s.Climbs target o n true) : 0 < n := by
  cases h <;> omega

/-- The target is seen from one link away, before that link is counted. -/
theorem Climbs.isAncestor? {o : ObjectId} {n : Nat} {met : Bool} (h : s.Climbs target o n met) (limit : Nat) :
    s.isAncestor? target limit o = if limit + met.toNat < n then none else some met := by
  induction h generalizing limit with
  | met hp => unfold Store.isAncestor?; simp [hp]
  | last hp => unfold Store.isAncestor?; simp [hp]
  | @link o p n met hp hne hc ih =>
    unfold Store.isAncestor?
    cases limit with
    | zero =>
      have hlt : met.toNat < n + 1 := by
        cases met with
        | false => exact Nat.succ_pos n
        | true => exact Nat.succ_lt_succ hc.pos
      simp [hp, hne, hlt]
    | succ limit =>
      have hiff : limit + 1 + met.toNat < n + 1 ↔ limit + met.toNat < n := by omega
      simp [hp, hne, ih, hiff]

end Store

namespace Act

/-! ## The operations that walk -/

variable {env : Env σ} {w : World σ}

theorem get_of_reaches {o : ObjectId} {k : PropertyKey} {n : Nat} {r : Option Descriptor}
    (h : w.machine.store.Reaches k o n r) (receiver : Value) :
    get o k receiver env w =
      if env.maxDepth < n then tooDeep env w else r.elim (pure .undefined) (valueOf · receiver) env w := by
  simp only [get, bind_apply, store_apply, maxDepth_apply, h.find]
  by_cases hn : env.maxDepth < n
  · simp only [hn, if_true]
  · simp only [hn, if_false]
    cases r <;> rfl

theorem set_of_reaches {o : ObjectId} {k : PropertyKey} {n : Nat} {r : Option Descriptor}
    (h : w.machine.store.Reaches k o n r) (v receiver : Value) :
    set o k v receiver env w =
      if env.maxDepth < n ∨ (env.maxDepth = n ∧ r = none) then tooDeep env w
      else r.elim (assign receiver k v) (assignThrough · receiver k v) env w := by
  simp only [set, bind_apply, store_apply, maxDepth_apply, h.findForWrite]
  by_cases hn : env.maxDepth < n ∨ (env.maxDepth = n ∧ r = none)
  · simp only [hn, if_true]
  · simp only [hn, if_false]
    cases r <;> rfl

theorem isPrototypeOf_of_climbs {this : Value} {args : List Value} {o p : ObjectId} {w₁ : World σ} {n : Nat}
    {met : Bool} (ho : argument args = .object o) (hp : toObject this env w = .ok p w₁) (h : w₁.machine.store.Climbs p o n met) :
    isPrototypeOf this args env w =
      if env.maxDepth + met.toNat < n then tooDeep env w₁ else .ok (.boolean met) w₁ := by
  simp only [isPrototypeOf, ho, bind_apply, hp, store_apply, maxDepth_apply, h.isAncestor?]
  by_cases hn : env.maxDepth + met.toNat < n
  · simp only [hn, if_true]
  · simp only [hn, if_false]
    rfl

theorem toObject_reachable {v : Value} {o : ObjectId} {w₁ : World σ} (h : toObject v env w = .ok o w₁)
    (hr : w.machine.Reachable R) : w₁.machine.Reachable R := by
  cases v with
  | object => cases h; exact hr
  | undefined | null => cases h
  | boolean | number | string | symbol | bigInt => cases h; exact hr.tail (.create _ (.plain _ _ rfl))

theorem tooDeep_raises {α : Type} (env : Env σ) (w : World σ) :
    ∃ e w', w.Raises .rangeError .chainTooDeep e w' ∧ w'.machine.store.isError .rangeError (.object e) = true ∧
      (tooDeep : Act σ α) env w = .abrupt (.thrown (.object e)) w' := by
  have raised := w.raises_withError .chainTooDeep
  exact ⟨_, _, raised, raised.error, rfl⟩

/-- What a read, a write and a look for an ancestor do, by the links that they have to follow. -/
structure WalkLaw (R : Rules) (env : Env σ) (w : World σ) : Prop where
  /-- To give up is to throw a new RangeError. -/
  gives_up {α : Type} (w₁ : World σ) :
    ∃ e w', w₁.Raises .rangeError .chainTooDeep e w' ∧ w'.machine.store.isError .rangeError (.object e) = true ∧
      (tooDeep : Act σ α) env w₁ = .abrupt (.thrown (.object e)) w'
  reaches (o : ObjectId) (k : PropertyKey) : ∃ n r, w.machine.store.Reaches k o n r
  /-- A read gives up beyond the limit. -/
  read {o : ObjectId} {k : PropertyKey} {n : Nat} {r : Option Descriptor} : w.machine.store.Reaches k o n r →
    ∀ receiver, get o k receiver env w =
      if env.maxDepth < n then tooDeep env w else r.elim (pure .undefined) (valueOf · receiver) env w
  write {o : ObjectId} {k : PropertyKey} {n : Nat} {r : Option Descriptor} : w.machine.store.Reaches k o n r →
    ∀ v receiver, set o k v receiver env w =
      if env.maxDepth < n ∨ (env.maxDepth = n ∧ r = none) then tooDeep env w
      else r.elim (assign receiver k v) (assignThrough · receiver k v) env w
  climbs {this : Value} {p : ObjectId} {w₁ : World σ} : toObject this env w = .ok p w₁ →
    w₁.machine.Reachable R ∧ ∀ o, ∃ n met, w₁.machine.store.Climbs p o n met
  /-- A look for an ancestor gives up beyond the limit, but finds what is one link beyond it. -/
  look {this : Value} {args : List Value} {o p : ObjectId} {w₁ : World σ} {n : Nat} {met : Bool} :
    argument args = .object o → toObject this env w = .ok p w₁ → w₁.machine.store.Climbs p o n met →
    isPrototypeOf this args env w =
      if env.maxDepth + met.toNat < n then tooDeep env w₁ else .ok (.boolean met) w₁

theorem walk_law (h : w.machine.Reachable R) (env : Env σ) : WalkLaw R env w := by
  constructor
  · intro α w₁
    exact tooDeep_raises env w₁
  · intro o k
    obtain ⟨n, hn⟩ := h.grounded.ends o
    exact hn.reaches k
  · intro o k n r hr receiver
    exact get_of_reaches hr receiver
  · intro o k n r hr v receiver
    exact set_of_reaches hr v receiver
  · intro this p w₁ hp
    have h₁ := toObject_reachable hp h
    refine ⟨h₁, fun o => ?_⟩
    obtain ⟨n, hn⟩ := h₁.grounded.ends o
    exact hn.climbs p
  · intro this args o p w₁ n met ho hp hc
    exact isPrototypeOf_of_climbs ho hp hc

/-! ## A chain of three -/

/-- The first machine with three objects more, each the prototype of the next. -/
def threeChained : Machine :=
  { store := ((Realm.store.add {}).add { proto := some ⟨25⟩ }).add { proto := some ⟨26⟩ } }

theorem threeChained_reachable : threeChained.Reachable R := by
  have first : Machine.Run R {} { store := Realm.store.add {} } := .single (.create {} (.plain none none rfl))
  exact (first.tail (.create _ (.plain (some ⟨25⟩) none rfl))).tail (.create _ (.plain (some ⟨26⟩) none rfl))

/-- With room for two links, a key without an owner can be read and not written. -/
theorem a_write_below_two_links :
    let env : Env Unit := .ofHost idle ⟨2⟩ ⟨64, 64⟩
    let w : World Unit := ⟨threeChained, ()⟩
    get ⟨27⟩ "x" .null env w = .ok .undefined w ∧ set ⟨27⟩ "x" .null .null env w = tooDeep env w := by
  intro env w
  have last : w.machine.store.Reaches "x" ⟨25⟩ 0 none := .last (by decide) (by decide)
  have middle : w.machine.store.Reaches "x" ⟨26⟩ 1 none := .link (by decide) (by decide) last
  have hr : w.machine.store.Reaches "x" ⟨27⟩ 2 none := .link (by decide) (by decide) middle
  have reachable : w.machine.Reachable .checked := threeChained_reachable
  have law : WalkLaw .checked env w := walk_law reachable env
  exact ⟨law.read hr .null, law.write hr .null .null⟩

/-- With room for one link: a key with no owner one link up is read, and writing it fails;
    and a prototype two links up is found. -/
theorem walks_disagree_at_the_limit :
    let env : Env Unit := .ofHost idle ⟨1⟩ ⟨64, 64⟩
    let w : World Unit := ⟨threeChained, ()⟩
    w.machine.Reachable .checked ∧
    (w.machine.store.Reaches "x" ⟨26⟩ 1 none ∧ get ⟨26⟩ "x" (.object ⟨26⟩) env w = .ok .undefined w ∧
      set ⟨26⟩ "x" .null (.object ⟨26⟩) env w = tooDeep env w) ∧
    w.machine.store.Climbs ⟨25⟩ ⟨27⟩ 2 true ∧
      isPrototypeOf (.object ⟨25⟩) [.object ⟨27⟩] env w = .ok (.boolean true) w := by
  intro env w
  have last : w.machine.store.Reaches "x" ⟨25⟩ 0 none := .last (by decide) (by decide)
  have met : w.machine.store.Climbs ⟨25⟩ ⟨26⟩ 1 true := .met (by decide)
  exact ⟨threeChained_reachable, ⟨.link (by decide) (by decide) last, rfl, rfl⟩, .link (by decide) (by decide) met, rfl⟩

end Act

end EcmaObjects
