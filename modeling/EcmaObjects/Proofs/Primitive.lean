/-
  EcmaObjects.Proofs.Primitive — what decides the primitive value of an object.

  A primitive stands for itself. An object has its `Symbol.toPrimitive` decide if that is neither
  undefined nor null; otherwise two of its methods are tried, in an order that the hint gives.
  A method is asked by reading it and calling it at once (`Act.Replies`). `Act.Converts` lists the
  ways in which a conversion may end and `Act.Tries` those of the two methods, each with its
  requests in their order; a conversion makes no others (`Converts.shows`).
  - `primitive_law`: what a conversion gives is no object. It reads no property twice, and a later
    method only if the earlier one could not be called or gave an object. A failure is that of the
    last request, or a TypeError (`Act.Cut`). Converting to a string or to a key fails as this
    does, or because a symbol has no string.
-/

import EcmaObjects.Proofs.Acquisition

namespace EcmaObjects

variable {σ α : Type}

namespace Store

variable {s : Store} {f this : Value} {args : List Value}

theorem isCallable_of_callOf? {call : Call} (h : s.callOf? f this args = some call) : s.isCallable f = true := by
  obtain ⟨b, hb, -⟩ := Option.map_eq_some_iff.mp h
  exact Act.isCallable_iff.mpr ⟨b, hb⟩

theorem not_isCallable_of_callOf? (h : s.callOf? f this args = none) : s.isCallable f = false := by
  rw [Bool.eq_false_iff]
  intro callable
  obtain ⟨b, hb⟩ := Act.isCallable_iff.mp callable
  rw [callOf?, hb] at h
  cases h

end Store

namespace Act

/-! ## Asking a method -/

/-- The property of `o` at `k` cannot be read, or it is a function and is called with these arguments. -/
inductive Replies (env : Env σ) (o : ObjectId) (k : PropertyKey) (args : List Value) (w : World σ) :
    List Request → Result σ Value → Prop
  | lookupFails {out : Result σ Value} : (get o k (.object o) env w).Fails out →
      Replies env o k args w [w.machine.store.reading env.maxDepth o k] out
  | called {f : Value} {call : Call} {w₁ : World σ} : get o k (.object o) env w = .ok f w₁ →
      w₁.machine.store.callOf? f (.object o) args = some call →
      Replies env o k args w [w.machine.store.reading env.maxDepth o k, .call call] (call.result env w₁)

/-- The property of `o` at `k` is read and gives no function. -/
structure NoMethod (env : Env σ) (o : ObjectId) (k : PropertyKey) (w : World σ) (f : Value) (w₁ : World σ) : Prop where
  read : get o k (.object o) env w = .ok f w₁
  notCallable : w₁.machine.store.isCallable f = false

/-- The end of an operation that was cut short after these requests: that of the last one, a read
    or a call, or a TypeError that the operation itself has made. -/
inductive Cut (env : Env σ) (w : World σ) : List Request → Result σ α → Prop
  | read {before : List Request} {o : ObjectId} {k : PropertyKey} {w₁ : World σ} {out : Result σ α} :
      env.Shows w w₁ before → (get o k (.object o) env w₁).Fails out →
      Cut env w (before ++ [w₁.machine.store.reading env.maxDepth o k]) out
  | call {before : List Request} {call : Call} {w₁ : World σ} {out : Result σ α} : env.Shows w w₁ before →
      (call.result env w₁).Fails out → Cut env w (before ++ [.call call]) out
  | error {asked : List Request} {cause : Cause} {e : ObjectId} {w₁ w' : World σ} : env.Shows w w₁ asked →
      w₁.Raises .typeError cause e w' → Cut env w asked (.abrupt (.thrown (.object e)) w')

section
variable {env : Env σ} {o : ObjectId} {k : PropertyKey} {args : List Value} {asked more : List Request} {f : Value}
  {w w₁ w' : World σ} {r : Result σ Value} {out : Result σ α}

theorem Cut.after (h : Cut env w₁ more out) (before : env.Shows w w₁ asked) : Cut env w (asked ++ more) out := by
  cases h with
  | read shows hm =>
    rw [← List.append_assoc]
    exact .read (before.trans shows) hm
  | call shows hr =>
    rw [← List.append_assoc]
    exact .call (before.trans shows) hr
  | error shows raised => exact .error (before.trans shows) raised

theorem Replies.shows (h : Replies env o k args w asked r) : env.Shows w r.world asked := by
  cases h with
  | lookupFails hf =>
    rw [hf.world]
    exact .read _ _ _ env w
  | called hm hc => exact (Env.Shows.of_get hm).trans (.call _ env _)

theorem Replies.cut (h : Replies env o k args w asked r) (hf : r.Fails out) : Cut env w asked out := by
  cases h with
  | lookupFails hm =>
    change Cut env w ([] ++ [_]) out
    exact .read (.of_host rfl) (hm.trans hf)
  | called hm hc =>
    change Cut env w ([_] ++ [_]) out
    exact .call (.of_get hm) hf

theorem Replies.reads (h : Replies env o k args w asked r) (k' : PropertyKey) :
    asked.countP (Request.reads k') = [k].count k' := by
  cases h <;> simp [Store.reading, Request.reads, List.count_singleton, List.countP_cons]

theorem Replies.calls (h : Replies env o k args w asked r) : asked.countP Request.isCall ≤ 1 := by
  cases h <;> simp [Store.reading, Request.isCall]

theorem NoMethod.shows (h : NoMethod env o k w f w₁) :
    env.Shows w w₁ [w.machine.store.reading env.maxDepth o k] := .of_get h.read

theorem NoMethod.reads (_ : NoMethod env o k w f w₁) (k' : PropertyKey) :
    [w.machine.store.reading env.maxDepth o k].countP (Request.reads k') = [k].count k' := by
  simp [Store.reading, Request.reads, List.count_singleton]

/-- A method is asked, unless there is none. -/
theorem replies_or_noMethod (env : Env σ) (o : ObjectId) (k : PropertyKey) (args : List Value) (w : World σ) :
    (∃ asked out, Replies env o k args w asked out) ∨ ∃ f w₁, NoMethod env o k w f w₁ := by
  cases hm : get o k (.object o) env w with
  | abrupt c w₁ => exact Or.inl ⟨_, _, .lookupFails (.abrupt hm)⟩
  | fault e w₁ => exact Or.inl ⟨_, _, .lookupFails (.fault hm)⟩
  | ok f w₁ =>
    cases hc : w₁.machine.store.callOf? f (.object o) args with
    | none => exact Or.inr ⟨f, w₁, hm, Store.not_isCallable_of_callOf? hc⟩
    | some call => exact Or.inl ⟨_, _, .called hm hc⟩

end

/-! ## The ways of a conversion -/

/-- How trying these methods of `o` may end. -/
inductive Tries (env : Env σ) (o : ObjectId) : List PropertyKey → World σ → List Request → Result σ Value → Prop
  | nothingLeft {w w' : World σ} {e : ObjectId} : w.Raises .typeError .noPrimitive e w' →
      Tries env o [] w [] (.abrupt (.thrown (.object e)) w')
  | fails {name : PropertyKey} {rest : List PropertyKey} {asked : List Request} {w : World σ} {r out : Result σ Value} :
      Replies env o name [] w asked r → r.Fails out → Tries env o (name :: rest) w asked out
  | passesOver {name : PropertyKey} {rest : List PropertyKey} {f : Value} {more : List Request} {w w₁ : World σ}
      {out : Result σ Value} : NoMethod env o name w f w₁ → Tries env o rest w₁ more out →
      Tries env o (name :: rest) w ([w.machine.store.reading env.maxDepth o name] ++ more) out
  | givesObject {name : PropertyKey} {rest : List PropertyKey} {u : Value} {asked more : List Request}
      {w w₁ : World σ} {out : Result σ Value} :
      Replies env o name [] w asked (.ok u w₁) → u.isObject = true → Tries env o rest w₁ more out →
      Tries env o (name :: rest) w (asked ++ more) out
  | gives {name : PropertyKey} {rest : List PropertyKey} {u : Value} {asked : List Request} {w w₁ : World σ} :
      Replies env o name [] w asked (.ok u w₁) → u.isObject = false → Tries env o (name :: rest) w asked (.ok u w₁)

/-- How a conversion to a primitive may end, where `word` says what is wanted and these methods are the
    ordinary way to it. -/
inductive Converts (env : Env σ) (word : String) (names : List PropertyKey) :
    Value → World σ → List Request → Result σ Value → Prop
  | primitive {v : Value} (w : World σ) : v.isObject = false → Converts env word names v w [] (.ok v w)
  | fails {o : ObjectId} {asked : List Request} {w : World σ} {r out : Result σ Value} :
      Replies env o WellKnown.toPrimitive [.ofString word] w asked r → r.Fails out →
      Converts env word names (.object o) w asked out
  | notCallable {o e : ObjectId} {f : Value} {w w₁ w' : World σ} : NoMethod env o WellKnown.toPrimitive w f w₁ →
      f.isNullish = false → w₁.Raises .typeError (.methodNotCallable WellKnown.toPrimitive) e w' →
      Converts env word names (.object o) w [w.machine.store.reading env.maxDepth o WellKnown.toPrimitive]
        (.abrupt (.thrown (.object e)) w')
  | givesObject {o e : ObjectId} {u : Value} {asked : List Request} {w w₁ w' : World σ} :
      Replies env o WellKnown.toPrimitive [.ofString word] w asked (.ok u w₁) → u.isObject = true →
      w₁.Raises .typeError .noPrimitive e w' →
      Converts env word names (.object o) w asked (.abrupt (.thrown (.object e)) w')
  | gives {o : ObjectId} {u : Value} {asked : List Request} {w w₁ : World σ} :
      Replies env o WellKnown.toPrimitive [.ofString word] w asked (.ok u w₁) → u.isObject = false →
      Converts env word names (.object o) w asked (.ok u w₁)
  /-- With undefined or null at `Symbol.toPrimitive` the methods are tried. -/
  | ordinary {o : ObjectId} {f : Value} {more : List Request} {w w₁ : World σ} {out : Result σ Value} :
      NoMethod env o WellKnown.toPrimitive w f w₁ → f.isNullish = true → Tries env o names w₁ more out →
      Converts env word names (.object o) w ([w.machine.store.reading env.maxDepth o WellKnown.toPrimitive] ++ more) out

section
variable {env : Env σ} {o : ObjectId} {f v : Value} {hint : Hint} {word : String} {names rest : List PropertyKey}
  {name : PropertyKey} {asked : List Request} {w w₁ : World σ} {out : Result σ Value}

/-! ## Trying methods -/

theorem NoMethod.firstPrimitive (h : NoMethod env o name w f w₁) :
    firstPrimitive o (name :: rest) env w = firstPrimitive o rest env w₁ := by
  simp only [Act.firstPrimitive, bind_apply, h.read, isCallable, store_apply, pure_apply, h.notCallable,
    Bool.false_eq_true, if_false]

theorem Replies.firstPrimitive : Replies env o name [] w asked out →
    firstPrimitive o (name :: rest) env w = match out with
      | .ok u w₁ => if u.isObject then firstPrimitive o rest env w₁ else .ok u w₁
      | .abrupt c w₁ => .abrupt c w₁
      | .fault e w₁ => .fault e w₁ := by
  intro h
  cases h with
  | lookupFails hf =>
    cases hf with
    | abrupt hm | fault hm => simp only [Act.firstPrimitive, bind_apply, hm]
  | @called f call w₁ hm hc =>
    simp only [Act.firstPrimitive, bind_apply, hm, isCallable, store_apply, pure_apply,
      Store.isCallable_of_callOf? hc, if_true, call_apply, hc]
    cases call.result env w₁ with
    | abrupt c w₂ | fault e w₂ => rfl
    | ok u w₂ => cases hu : u.isObject <;> simp only [hu, Bool.false_eq_true, if_true, if_false, pure_apply]

theorem Tries.apply (h : Tries env o names w asked out) : Act.firstPrimitive o names env w = out := by
  induction h with
  | nothingLeft raised => exact (throwCause_apply _ _ _).trans raised.thrown
  | fails replies hf =>
    rw [replies.firstPrimitive]
    cases hf with
    | abrupt hr | fault hr => simp only [hr]
  | passesOver missing _ ih => rw [missing.firstPrimitive, ih]
  | givesObject replies hu _ ih =>
    rw [replies.firstPrimitive, ← ih]
    exact if_pos hu
  | gives replies hu =>
    rw [replies.firstPrimitive]
    exact if_neg (Bool.eq_false_iff.mp hu)

theorem tries_exists (env : Env σ) (o : ObjectId) (names : List PropertyKey) (w : World σ) :
    ∃ asked out, Tries env o names w asked out := by
  induction names generalizing w with
  | nil => exact ⟨_, _, .nothingLeft (w.raises_withError .noPrimitive)⟩
  | cons name rest ih =>
    rcases replies_or_noMethod env o name [] w with ⟨asked, out, replies⟩ | ⟨f, w₁, missing⟩
    · cases out with
      | abrupt c w₁ => exact ⟨_, _, .fails replies (.abrupt rfl)⟩
      | fault e w₁ => exact ⟨_, _, .fails replies (.fault rfl)⟩
      | ok u w₁ =>
        cases hu : u.isObject with
        | false => exact ⟨_, _, .gives replies hu⟩
        | true =>
          obtain ⟨more, out, later⟩ := ih w₁
          exact ⟨_, _, .givesObject replies hu later⟩
    · obtain ⟨more, out, later⟩ := ih w₁
      exact ⟨_, _, .passesOver missing later⟩

theorem Tries.shows (h : Tries env o names w asked out) : env.Shows w out.world asked := by
  induction h with
  | nothingLeft raised => exact .of_host raised.host
  | fails replies hf =>
    rw [hf.world]
    exact replies.shows
  | passesOver missing _ ih => exact missing.shows.trans ih
  | givesObject replies _ _ ih => exact replies.shows.trans ih
  | gives replies _ => exact replies.shows

theorem Tries.noObject {p : Value} (h : Tries env o names w asked (.ok p w₁)) : p.isObject = false := by
  generalize hr : (Result.ok p w₁ : Result σ Value) = out at h
  induction h with
  | nothingLeft => cases hr
  | fails _ hf =>
    subst hr
    cases hf
  | passesOver _ _ ih => exact ih hr
  | givesObject _ _ _ ih => exact ih hr
  | gives _ hu =>
    cases hr
    exact hu

theorem Tries.cut {last : Result σ α} (h : Tries env o names w asked out) (hf : out.Fails last) :
    Cut env w asked last := by
  induction h with
  | nothingLeft raised =>
    rw [Result.fails_abrupt_iff.mp hf]
    exact .error (.of_host rfl) raised
  | fails replies failed => exact replies.cut (failed.trans hf)
  | passesOver missing _ ih => exact (ih hf).after missing.shows
  | givesObject replies _ _ ih => exact (ih hf).after replies.shows
  | gives => exact absurd hf Result.not_fails_ok

/-- Each of the methods is read at most once, and called no more often. -/
theorem Tries.counts (h : Tries env o names w asked out) :
    (∀ k, asked.countP (Request.reads k) ≤ names.count k) ∧ asked.countP Request.isCall ≤ names.length := by
  induction h with
  | nothingLeft => exact ⟨fun _ => Nat.zero_le _, Nat.zero_le _⟩
  | @fails name rest asked _ _ _ replies _ | @gives name rest _ asked _ _ replies _ =>
    constructor
    · intro k
      change _ ≤ ([name] ++ rest).count k
      rw [List.count_append, replies.reads]
      exact Nat.le_add_right _ _
    · exact Nat.le_trans replies.calls (Nat.succ_le_succ (Nat.zero_le _))
  | @passesOver name rest _ more w _ _ missing _ ih =>
    constructor
    · intro k
      change _ ≤ ([name] ++ rest).count k
      rw [List.count_append, List.countP_append, missing.reads]
      exact Nat.add_le_add_left (ih.1 k) _
    · exact Nat.le_succ_of_le ih.2
  | @givesObject name rest _ asked more _ _ _ replies _ _ ih =>
    constructor
    · intro k
      change _ ≤ ([name] ++ rest).count k
      rw [List.count_append, List.countP_append, replies.reads]
      exact Nat.add_le_add_left (ih.1 k) _
    · rw [List.countP_append, List.length_cons, Nat.add_comm]
      exact Nat.add_le_add ih.2 replies.calls

/-! ## Converting -/

theorem NoMethod.toPrimitive (h : NoMethod env o WellKnown.toPrimitive w f w₁) :
    toPrimitive (.object o) hint env w =
      if f.isNullish then Act.firstPrimitive o hint.methods env w₁
      else .abrupt (.thrown (.object w₁.machine.store.fresh))
        (w₁.withError (.methodNotCallable WellKnown.toPrimitive)) := by
  have read : getV (.object o) WellKnown.toPrimitive env w = .ok f w₁ := h.read
  simp only [Act.toPrimitive, bind_apply, getMethod_apply, read, h.notCallable, Bool.false_eq_true, if_false]
  cases f.isNullish <;> rfl

theorem Replies.toPrimitive : Replies env o WellKnown.toPrimitive [.ofString hint.text] w asked out →
    toPrimitive (.object o) hint env w = match out with
      | .ok u w₁ =>
        if u.isObject then .abrupt (.thrown (.object w₁.machine.store.fresh)) (w₁.withError .noPrimitive)
        else .ok u w₁
      | .abrupt c w₁ => .abrupt c w₁
      | .fault e w₁ => .fault e w₁ := by
  intro h
  cases h with
  | lookupFails hf =>
    cases hf with
    | abrupt hm | fault hm =>
      simp only [Act.toPrimitive, bind_apply, getMethod_apply, getV, toObject, Value.object?, pure_apply, hm]
  | @called f call w₁ hm hc =>
    have read : getV (.object o) WellKnown.toPrimitive env w = .ok f w₁ := hm
    have callable := Store.isCallable_of_callOf? hc
    simp only [Act.toPrimitive, bind_apply, getMethod_apply, read, callable, isNullish_of_isCallable callable, if_true,
      Bool.false_eq_true, if_false, call_apply, hc]
    cases call.result env w₁ with
    | abrupt c w₂ | fault e w₂ => rfl
    | ok u w₂ =>
      cases hu : u.isObject <;> simp only [hu, Bool.false_eq_true, if_true, if_false, pure_apply, throwCause_apply]

theorem Converts.apply (h : Converts env hint.text hint.methods v w asked out) : Act.toPrimitive v hint env w = out := by
  cases h with
  | primitive w hv =>
    cases v with
    | object o => cases hv
    | _ => rfl
  | fails replies hf =>
    rw [replies.toPrimitive]
    cases hf with
    | abrupt hr | fault hr => simp only [hr]
  | notCallable missing hn raised =>
    rw [missing.toPrimitive, ← raised.thrown]
    exact if_neg (Bool.eq_false_iff.mp hn)
  | givesObject replies hu raised =>
    rw [replies.toPrimitive, ← raised.thrown]
    exact if_pos hu
  | gives replies hu =>
    rw [replies.toPrimitive]
    exact if_neg (Bool.eq_false_iff.mp hu)
  | ordinary missing hn tries =>
    rw [missing.toPrimitive, if_pos hn]
    exact tries.apply

/-- Every conversion ends in one of the ways. -/
theorem toPrimitive_converts (v : Value) (hint : Hint) (env : Env σ) (w : World σ) :
    ∃ asked, Converts env hint.text hint.methods v w asked (Act.toPrimitive v hint env w) := by
  have way {asked : List Request} {out : Result σ Value} (h : Converts env hint.text hint.methods v w asked out) :
      ∃ asked, Converts env hint.text hint.methods v w asked (Act.toPrimitive v hint env w) := ⟨asked, h.apply ▸ h⟩
  cases v with
  | object o =>
    rcases replies_or_noMethod env o WellKnown.toPrimitive [.ofString hint.text] w with
      ⟨asked, out, replies⟩ | ⟨f, w₁, missing⟩
    · cases out with
      | abrupt c w₁ => exact way (.fails replies (.abrupt rfl))
      | fault e w₁ => exact way (.fails replies (.fault rfl))
      | ok u w₁ =>
        cases hu : u.isObject with
        | false => exact way (.gives replies hu)
        | true => exact way (.givesObject replies hu (w₁.raises_withError .noPrimitive))
    · cases hn : f.isNullish with
      | false => exact way (.notCallable missing hn (w₁.raises_withError (.methodNotCallable WellKnown.toPrimitive)))
      | true =>
        obtain ⟨more, out, tries⟩ := tries_exists env o hint.methods w₁
        exact way (.ordinary missing hn tries)
  | _ => exact way (.primitive w rfl)

theorem Converts.shows (h : Converts env word names v w asked out) : env.Shows w out.world asked := by
  cases h with
  | primitive w _ => exact .of_host rfl
  | fails replies hf =>
    rw [hf.world]
    exact replies.shows
  | notCallable missing _ raised => exact missing.shows.raises raised
  | givesObject replies _ raised => exact replies.shows.raises raised
  | gives replies _ => exact replies.shows
  | ordinary missing _ tries => exact missing.shows.trans tries.shows

theorem Converts.noObject {p : Value} (h : Converts env word names v w asked (.ok p w₁)) : p.isObject = false := by
  generalize hr : (Result.ok p w₁ : Result σ Value) = out at h
  cases h with
  | primitive w hv =>
    cases hr
    exact hv
  | fails _ hf =>
    subst hr
    cases hf
  | notCallable => cases hr
  | givesObject => cases hr
  | gives _ hu =>
    cases hr
    exact hu
  | ordinary _ _ tries => exact (hr ▸ tries).noObject

theorem Converts.cut {last : Result σ α} (h : Converts env word names v w asked out) (hf : out.Fails last) :
    Cut env w asked last := by
  cases h with
  | primitive => exact absurd hf Result.not_fails_ok
  | fails replies failed => exact replies.cut (failed.trans hf)
  | notCallable missing _ raised =>
    rw [Result.fails_abrupt_iff.mp hf]
    exact .error missing.shows raised
  | givesObject replies _ raised =>
    rw [Result.fails_abrupt_iff.mp hf]
    exact .error replies.shows raised
  | gives => exact absurd hf Result.not_fails_ok
  | ordinary missing _ tries => exact (tries.cut hf).after missing.shows

/-- No property is read twice, and no more methods are called than there are names. -/
theorem Converts.counts (h : Converts env word names v w asked out)
    (distinct : ((WellKnown.toPrimitive : PropertyKey) :: names).Nodup) (some : 1 ≤ names.length) :
    (∀ k, asked.countP (Request.reads k) ≤ 1) ∧ asked.countP Request.isCall ≤ names.length := by
  have single {asked : List Request} {args : List Value} {r : Result σ Value} {o : ObjectId} {k : PropertyKey}
      (replies : Replies env o k args w asked r) :
      (∀ k, asked.countP (Request.reads k) ≤ 1) ∧ asked.countP Request.isCall ≤ names.length := by
    refine ⟨fun k' => ?_, Nat.le_trans replies.calls some⟩
    rw [replies.reads]
    exact List.count_le_length
  cases h with
  | primitive => exact ⟨fun _ => Nat.zero_le _, Nat.zero_le _⟩
  | fails replies _ => exact single replies
  | givesObject replies _ _ => exact single replies
  | gives replies _ => exact single replies
  | notCallable missing _ _ =>
    refine ⟨fun k => ?_, Nat.zero_le _⟩
    rw [missing.reads]
    exact List.count_le_length
  | ordinary missing _ tries =>
    obtain ⟨reads, calls⟩ := tries.counts
    refine ⟨fun k => ?_, calls⟩
    -- No name is that of the first read, and none is there twice.
    have once := List.nodup_iff_count.mp distinct k
    rw [← List.singleton_append, List.count_append] at once
    rw [List.countP_append, missing.reads]
    exact Nat.le_trans (Nat.add_le_add_left (reads k) _) once

/-! ## Strings and keys -/

theorem toText_of_toPrimitive {p : Value} (h : Act.toPrimitive v .string env w = .ok p w₁) :
    toText v env w = match p.primitiveText? with
      | some s => .ok (.ofString s) w₁
      | none => .abrupt (.thrown (.object w₁.machine.store.fresh)) (w₁.withError .symbolText) := by
  simp only [toText, bind_apply, h]
  cases p.primitiveText? <;> rfl

/-- A primitive has a text unless it is a symbol. -/
theorem primitiveText?_eq_none {p : Value} (hp : p.isObject = false) : p.primitiveText? = none ↔ ∃ s, p = .symbol s := by
  cases p with
  | object o => cases hp
  | symbol s => exact ⟨fun _ => ⟨s, rfl⟩, fun _ => rfl⟩
  | _ => exact ⟨nofun, nofun⟩

theorem toText_fails {last : Result σ α} (h : (toText v env w).Fails last) :
    (Act.toPrimitive v .string env w).Fails last ∨
      ∃ s e w₁ w', Act.toPrimitive v .string env w = .ok (.symbol s) w₁ ∧ w₁.Raises .typeError .symbolText e w' ∧
        last = .abrupt (.thrown (.object e)) w' := by
  rcases bind_fails h with failed | ⟨p, w₁, hp, failed⟩
  · exact Or.inl failed
  · obtain ⟨asked, converts⟩ := toPrimitive_converts v .string env w
    have primitive : p.isObject = false := (hp ▸ converts).noObject
    cases ht : p.primitiveText? with
    | some s =>
      rw [ht] at failed
      exact absurd failed Result.not_fails_ok
    | none =>
      rw [ht] at failed
      obtain ⟨s, rfl⟩ := (primitiveText?_eq_none primitive).mp ht
      exact Or.inr ⟨s, _, w₁, _, hp, w₁.raises_withError .symbolText, Result.fails_abrupt_iff.mp failed⟩

/-- A primitive has a key, also a symbol. -/
theorem toPropertyKey_of_toPrimitive {p : Value} (h : Act.toPrimitive v .string env w = .ok p w₁) :
    ∃ k, toPropertyKey v env w = .ok k w₁ := by
  obtain ⟨asked, converts⟩ := toPrimitive_converts v .string env w
  have primitive : p.isObject = false := (h ▸ converts).noObject
  have itself : Act.toPrimitive p .string env w₁ = .ok p w₁ := (Converts.primitive w₁ primitive).apply
  simp only [toPropertyKey, bind_apply, h]
  cases ht : p.primitiveText? with
  | none =>
    obtain ⟨s, rfl⟩ := (primitiveText?_eq_none primitive).mp ht
    exact ⟨s.key, rfl⟩
  | some s =>
    have text : toText p env w₁ = .ok (.ofString s) w₁ := by rw [toText_of_toPrimitive itself, ht]
    refine ⟨.text (Text.ofString s).lossy, ?_⟩
    cases p with
    | symbol => cases ht
    | _ => simp only [bind_apply, text, pure_apply]

theorem toPropertyKey_fails {last : Result σ α} :
    (toPropertyKey v env w).Fails last ↔ (Act.toPrimitive v .string env w).Fails last := by
  cases hp : Act.toPrimitive v .string env w with
  | ok p w₁ =>
    obtain ⟨k, hk⟩ := toPropertyKey_of_toPrimitive hp
    rw [hk]
    exact iff_of_false Result.not_fails_ok Result.not_fails_ok
  | abrupt c w₁ =>
    have same : toPropertyKey v env w = .abrupt c w₁ := by simp only [toPropertyKey, bind_apply, hp]
    rw [same, Result.fails_abrupt_iff, Result.fails_abrupt_iff]
  | fault e w₁ =>
    have same : toPropertyKey v env w = .fault e w₁ := by simp only [toPropertyKey, bind_apply, hp]
    rw [same, Result.fails_fault_iff, Result.fails_fault_iff]

end

/-! ## The law of conversions -/

/-- What converting `v` to a primitive under a hint comes to, where the hint is told to a method at
    `Symbol.toPrimitive` by this word, and otherwise these methods are tried in turn. -/
structure HintLaw (hint : Hint) (word : String) (names : List PropertyKey) (v : Value) (env : Env σ) (w : World σ) :
    Prop where
  way : ∃ asked, Converts env word names v w asked (toPrimitive v hint env w) ∧
    env.Shows w (toPrimitive v hint env w).world asked ∧ (∀ k, asked.countP (Request.reads k) ≤ 1) ∧
    asked.countP Request.isCall ≤ names.length
  itself : v.isObject = false → toPrimitive v hint env w = .ok v w
  noObject {p : Value} {w' : World σ} : toPrimitive v hint env w = .ok p w' → p.isObject = false
  fails {out : Result σ Value} : (toPrimitive v hint env w).Fails out →
    ∃ asked, Converts env word names v w asked out ∧ Cut env w asked out

theorem hintLaw (hint : Hint) (v : Value) (env : Env σ) (w : World σ) : HintLaw hint hint.text hint.methods v env w := by
  obtain ⟨asked, converts⟩ := toPrimitive_converts v hint env w
  have distinct : ((WellKnown.toPrimitive : PropertyKey) :: hint.methods).Nodup := by cases hint <;> decide
  have some : 1 ≤ hint.methods.length := by cases hint <;> decide
  constructor
  · exact ⟨asked, converts, converts.shows, converts.counts distinct some⟩
  · intro hv
    exact (Converts.primitive w hv).apply
  · intro p w' h
    exact (h ▸ converts).noObject
  · intro out h
    exact ⟨asked, h.same ▸ converts, converts.cut h⟩

/-- What converting `v` to a primitive comes to, and what follows for a string and a key. -/
structure PrimitiveLaw (v : Value) (env : Env σ) (w : World σ) : Prop where
  string : HintLaw .string "string" ["toString", "valueOf"] v env w
  number : HintLaw .number "number" ["valueOf", "toString"] v env w
  textFails {out : Result σ Text} : (toText v env w).Fails out →
    (toPrimitive v .string env w).Fails out ∨
      ∃ s e w₁ w', toPrimitive v .string env w = .ok (.symbol s) w₁ ∧ w₁.Raises .typeError .symbolText e w' ∧
        out = .abrupt (.thrown (.object e)) w'
  keyFails {out : Result σ PropertyKey} :
    (toPropertyKey v env w).Fails out ↔ (toPrimitive v .string env w).Fails out

theorem primitive_law (v : Value) (env : Env σ) (w : World σ) : PrimitiveLaw v env w where
  string := hintLaw .string v env w
  number := hintLaw .number v env w
  textFails h := toText_fails h
  keyFails := toPropertyKey_fails

/-- A method at `Symbol.toPrimitive` is told what is wanted. Without it, an object whose `toString`
    gives the object again has its `valueOf` asked too for a string; for a number that is asked first. -/
theorem the_hint_decides_what_is_asked :
    let env := (Env.ofHost idle ⟨8⟩ ⟨64, 64⟩).logged
    let self : Object := .ofFunction ⟨"self", 0, .builtin .self⟩
    let nothing : Object := .ofFunction ⟨"nothing", 0, .builtin .nothing⟩
    let methods : PropertyTable := ⟨[("toString", .plain (.object ⟨25⟩)), ("valueOf", .plain (.object ⟨26⟩))]⟩
    let hook : PropertyTable := ⟨[(WellKnown.toPrimitive, .plain (.object ⟨26⟩))]⟩
    let w (calls : List Call) : World (Unit × List Call) :=
      ⟨{ store := (((Realm.store.add self).add nothing).add { properties := methods }).add { properties := hook } },
        (), calls⟩
    let first : Call := ⟨.builtin .self, .object ⟨27⟩, []⟩
    let second : Call := ⟨.builtin .nothing, .object ⟨27⟩, []⟩
    toPrimitive (.object ⟨28⟩) .string env (w []) =
        .ok .undefined (w [⟨.builtin .nothing, .object ⟨28⟩, [.ofString "string"]⟩]) ∧
      toPrimitive (.object ⟨28⟩) .number env (w []) =
        .ok .undefined (w [⟨.builtin .nothing, .object ⟨28⟩, [.ofString "number"]⟩]) ∧
      toPrimitive (.object ⟨27⟩) .string env (w []) = .ok .undefined (w [first, second]) ∧
      toPrimitive (.object ⟨27⟩) .number env (w []) = .ok .undefined (w [second]) ∧
      Value.undefined.isObject = false ∧
      ∃ k, toPropertyKey (.object ⟨27⟩) env (w []) = .ok k (w [first, second]) := by
  intro env self nothing methods hook w first second
  have asString : toPrimitive (.object ⟨27⟩) .string env (w []) = .ok .undefined (w [first, second]) := rfl
  have asNumber : toPrimitive (.object ⟨27⟩) .number env (w []) = .ok .undefined (w [second]) := rfl
  have law := primitive_law (.object ⟨27⟩) env (w [])
  exact ⟨rfl, rfl, asString, asNumber, law.string.noObject asString, toPropertyKey_of_toPrimitive asString⟩

end Act

end EcmaObjects
