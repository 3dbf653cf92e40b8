/-
  EcmaObjects.Proofs.Key — what property keys tell apart.

  A string as a key is written as Unicode text, which mends it: two strings have one key
  exactly if they are alike with U+FFFD for each unpaired surrogate. So well-formed
  strings never share a key, and others may (`two_strings_with_one_key`). A symbol as a
  key is its number; a run never gives a number twice (`Run.nextSymbol_le`), and never
  one of a well-known symbol.
  A definition at one key is not seen at any other, as an exotic key is read from one string
  only (`Object.define?_own_ne`); so what is created at one key is not found at another
  (`Store.find_absent_of_own`).
  `keys_are_mended_strings_and_symbols` puts these together.
-/

import EcmaObjects.Proofs.ArrayIndex
import EcmaObjects.Proofs.Extensible
import EcmaObjects.Proofs.Text

namespace EcmaObjects

variable {σ : Type} {R : Rules}

/-! ## Strings and symbols as keys -/

namespace Value

def isStringOrSymbol : Value → Bool
  | .string _ | .symbol _ => true
  | _ => false

/-- A string with U+FFFD for each unpaired surrogate, any other value as it is. -/
def mended : Value → Value
  | .string t => .string t.mended
  | v => v

def WellFormed (v : Value) : Prop := ∀ t, v = .string t → t.toString? ≠ none

theorem WellFormed.mended {v : Value} (h : v.WellFormed) : v.mended = v := by
  cases v with
  | string t => exact congrArg Value.string (t.mended_eq_self_iff.mpr (h t rfl))
  | _ => rfl

def key : Value → PropertyKey
  | .string t => t.lossy
  | .symbol s => s.key
  | _ => ""

theorem key_eq_iff {v v' : Value} (hv : v.isStringOrSymbol = true) (hv' : v'.isStringOrSymbol = true) :
    v.key = v'.key ↔ v.mended.strictEq v'.mended = true := by
  cases v with
  | string t =>
    cases v' with
    | string u => simp [key, mended, strictEq, Text.lossy_inj]
    | symbol s => simp [key, mended, strictEq, Symbol.key]
    | _ => cases hv'
  | symbol s =>
    cases v' with
    | string u => simp [key, mended, strictEq, Symbol.key]
    | symbol s' => simp [key, mended, strictEq, Symbol.key]
    | _ => cases hv'
  | _ => cases hv

end Value

theorem Act.toPropertyKey_apply {v : Value} (hv : v.isStringOrSymbol = true) (env : Env σ) (w : World σ) :
    toPropertyKey v env w = .ok v.key w := by
  cases v with
  | string t =>
    show Result.ok (PropertyKey.text (Text.ofString t.lossy).lossy) w = _
    rw [Text.lossy_ofString]
    rfl
  | symbol s => rfl
  | _ => cases hv

/-! ## Numbering symbols -/

theorem Machine.Step.nextSymbol_le {m m' : Machine} (h : Machine.Step R m m') : m.nextSymbol ≤ m'.nextSymbol := by
  cases h with
  | symbol => exact Nat.le_succ _
  | _ => exact Nat.le_refl _

theorem Machine.Run.nextSymbol_le {m m' : Machine} (h : Machine.Run R m m') : m.nextSymbol ≤ m'.nextSymbol := by
  induction h with
  | refl => exact Nat.le_refl _
  | tail _ hs ih => exact Nat.le_trans ih hs.nextSymbol_le

theorem WellKnown.id_lt_firstUser (a : WellKnown) : a.id < Symbol.firstUser := by cases a <;> decide

theorem WellKnown.key_inj {a b : WellKnown} (h : (a : PropertyKey) = b) : a = b := by
  cases a <;> cases b <;> first | rfl | cases h

/-! ## Creating a property -/

theorem Elements.define?_own_ne {e e' : Elements} {i j : Nat} {d : Descriptor} (h : e.define? (.index i) d = some e')
    (hij : j ≠ i) : e'.own? (.index j) = e.own? (.index j) := by
  simp only [define?, defineElement?] at h
  split at h
  · cases h
  · cases h
    simp only [own?, get?_set_ne _ _ hij]

/-- A definition changes no other property, but the length of an array with its elements, and
    the elements with its length. -/
theorem Object.define?_own_ne {obj obj' : Object} {k k' : PropertyKey} {d : Descriptor}
    (h : obj.define? k d = some obj') (hne : k' ≠ k) :
    obj'.own? k' = obj.own? k' ∨ (obj.StoresAt k ∧ k' = "length") ∨ (k = "length" ∧ obj.StoresAt k') := by
  rcases define?_cases h with ⟨e, e', x, ha, hx, he, rfl⟩ | ⟨t, x, c, -, -, -, -, rfl⟩ | ⟨-, -, t, ht, rfl⟩
  · have array : obj.kind.isArray = true := by rw [ha]; rfl
    cases hx' : k'.exotic? with
    | none =>
      left
      simp [own?, exotic?, ha, hx']
    | some x' =>
      cases x with
      | length =>
        have length : k = "length" := PropertyKey.exotic?_inj hx rfl
        cases x' with
        | length => exact absurd (PropertyKey.exotic?_inj hx' hx) hne
        | index j => exact Or.inr (Or.inr ⟨length, array, j, hx'⟩)
      | index i =>
        cases x' with
        | length => exact Or.inr (Or.inl ⟨⟨array, i, hx⟩, PropertyKey.exotic?_inj hx' rfl⟩)
        | index j =>
          have hij : j ≠ i := by
            rintro rfl
            exact hne (PropertyKey.exotic?_inj hx' hx)
          left
          simp [own?, exotic?, ha, hx', Elements.define?_own_ne he hij]
  · exact Or.inl rfl
  · left
    rcases PropertyTable.define?_cases ht with ⟨c, -, -, rfl⟩ | ⟨-, -, rfl⟩
    · simp only [own?, exotic?, PropertyTable.get?_insert, if_neg hne]
    · simp only [own?, exotic?, PropertyTable.get?_insert, if_neg hne]

theorem Object.own?_length {obj : Object} (h : obj.kind.isArray = true) : obj.own? "length" ≠ none := by
  cases hk : obj.kind with
  | array e => rw [own?_array_length hk]; exact nofun
  | _ => rw [hk] at h; cases h

namespace Store

theorem isArray_own?_length {s : Store} {p : ObjectId} (h : s.isArray (.object p) = true) :
    s.own? p "length" ≠ none := by
  cases hg : s.get? p with
  | none => simp [isArray, Value.object?, hg] at h
  | some obj =>
    have ha : obj.kind.isArray = true := by simpa [isArray, Value.object?, hg] using h
    rw [own?, hg]
    exact Object.own?_length ha

theorem define?_own_ne {s s' : Store} {o : ObjectId} {k k' : PropertyKey} {d : Descriptor}
    (h : s.define? o k d = some s') (hk : s.own? o k = none) (hne : k' ≠ k) (p : ObjectId) :
    s'.own? p k' = s.own? p k' ∨ (k' = "length" ∧ s.isArray (.object p) = true) := by
  obtain ⟨obj, obj', hg, hd, rfl⟩ := define?_eq_some.mp h
  by_cases hp : p = o
  · subst hp
    have hk' : obj.own? k = none := by simpa [own?, hg] using hk
    rcases Object.define?_own_ne hd hne with heq | ⟨⟨ha, -⟩, hl⟩ | ⟨rfl, ha, -⟩
    · left
      simp [own?, get?_modify, hg, heq]
    · exact Or.inr ⟨hl, by simp [isArray, Value.object?, hg, ha]⟩
    · exact absurd hk' (Object.own?_length ha)
  · left
    simp [own?, get?_modify, hp]

theorem define?_protoOf {s s' : Store} {o : ObjectId} {k : PropertyKey} {d : Descriptor}
    (h : s.define? o k d = some s') (p : ObjectId) : s'.protoOf p = s.protoOf p := by
  obtain ⟨obj, obj', hg, hd, rfl⟩ := define?_eq_some.mp h
  by_cases hp : p = o
  · subst hp
    simp [protoOf, get?_modify, hg, (Object.define?_frame hd).1]
  · simp [protoOf, get?_modify, hp]

/-- A key that no object of a chain gets is found nowhere on it. -/
theorem find_absent_of_own {s s' : Store} {k : PropertyKey} (hown : ∀ p, s.own? p k = none → s'.own? p k = none)
    (hproto : ∀ p, s'.protoOf p = s.protoOf p) (limit : Nat) (p : ObjectId) (h : s.find k limit p = .absent) :
    s'.find k limit p = .absent := by
  induction limit generalizing p with
  | zero =>
    unfold find at h ⊢
    cases hp : s.own? p k with
    | some d => rw [hp] at h; cases h
    | none =>
      rw [hown p hp, hproto p]
      cases hq : s.protoOf p with
      | none => rfl
      | some q => rw [hp, hq] at h; cases h
  | succ n ih =>
    unfold find at h ⊢
    cases hp : s.own? p k with
    | some d => rw [hp] at h; cases h
    | none =>
      rw [hown p hp, hproto p]
      cases hq : s.protoOf p with
      | none => rfl
      | some q =>
        rw [hp, hq] at h
        exact ih q h

end Store

namespace Act

/-- The operations that may give an object a property at `k` that it does not own in `s`. -/
inductive Creates (s : Store) (k : PropertyKey) : Act σ Bool → Prop
  | define {o : ObjectId} (d : Descriptor) : s.own? o k = none → Creates s k (define o k d)
  | assign {o : ObjectId} (v : Value) : s.own? o k = none → Creates s k (assign (.object o) k v)

theorem Creates.store_cases {w : World σ} {k : PropertyKey} {x : Act σ Bool} (h : Creates w.machine.store k x)
    (env : Env σ) :
    (x env w).world.machine.store = w.machine.store ∨
    ∃ o d, w.machine.store.own? o k = none ∧
      w.machine.store.define? o k d = some (x env w).world.machine.store := by
  obtain ⟨o, d, hk, hx⟩ : ∃ o d, w.machine.store.own? o k = none ∧ x env w = Act.define o k d env w := by
    cases h with
    | define d hk => exact ⟨_, d, hk, rfl⟩
    | assign v hk =>
      refine ⟨_, .plain v, hk, ?_⟩
      simp only [Act.assign, createData, getOwn, bind_apply, store_apply, pure_apply, hk]
  rw [hx, define_apply]
  cases hs : w.machine.store.define? o k d with
  | none => exact Or.inl rfl
  | some s => exact Or.inr ⟨o, d, hk, hs⟩

/-! ## Two keys -/

/-- What is true of two strings or symbols as property keys. -/
structure KeyLaw (env : Env σ) (w : World σ) (v v' : Value) (k k' : PropertyKey) : Prop where
  converts : toPropertyKey v env w = .ok k w ∧ toPropertyKey v' env w = .ok k' w
  equal : k = k' ↔ v.mended.strictEq v'.mended = true
  equal_of_wellFormed : v.WellFormed → v'.WellFormed → (k = k' ↔ v.strictEq v' = true)
  /-- What is created at the one key changes nothing at the other; only an array counts its elements. -/
  apart : k ≠ k' → ∀ x, Creates w.machine.store k x → ∀ p,
    (x env w).world.machine.store.own? p k' = w.machine.store.own? p k' ∨
      (k' = "length" ∧ w.machine.store.isArray (.object p) = true)
  /-- So it is not visible there, on the object or on any below it. -/
  unseen : k ≠ k' → ∀ x, Creates w.machine.store k x → ∀ limit p, w.machine.store.find k' limit p = .absent →
    (x env w).world.machine.store.find k' limit p = .absent

end Act

/-- What is true of the symbols that are made from the world `w` on: each has a key of its own. -/
structure World.SymbolLaw (R : Rules) (w : World σ) : Prop where
  wellKnown : ∀ a b : WellKnown, (a : PropertyKey) = b → a = b
  made : ∀ (env : Env σ) description, ∃ s w₁, Act.newSymbol description env w = .ok (.symbol s) w₁ ∧
    (∀ a : WellKnown, s.key ≠ a) ∧
    ∀ w₂ : World σ, Machine.Run R w₁.machine w₂.machine → ∀ (env₂ : Env σ) description₂, ∃ s₂ w₃,
      Act.newSymbol description₂ env₂ w₂ = .ok (.symbol s₂) w₃ ∧ s₂.key ≠ s.key

theorem Act.keyLaw (env : Env σ) (w : World σ) {v v' : Value} (hv : v.isStringOrSymbol = true)
    (hv' : v'.isStringOrSymbol = true) : KeyLaw env w v v' v.key v'.key where
  converts := ⟨toPropertyKey_apply hv env w, toPropertyKey_apply hv' env w⟩
  equal := Value.key_eq_iff hv hv'
  equal_of_wellFormed h h' := by
    rw [Value.key_eq_iff hv hv', h.mended, h'.mended]
  apart hne x hx p := by
    rcases hx.store_cases env with heq | ⟨o, d, hk, hd⟩
    · left
      rw [heq]
    · exact Store.define?_own_ne hd hk hne.symm p
  unseen hne x hx limit p hp := by
    rcases hx.store_cases env with heq | ⟨o, d, hk, hd⟩
    · rw [heq]
      exact hp
    · refine Store.find_absent_of_own (fun q hq => ?_) (Store.define?_protoOf hd) limit p hp
      rcases Store.define?_own_ne hd hk hne.symm q with heq | ⟨hl, ha⟩
      · rw [heq]
        exact hq
      · rw [hl] at hq
        exact absurd hq (Store.isArray_own?_length ha)

theorem Machine.Reachable.symbolLaw {w : World σ} (hw : w.machine.Reachable R) : w.SymbolLaw R where
  wellKnown a b := WellKnown.key_inj
  made env description := by
    refine ⟨⟨w.machine.nextSymbol, description.map Text.ofString⟩,
      { w with machine := { w.machine with nextSymbol := w.machine.nextSymbol + 1 } }, rfl, fun a ha => ?_, ?_⟩
    · have hfirst : Symbol.firstUser ≤ w.machine.nextSymbol := Machine.Run.nextSymbol_le hw
      have hlt := a.id_lt_firstUser
      have heq : w.machine.nextSymbol = a.id := PropertyKey.symbol.inj ha
      omega
    · intro w₂ hrun env₂ description₂
      refine ⟨⟨w₂.machine.nextSymbol, description₂.map Text.ofString⟩, _, rfl, fun h => ?_⟩
      have hlt : w.machine.nextSymbol + 1 ≤ w₂.machine.nextSymbol := hrun.nextSymbol_le
      have heq : w₂.machine.nextSymbol = w.machine.nextSymbol := PropertyKey.symbol.inj h
      omega

/-- Strings have one key exactly if they are one string once mended, symbols exactly if
    they are one symbol, and a string and a symbol never; every symbol of a run has a
    number of its own; and different keys never show each other's properties. -/
theorem keys_are_mended_strings_and_symbols (env : Env σ) {w : World σ} (hw : w.machine.Reachable R) :
    w.SymbolLaw R ∧ ∀ v v' : Value, v.isStringOrSymbol = true → v'.isStringOrSymbol = true →
      ∃ k k', Act.KeyLaw env w v v' k k' :=
  ⟨hw.symbolLaw, fun _ _ hv hv' => ⟨_, _, Act.keyLaw env w hv hv'⟩⟩

/-- A string that spells a symbol out, and the symbol. -/
theorem a_string_is_not_the_symbol_it_spells :
    let w : World Unit := ⟨{}, ()⟩
    w.SymbolLaw .checked ∧ ∃ k k',
      Act.KeyLaw (.ofHost idle {} ⟨64, 64⟩) w (.ofString "Symbol.iterator") (.symbol WellKnown.iterator.symbol) k k' := by
  intro w
  have first : w.machine.Reachable .checked := .refl
  obtain ⟨symbols, keys⟩ := keys_are_mended_strings_and_symbols (.ofHost idle {} ⟨64, 64⟩) first
  exact ⟨symbols, keys _ _ rfl rfl⟩

/-- A surrogate by itself and U+FFFD are two strings with one key, so a property created at the one is seen at the other. -/
theorem two_strings_with_one_key :
    let v : Value := .string ⟨[0xFFFD]⟩
    let v' : Value := .string ⟨[0xD800]⟩
    let w : World Unit := ⟨{}, ()⟩
    let o := Intrinsic.objectPrototype.object
    let x : Act Unit Bool := do
      let _ ← Act.createData o (← Act.toPropertyKey v) .null
      Act.hasOwn o (← Act.toPropertyKey v')
    v.strictEq v' = false ∧ w.machine.store.own? o "\uFFFD" = none ∧
      ∃ w', x.run idle {} ⟨64, 64⟩ w = .ok true w' := by
  intro v v' w o x
  exact ⟨by decide, by decide, _, rfl⟩

end EcmaObjects
