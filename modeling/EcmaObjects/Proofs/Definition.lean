/-
  EcmaObjects.Proofs.Definition — what one accepted definition does to an object.

  A table changes at the defined key only (`PropertyTable.get?_insert`), and an object by
  one of three ways (`Object.define?_cases`): an array's elements answer its exotic
  keys, a wrapped string confirms its own properties and stays as it is, and every other
  key goes to the property table.
-/

import EcmaObjects.Object

namespace EcmaObjects

/-! ## Property tables -/

namespace PropertyTable

theorem lookup_cons (k : PropertyKey) (e : PropertyKey × Descriptor) (rest : List (PropertyKey × Descriptor)) :
    (e :: rest).lookup k = if k = e.1 then some e.2 else rest.lookup k := by
  obtain ⟨k', d⟩ := e
  rw [List.lookup_cons]
  by_cases h : k = k'
  · simp [h]
  · have hb : (k == k') = false := by simpa using h
    simp [h, hb]

theorem get?_insert (t : PropertyTable) (k : PropertyKey) (d : Descriptor) (k' : PropertyKey) :
    (t.insert k d).get? k' = if k' = k then some d else t.get? k' := by
  show (put k d t.entries).lookup k' = if k' = k then some d else t.entries.lookup k'
  induction t.entries with
  | nil => rw [put, lookup_cons]
  | cons e rest ih =>
    by_cases he : e.1 = k
    · rw [put, if_pos he, lookup_cons, lookup_cons, he]
      split <;> rfl
    · rw [put, if_neg he, lookup_cons, lookup_cons, ih]
      by_cases h : k' = e.1
      · rw [if_pos h, if_pos h, if_neg (h ▸ he)]
      · rw [if_neg h, if_neg h]

theorem define?_cases {t t' : PropertyTable} {extensible : Bool} {k : PropertyKey} {d : Descriptor}
    (h : t.define? extensible k d = some t') :
    (∃ c, t.get? k = some c ∧ c.admits d = true ∧ t' = t.insert k (c.merge d)) ∨
      (t.get? k = none ∧ extensible = true ∧ t' = t.insert k d.complete) := by
  unfold define? at h
  cases hg : t.get? k with
  | some c =>
    simp only [hg] at h
    by_cases ha : c.admits d = true
    · simp only [ha, if_true, Option.some.injEq] at h; exact Or.inl ⟨c, rfl, ha, h.symm⟩
    · simp only [ha, Bool.false_eq_true, if_false] at h; cases h
  | none =>
    simp only [hg] at h
    cases extensible with
    | true => exact Or.inr ⟨rfl, rfl, by simpa using h.symm⟩
    | false => cases h

end PropertyTable

/-! ## Elements -/

namespace Elements

theorem getElem?_absorb (n : Nat) (dense : Array Value) (sparse : List (Nat × Value)) {i : Nat} (h : i < dense.size) :
    (absorb n dense sparse).1[i]? = dense[i]? := by
  induction n generalizing dense sparse with
  | zero => rfl
  | succ n ih =>
    unfold absorb
    split
    · rw [ih _ _ (by rw [Array.size_push]; omega), Array.getElem?_push_lt h, Array.getElem?_eq_getElem h]
    · rfl

/-- What is written at an index is read there. -/
theorem get?_set_self (e : Elements) (i : Nat) (v : Value) : (e.set i v).get? i = some v := by
  unfold set get?
  by_cases h1 : i < e.dense.size
  · simp [h1]
  by_cases h2 : i = e.dense.size
  · subst h2
    simp only [Nat.lt_irrefl, if_false, if_true]
    rw [getElem?_absorb _ _ _ (by simp), Array.getElem?_push_size]
    rfl
  · simp [h1, h2]

theorem lookup_filter (sparse : List (Nat × Value)) (p : Nat → Bool) (j : Nat) :
    (sparse.filter (p ·.1)).lookup j = if p j then sparse.lookup j else none := by
  induction sparse with
  | nil => simp
  | cons e rest ih =>
    obtain ⟨i, v⟩ := e
    rw [List.filter_cons]
    by_cases hj : j = i
    · subst hj
      by_cases hp : p j = true
      · simp [hp]
      · simp [hp, ih]
    · have hb : (j == i) = false := by simpa using hj
      by_cases hp : p i = true
      · simp [hp, ih, List.lookup_cons, hb]
      · simp [hp, ih, List.lookup_cons, hb]

theorem lookup_without (sparse : List (Nat × Value)) {i j : Nat} (h : j ≠ i) :
    (without i sparse).lookup j = sparse.lookup j := by
  rw [without, lookup_filter sparse (· != i), if_pos (by simpa using h)]

/-- An element pushed where a stray was is the stray, the other elements stay. -/
theorem get?_push (dense : Array Value) (sparse : List (Nat × Value)) (v : Value) {j : Nat} (h : j ≠ dense.size) :
    ((dense.push v)[j]? <|> (without dense.size sparse).lookup j) = (dense[j]? <|> sparse.lookup j) := by
  rw [Array.getElem?_push, if_neg h, lookup_without sparse h]

/-- Moving strays into the dense run moves no element to another index. -/
theorem get?_absorb (n : Nat) (dense : Array Value) (sparse : List (Nat × Value)) (j : Nat) :
    ((absorb n dense sparse).1[j]? <|> (absorb n dense sparse).2.lookup j) = (dense[j]? <|> sparse.lookup j) := by
  induction n generalizing dense sparse with
  | zero => rfl
  | succ n ih =>
    unfold absorb
    split
    · rename_i v hv
      rw [ih]
      by_cases hj : j = dense.size
      · rw [hj, Array.getElem?_push_size, Array.getElem?_size, hv]
        rfl
      · exact get?_push dense sparse v hj
    · rfl

/-- Writing at an index changes no other element. -/
theorem get?_set_ne (e : Elements) {i j : Nat} (v : Value) (h : j ≠ i) : (e.set i v).get? j = e.get? j := by
  unfold set
  by_cases h1 : i < e.dense.size
  · simp [h1, get?, Ne.symm h]
  by_cases h2 : i = e.dense.size
  · subst h2
    simp only [Nat.lt_irrefl, if_false, if_true, get?, get?_absorb]
    rw [Array.getElem?_push, if_neg h]
  · have hb : (j == i) = false := by simpa using h
    simp [h1, h2, get?, List.lookup_cons, hb, lookup_without _ h]

/-- Setting the length drops the elements from there on and changes no other. -/
theorem get?_setLength (e : Elements) (n j : Nat) : (e.setLength n).get? j = if j < n then e.get? j else none := by
  have hdense : (e.dense.take n)[j]? = if j < n then e.dense[j]? else none := by
    rw [Array.take_eq_extract, Array.getElem?_extract]
    split <;> split <;> simp <;> omega
  simp only [setLength, get?, hdense, lookup_filter e.sparse (decide <| · < n), decide_eq_true_iff]
  split <;> rfl

end Elements

/-! ## Objects -/

namespace Object

/-- The ways in which an object accepts a definition. -/
theorem define?_cases {obj obj' : Object} {k : PropertyKey} {d : Descriptor} (h : obj.define? k d = some obj') :
    (∃ e e' x, obj.kind = .array e ∧ k.exotic? = some x ∧ e.define? x d = some e' ∧
      obj' = { obj with kind := .array e' }) ∨
    (∃ t x c, obj.kind = .string (some t) ∧ k.exotic? = some x ∧ t.own? x = some c ∧ c.admits d = true ∧ obj' = obj) ∨
    ((obj.kind.isArray = true → k.exotic? = none) ∧ obj.exotic? k = none ∧
      ∃ t, obj.properties.define? obj.extensible k d = some t ∧ obj' = { obj with properties := t }) := by
  have ordinary (h : obj.defineOrdinary? k d = some obj') :
      ∃ t, obj.properties.define? obj.extensible k d = some t ∧ obj' = { obj with properties := t } := by
    obtain ⟨t, ht, rfl⟩ := Option.map_eq_some_iff.mp h
    exact ⟨t, ht, rfl⟩
  unfold define? at h
  split at h
  · rename_i e x hk hx
    obtain ⟨e', he, rfl⟩ := Option.map_eq_some_iff.mp h
    exact Or.inl ⟨e, e', x, hk, hx, he, rfl⟩
  · rename_i t x hk hx
    split at h
    · rename_i c hc
      by_cases ha : c.admits d = true
      · simp only [ha, if_true, Option.some.injEq] at h; exact Or.inr (Or.inl ⟨t, x, c, hk, hx, hc, ha, h.symm⟩)
      · simp only [ha, Bool.false_eq_true, if_false] at h; cases h
    · rename_i hc
      exact Or.inr (Or.inr ⟨by simp [hk, Kind.isArray], by simp [exotic?, hk, hx, hc], ordinary h⟩)
  · rename_i ha hs
    refine Or.inr (Or.inr ⟨?_, ?_, ordinary h⟩)
    · intro harr
      cases hk : obj.kind with
      | array e =>
        cases hx : k.exotic? with
        | none => rfl
        | some x => exact absurd hx (ha e x hk)
      | _ => simp [hk, Kind.isArray] at harr
    · unfold exotic?
      split
      · rename_i e hk
        cases hx : k.exotic? with
        | none => rfl
        | some x => exact absurd hx (ha e x hk)
      · rename_i t hk
        cases hx : k.exotic? with
        | none => rfl
        | some x => exact absurd hx (hs t x hk)
      · rfl

/-- A definition leaves the prototype and the permission to grow, and an array an array. -/
theorem define?_frame {obj obj' : Object} {k : PropertyKey} {d : Descriptor} (h : obj.define? k d = some obj') :
    obj'.proto = obj.proto ∧ obj'.extensible = obj.extensible ∧ obj'.kind.isArray = obj.kind.isArray := by
  rcases define?_cases h with ⟨e, e', x, hk, -, -, rfl⟩ | ⟨t, x, c, -, -, -, -, rfl⟩ | ⟨-, -, t, -, rfl⟩
  · exact ⟨rfl, rfl, by rw [hk]; rfl⟩
  · exact ⟨rfl, rfl, rfl⟩
  · exact ⟨rfl, rfl, rfl⟩

/-- Nor does it touch what makes the object native. -/
theorem define?_native {obj obj' : Object} {k : PropertyKey} {d : Descriptor} (h : obj.define? k d = some obj') :
    obj'.function = obj.function ∧ obj'.iteration = obj.iteration := by
  rcases define?_cases h with ⟨e, e', x, -, -, -, rfl⟩ | ⟨t, x, c, -, -, -, -, rfl⟩ | ⟨-, -, t, -, rfl⟩
  · exact ⟨rfl, rfl⟩
  · exact ⟨rfl, rfl⟩
  · exact ⟨rfl, rfl⟩

/-- The length that an array shows. -/
theorem own?_array_length {obj : Object} {e : Elements} (ha : obj.kind = .array e) :
    obj.own? "length" = some e.lengthProperty := by
  rw [own?, exotic?, ha]
  rfl

theorem own?_eq_none {obj : Object} {k : PropertyKey} :
    obj.own? k = none ↔ obj.exotic? k = none ∧ obj.properties.get? k = none := by
  unfold own?
  cases obj.exotic? k <;> simp

end Object

end EcmaObjects
