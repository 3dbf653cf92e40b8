/-
  EcmaObjects.Proofs.Storage — the element storage is a map with a length.

  A storage is made from its values and then changed by writes: of an element at an array
  index, or of the length (`Elements.Write`). It keeps its elements in two places, and a
  write that fills the first gap moves strays from one to the other, round by round
  (`Elements.Drain`). Whatever has been written,
  - every stray lies past the dense run, with a gap before it, and below the length, no two
    at one index (`Elements.Tidy`, kept by each write: `Tidy.apply`);
  - the storage shows what a map with a length shows after the same writes
    (`Elements.cells_run`): at each index the last write there, unless the length was then
    set to the index or below it (`Elements.get?_run_iff`).
  `storage_law` puts this together, with the counts that the writes after it need:
  thirty-two bits hold every one of them.
-/

import EcmaObjects.Proofs.Array
import Mathlib.Logic.Relation

namespace EcmaObjects.Elements

open Relation (ReflTransGen)

/-! ## Writes -/

inductive Write where
  | set (i : ℕ) (v : Value)
  | setLength (n : ℕ)
  deriving DecidableEq

/-- Elements are written at array indices, and lengths are lengths of arrays. -/
def Write.Legal : Write → Prop
  | .set i _ => i < maxArrayLength
  | .setLength n => n ≤ maxArrayLength

instance : DecidablePred Write.Legal
  | .set i _ => inferInstanceAs (Decidable (i < maxArrayLength))
  | .setLength n => inferInstanceAs (Decidable (n ≤ maxArrayLength))

/-- The write leaves alone what is stored at the index. -/
def Write.Spares (i : ℕ) : Write → Prop
  | .set j _ => j ≠ i
  | .setLength n => i < n

def apply (e : Elements) : Write → Elements
  | .set i v => e.set i v
  | .setLength n => e.setLength n

def run (e : Elements) (ops : List Write) : Elements := ops.foldl apply e

theorem run_cons (e : Elements) (op : Write) (ops : List Write) : e.run (op :: ops) = (e.apply op).run ops := rfl

/-! ## The map with a length -/

structure Cells where
  value : ℕ → Option Value
  length : ℕ

namespace Cells

def ofValues (values : Array Value) : Cells := ⟨fun i => values[i]?, values.size⟩

def apply (c : Cells) : Write → Cells
  | .set i v => ⟨fun j => if j = i then some v else c.value j, max c.length (i + 1)⟩
  | .setLength n => ⟨fun j => if j < n then c.value j else none, n⟩

def run (c : Cells) (ops : List Write) : Cells := ops.foldl apply c

end Cells

/-- What a storage shows. -/
def cells (e : Elements) : Cells := ⟨e.get?, e.length⟩

theorem cells_ofValues {values : Array Value} (h : values.size ≤ maxArrayLength) :
    (ofValues values).cells = Cells.ofValues values := by
  have shown : (ofValues values).get? = fun i => values[i]? := by
    funext i
    simp [ofValues, get?]
  have length : (ofValues values).length = values.size := Nat.min_eq_left h
  rw [cells, shown, length, Cells.ofValues]

theorem cells_apply (e : Elements) (op : Write) : (e.apply op).cells = e.cells.apply op := by
  cases op with
  | set i v =>
    have shown : (e.set i v).get? = fun j => if j = i then some v else e.get? j := by
      funext j
      by_cases h : j = i
      · rw [h, get?_set_self, if_pos rfl]
      · rw [get?_set_ne e v h, if_neg h]
    show Cells.mk (e.set i v).get? (e.set i v).length = _
    rw [shown, length_set]
    rfl
  | setLength n =>
    have shown : (e.setLength n).get? = fun j => if j < n then e.get? j else none := by
      funext j
      exact get?_setLength e n j
    show Cells.mk (e.setLength n).get? n = _
    rw [shown]
    rfl

theorem cells_run (e : Elements) (ops : List Write) : (e.run ops).cells = e.cells.run ops := by
  induction ops generalizing e with
  | nil => rfl
  | cons op ops ih =>
    rw [run_cons, ih, cells_apply]
    rfl

/-! ## The last write at an index -/

/-- A write of the value at the index that every later write leaves alone. -/
def Stands (i : ℕ) (v : Value) (ops : List Write) : Prop :=
  ∃ before after, ops = before ++ .set i v :: after ∧ ∀ op ∈ after, op.Spares i

theorem stands_cons_iff {i : ℕ} {v : Value} {op : Write} {ops : List Write} :
    Stands i v (op :: ops) ↔ (op = .set i v ∧ ∀ op ∈ ops, op.Spares i) ∨ Stands i v ops := by
  constructor
  · intro ⟨before, after, e, spared⟩
    cases before with
    | nil =>
      obtain ⟨rfl, rfl⟩ := List.cons.inj e
      exact Or.inl ⟨rfl, spared⟩
    | cons first before =>
      obtain ⟨-, tail⟩ := List.cons.inj e
      exact Or.inr ⟨before, after, tail, spared⟩
  · intro h
    rcases h with ⟨rfl, spared⟩ | ⟨before, after, rfl, spared⟩
    · exact ⟨[], ops, rfl, spared⟩
    · exact ⟨op :: before, after, rfl, spared⟩

theorem get?_apply_iff {e : Elements} {op : Write} {i : ℕ} {v : Value} :
    (e.apply op).get? i = some v ↔ op = .set i v ∨ (op.Spares i ∧ e.get? i = some v) := by
  cases op with
  | set j u =>
    show (e.set j u).get? i = some v ↔ _
    by_cases h : i = j
    · subst h
      simp [get?_set_self, Write.Spares]
    · rw [get?_set_ne e u h]
      simp [Write.Spares, Ne.symm h]
  | setLength n =>
    show (e.setLength n).get? i = some v ↔ _
    rw [get?_setLength]
    simp [Write.Spares]

theorem get?_run_iff {e : Elements} {ops : List Write} {i : ℕ} {v : Value} :
    (e.run ops).get? i = some v ↔ Stands i v ops ∨ ((∀ op ∈ ops, op.Spares i) ∧ e.get? i = some v) := by
  induction ops generalizing e with
  | nil => simp [run, Stands]
  | cons op ops ih =>
    rw [run_cons, ih, get?_apply_iff, stands_cons_iff, List.forall_mem_cons]
    tauto

/-! ## Rounds of a drain -/

/-- One round: the stray at the next index becomes the last dense element. -/
inductive Drain : Array Value × List (ℕ × Value) → Array Value × List (ℕ × Value) → Prop
  | move {dense : Array Value} {sparse : List (ℕ × Value)} {v : Value} (h : sparse.lookup dense.size = some v) :
      Drain (dense, sparse) (dense.push v, without dense.size sparse)

theorem mem_of_lookup {sparse : List (ℕ × Value)} {i : ℕ} {v : Value} (h : sparse.lookup i = some v) :
    (i, v) ∈ sparse := by
  obtain ⟨before, after, rfl, -⟩ := List.lookup_eq_some_iff.mp h
  simp

theorem mem_without_iff {sparse : List (ℕ × Value)} {i : ℕ} {p : ℕ × Value} :
    p ∈ without i sparse ↔ p ∈ sparse ∧ p.1 ≠ i := by
  simp [without]

theorem length_without_lt {sparse : List (ℕ × Value)} {i : ℕ} {v : Value} (h : sparse.lookup i = some v) :
    (without i sparse).length < sparse.length :=
  List.length_filter_lt_length_iff_exists.mpr ⟨(i, v), mem_of_lookup h, by simp⟩

theorem drains_absorb (n : ℕ) (dense : Array Value) (sparse : List (ℕ × Value)) :
    ReflTransGen Drain (dense, sparse) (absorb n dense sparse) := by
  induction n generalizing dense sparse with
  | zero => exact .refl
  | succ n ih =>
    unfold absorb
    split
    · rename_i v h
      exact .head (.move h) (ih _ _)
    · exact .refl

/-- As many rounds as there are strays suffice. -/
theorem absorb_done {n : ℕ} {sparse : List (ℕ × Value)} (h : sparse.length ≤ n) (dense : Array Value) :
    (absorb n dense sparse).2.lookup (absorb n dense sparse).1.size = none := by
  induction n generalizing dense sparse with
  | zero =>
    obtain rfl := List.length_eq_zero_iff.mp (Nat.le_zero.mp h)
    rfl
  | succ n ih =>
    unfold absorb
    split
    · rename_i v found
      have shorter := length_without_lt found
      exact ih (by omega) _
    · assumption

/-- What holds between the rounds: no stray lies below the dense run's end, and all is
    below the length. -/
structure Draining (length : ℕ) (p : Array Value × List (ℕ × Value)) : Prop where
  size_le : p.1.size ≤ length
  strays : ∀ q ∈ p.2, p.1.size ≤ q.1 ∧ q.1 < length
  apart : (p.2.map Prod.fst).Nodup

theorem nodup_filter {sparse : List (ℕ × Value)} (h : (sparse.map Prod.fst).Nodup) (keep : ℕ × Value → Bool) :
    ((sparse.filter keep).map Prod.fst).Nodup :=
  h.sublist (List.filter_sublist.map Prod.fst)

theorem Draining.step {length : ℕ} {p q : Array Value × List (ℕ × Value)} (h : Draining length p)
    (hs : Drain p q) : Draining length q := by
  cases hs with
  | @move dense sparse v found =>
    have next := (h.strays _ (mem_of_lookup found)).2
    refine ⟨?_, ?_, nodup_filter h.apart _⟩
    · show (dense.push v).size ≤ length
      rw [Array.size_push]
      exact next
    · intro r hr
      obtain ⟨stray, other⟩ := mem_without_iff.mp hr
      have bounds := h.strays r stray
      show (dense.push v).size ≤ r.1 ∧ r.1 < length
      rw [Array.size_push]
      have le : dense.size ≤ r.1 := bounds.1
      omega

theorem Draining.steps {length : ℕ} {p q : Array Value × List (ℕ × Value)} (h : Draining length p)
    (hs : ReflTransGen Drain p q) : Draining length q := by
  induction hs with
  | refl => exact h
  | tail _ hs ih => exact ih.step hs

/-! ## Tidy storages -/

structure Tidy (e : Elements) : Prop where
  strays : ∀ p ∈ e.sparse, e.dense.size < p.1 ∧ p.1 < e.length
  apart : (e.sparse.map Prod.fst).Nodup
  size_le : e.dense.size ≤ e.length
  length_le : e.length ≤ maxArrayLength

theorem tidy_ofValues {values : Array Value} (h : values.size ≤ maxArrayLength) : (ofValues values).Tidy := by
  have length : (ofValues values).length = values.size := Nat.min_eq_left h
  refine ⟨by simp [ofValues], List.nodup_nil, ?_, ?_⟩
  · rw [length]
    exact Nat.le_refl _
  · rw [length]
    exact h

/-- The drain after the first gap is filled starts well. -/
theorem Tidy.draining {e : Elements} (h : e.Tidy) (v : Value) :
    Draining (max e.length (e.dense.size + 1)) (e.dense.push v, e.sparse) := by
  refine ⟨?_, ?_, h.apart⟩
  · show (e.dense.push v).size ≤ _
    rw [Array.size_push]
    omega
  · intro q hq
    have bounds := h.strays q hq
    show (e.dense.push v).size ≤ q.1 ∧ _
    rw [Array.size_push]
    omega

theorem Tidy.set {e : Elements} (h : e.Tidy) {i : ℕ} (hi : i < maxArrayLength) (v : Value) : (e.set i v).Tidy := by
  have length_le : (e.set i v).length ≤ maxArrayLength := by
    have le := h.length_le
    rw [length_set]
    omega
  have size_le := h.size_le
  by_cases inside : i < e.dense.size
  · have written : e.set i v = { e with dense := e.dense.setIfInBounds i v, length := max e.length (i + 1) } := by
      rw [Elements.set, if_pos inside]
    rw [written] at length_le ⊢
    refine ⟨?_, h.apart, ?_, length_le⟩
    · intro p hp
      have bounds := h.strays p hp
      simp only [Array.size_setIfInBounds]
      omega
    · simp only [Array.size_setIfInBounds]
      omega
  by_cases next : i = e.dense.size
  · subst next
    have done := (h.draining v).steps (drains_absorb e.sparse.length _ _)
    have no_next := absorb_done (Nat.le_refl e.sparse.length) (e.dense.push v)
    have written : e.set e.dense.size v =
        ⟨(absorb e.sparse.length (e.dense.push v) e.sparse).1, (absorb e.sparse.length (e.dense.push v) e.sparse).2,
          max e.length (e.dense.size + 1)⟩ := by
      rw [Elements.set, if_neg inside, if_pos rfl]
    rw [written] at length_le ⊢
    refine ⟨?_, done.apart, done.size_le, length_le⟩
    intro p hp
    have bounds := done.strays p hp
    have other : p.1 ≠ (absorb e.sparse.length (e.dense.push v) e.sparse).1.size := by
      intro e'
      have none_there := List.lookup_eq_none_iff.mp no_next p hp
      simp [e'] at none_there
    exact ⟨Nat.lt_of_le_of_ne bounds.1 (Ne.symm other), bounds.2⟩
  · have written : e.set i v =
        { e with sparse := (i, v) :: without i e.sparse, length := max e.length (i + 1) } := by
      rw [Elements.set, if_neg inside, if_neg next]
    rw [written] at length_le ⊢
    refine ⟨?_, ?_, ?_, length_le⟩
    · intro p hp
      rcases List.mem_cons.mp hp with rfl | hp
      · show e.dense.size < i ∧ i < max e.length (i + 1)
        omega
      · have bounds := h.strays p (mem_without_iff.mp hp).1
        show e.dense.size < p.1 ∧ p.1 < max e.length (i + 1)
        omega
    · refine List.nodup_cons.mpr ⟨?_, nodup_filter h.apart _⟩
      intro twice
      obtain ⟨p, hp, e'⟩ := List.mem_map.mp twice
      exact (mem_without_iff.mp hp).2 e'
    · show e.dense.size ≤ max e.length (i + 1)
      omega

theorem Tidy.setLength {e : Elements} (h : e.Tidy) {n : ℕ} (hn : n ≤ maxArrayLength) : (e.setLength n).Tidy := by
  have size : (e.setLength n).dense.size = min n e.dense.size := by simp [Elements.setLength]
  refine ⟨?_, nodup_filter h.apart _, ?_, hn⟩
  · intro p hp
    obtain ⟨stray, below⟩ := List.mem_filter.mp hp
    have bounds := h.strays p stray
    refine ⟨by omega, ?_⟩
    exact of_decide_eq_true below
  · show (e.setLength n).dense.size ≤ n
    omega

theorem Tidy.apply {e : Elements} (h : e.Tidy) {op : Write} (legal : op.Legal) : (e.apply op).Tidy := by
  cases op with
  | set i v => exact h.set legal v
  | setLength n => exact h.setLength legal

theorem Tidy.run {e : Elements} (h : e.Tidy) {ops : List Write} (legal : ∀ op ∈ ops, op.Legal) : (e.run ops).Tidy := by
  induction ops generalizing e with
  | nil => exact h
  | cons op ops ih =>
    obtain ⟨first, rest⟩ := List.forall_mem_cons.mp legal
    exact ih (h.apply first) rest

/-! ## The law of the storage -/

theorem toNat_toUInt32 {n : ℕ} (h : n ≤ maxArrayLength) : n.toUInt32.toNat = n := by
  have lt : n < UInt32.size := Nat.lt_succ_of_le h
  rw [Nat.toUInt32_eq, UInt32.toNat_ofNat_of_lt' lt]

theorem toNat_toUInt32_add_one {i : ℕ} (h : i < maxArrayLength) : (i.toUInt32 + 1).toNat = i + 1 := by
  have small := toNat_toUInt32 (Nat.le_of_lt h)
  unfold maxArrayLength at h
  rw [UInt32.toNat_add, small]
  show (i + 1) % 2 ^ 32 = i + 1
  omega

structure StorageLaw (values : Array Value) (ops : List Write) (e : Elements) : Prop where
  strays : ∀ p ∈ e.sparse, e.dense.size < p.1 ∧ p.1 < e.length
  apart : (e.sparse.map Prod.fst).Nodup
  size_le : e.dense.size ≤ e.length
  element {i : ℕ} {v : Value} :
    e.get? i = some v ↔ Stands i v ops ∨ ((∀ op ∈ ops, op.Spares i) ∧ values[i]? = some v)
  refines : e.cells = (Cells.ofValues values).run ops
  /-- The count that a write compares the length with. -/
  index_fits {i : ℕ} : i < maxArrayLength → (i.toUInt32 + 1).toNat = i + 1
  /-- The index that each round of a drain asks for. -/
  size_fits {v : Value} {p : Array Value × List (ℕ × Value)} : e.dense.size < maxArrayLength →
    ReflTransGen Drain (e.dense.push v, e.sparse) p → p.1.size.toUInt32.toNat = p.1.size
  /-- A write at the end of the dense run drains until no stray is next. -/
  drained {v : Value} : ∃ p, ReflTransGen Drain (e.dense.push v, e.sparse) p ∧ p.2.lookup p.1.size = none ∧
    e.set e.dense.size v = ⟨p.1, p.2, max e.length (e.dense.size + 1)⟩

theorem storage_law {values : Array Value} {ops : List Write} (fits : values.size ≤ maxArrayLength)
    (legal : ∀ op ∈ ops, op.Legal) : StorageLaw values ops ((ofValues values).run ops) := by
  have tidy := (tidy_ofValues fits).run legal
  have shown (i : ℕ) : (ofValues values).get? i = values[i]? := congrFun (congrArg Cells.value (cells_ofValues fits)) i
  refine ⟨tidy.strays, tidy.apart, tidy.size_le, ?element, ?refines, toNat_toUInt32_add_one, ?size_fits, ?drained⟩
  case element =>
    intro i v
    rw [get?_run_iff, shown]
  case refines => rw [cells_run, cells_ofValues fits]
  case size_fits =>
    intro v p room drains
    have le := ((tidy.draining v).steps drains).size_le
    have length_le := tidy.length_le
    exact toNat_toUInt32 (by omega)
  case drained =>
    intro v
    refine ⟨_, drains_absorb _ _ _, absorb_done (Nat.le_refl _) _, ?_⟩
    rw [Elements.set, if_neg (Nat.lt_irrefl _), if_pos rfl]

/-- Strays at 3 and 2, the gap at 1 filled, and the length set to 3 and back to 4. -/
def gapFilled : List Write := [.set 3 .null, .set 2 .null, .set 1 .null, .setLength 3, .setLength 4]

theorem a_filled_gap_gathers_its_strays :
    (ofValues #[.null]).run gapFilled = ⟨#[.null, .null, .null], [], 4⟩ ∧
      StorageLaw #[.null] gapFilled ((ofValues #[.null]).run gapFilled) :=
  ⟨by decide, storage_law (by decide) (by decide)⟩

end EcmaObjects.Elements
