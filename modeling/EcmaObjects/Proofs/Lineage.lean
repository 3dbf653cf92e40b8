/-
  EcmaObjects.Proofs.Lineage — whole chains of prototypes, as lists.

  `Store.Line` lists a chain from an object to its end, with no bound on its length. Where
  every chain ends there is one such list for each object; it repeats nothing, so it is no
  longer than the store (`Line.length_le`), and the walk that stops at the size of the
  store sees all of it (`Line.ancestors_eq`).
  `chains_outlast_any_run`: after any run, under any limit, every link leads to an object
  of the store and every chain ends; describing a value reads the chain to its end; and a
  prototype that was granted is the one that the object has.
-/

import EcmaObjects.Proofs.Chain
import Mathlib.Data.List.Nodup
import Mathlib.Data.List.Perm.Subperm

namespace EcmaObjects

variable {σ α : Type} {R : Rules}

namespace Store

variable {s : Store}

/-! ## Chains as lists -/

/-- The objects from `o` to the end of its chain, `o` first. -/
inductive Line (s : Store) : ObjectId → List ObjectId → Prop
  | last {o : ObjectId} : s.protoOf o = none → Line s o [o]
  | link {o p : ObjectId} {l : List ObjectId} : s.protoOf o = some p → Line s p l → Line s o (o :: l)

theorem Ends.line {o : ObjectId} {n : Nat} (h : s.Ends o n) : ∃ l, s.Line o l := by
  induction h with
  | @last o hp => exact ⟨[o], .last hp⟩
  | @link o p n hp _ ih =>
    obtain ⟨l, hl⟩ := ih
    exact ⟨o :: l, .link hp hl⟩

theorem Line.unique {o : ObjectId} {l l' : List ObjectId} (h : s.Line o l) (h' : s.Line o l') : l = l' := by
  induction h generalizing l' with
  | last hp =>
    cases h' with
    | last => rfl
    | link hp' => rw [hp] at hp'; cases hp'
  | link hp _ ih =>
    cases h' with
    | last hp' => rw [hp] at hp'; cases hp'
    | link hp' hl' =>
      cases hp.symm.trans hp'
      rw [ih hl']

theorem Line.of_mem {o q : ObjectId} {l : List ObjectId} (h : s.Line o l) (hq : q ∈ l) :
    ∃ l', s.Line q l' ∧ l'.length ≤ l.length := by
  induction h with
  | @last o hp =>
    obtain rfl : q = o := by simpa using hq
    exact ⟨[q], .last hp, Nat.le_refl _⟩
  | @link o p l hp hl ih =>
    rcases List.mem_cons.mp hq with rfl | hq
    · exact ⟨q :: l, .link hp hl, Nat.le_refl _⟩
    · obtain ⟨l', hl', hle⟩ := ih hq
      exact ⟨l', hl', Nat.le_succ_of_le hle⟩

/-- An object further up on its own chain would have a shorter one. -/
theorem Line.nodup {o : ObjectId} {l : List ObjectId} (h : s.Line o l) : l.Nodup := by
  induction h with
  | last => simp
  | @link o p l hp hl ih =>
    refine List.nodup_cons.mpr ⟨fun ho => ?_, ih⟩
    obtain ⟨l', hl', hle⟩ := hl.of_mem ho
    have same : l' = o :: l := hl'.unique (.link hp hl)
    rw [same] at hle
    exact Nat.not_succ_le_self _ hle

theorem Line.live {o : ObjectId} {l : List ObjectId} (h : s.Line o l) (hs : s.Grounded) (ho : s.has o = true) :
    ∀ q ∈ l, s.has q = true := by
  induction h with
  | last => simpa using ho
  | link hp _ ih =>
    intro q hq
    rcases List.mem_cons.mp hq with rfl | hq
    · exact ho
    · exact ih (hs.closed hp) q hq

/-- A chain without a cycle is no longer than the store. -/
theorem Line.length_le {o : ObjectId} {l : List ObjectId} (h : s.Line o l) (hs : s.Grounded) (ho : s.has o = true) :
    l.length ≤ s.size := by
  have inside : l.map (·.index) ⊆ List.range s.size := by
    intro i hi
    obtain ⟨q, hq, rfl⟩ := List.mem_map.mp hi
    exact List.mem_range.mpr (of_decide_eq_true (h.live hs ho q hq))
  have distinct : (l.map (·.index)).Nodup := by
    refine h.nodup.map fun p q e => ?_
    cases p
    cases q
    exact congrArg ObjectId.mk e
  have hle := (List.subperm_of_subset distinct inside).length_le
  simpa using hle

theorem Line.ancestors_eq {o : ObjectId} {l : List ObjectId} (h : s.Line o l) {n : Nat} (hn : l.length ≤ n) :
    s.ancestors n (some o) = l := by
  induction h generalizing n with
  | @last o hp =>
    obtain ⟨n, rfl⟩ : ∃ m, n = m + 1 := Nat.exists_eq_succ_of_ne_zero (by rintro rfl; simp at hn)
    rw [ancestors, hp]
    cases n <;> rfl
  | @link o p l hp _ ih =>
    obtain ⟨n, rfl⟩ : ∃ m, n = m + 1 := Nat.exists_eq_succ_of_ne_zero (by rintro rfl; simp at hn)
    rw [ancestors, hp, ih (Nat.le_of_succ_le_succ hn)]

end Store

/-! ## Granted prototypes -/

theorem Act.protoOf_of_setProto {o : ObjectId} {p : Option ObjectId} {env : Env σ} {w w' : World σ}
    (h : setProto o p env w = .ok true w') (hp : ∀ q, p = some q → w.machine.store.has q = true) :
    w'.machine.store.protoOf o = p := by
  have ends := setProto_reparents o p env w
  rw [h] at ends
  cases ends with
  | @unchanged obj hg he => rw [Store.protoOf, hg, Option.bind_some, he]
  | @granted obj hg =>
    have linked : w.machine.store.link? p = p := by
      cases p with
      | none => rfl
      | some q => exact Store.link?_of_has (hp q rfl)
    show (w.machine.store.modify o _).protoOf o = p
    rw [Store.protoOf_modify, if_pos rfl, hg]
    exact linked

/-! ## After any run -/

/-- What holds of the prototypes of a world, whatever led to it. -/
structure World.ChainLaw (w : World σ) : Prop where
  live {o p : ObjectId} : w.machine.store.protoOf o = some p → w.machine.store.has p = true
  ends (o : ObjectId) : ∃ l, w.machine.store.Line o l ∧ l.Nodup
  /-- Describing an object reads its whole chain, with no bound, and finds an end. -/
  described {o : ObjectId} : w.machine.store.has o = true → ∃ l, w.machine.store.Line o l ∧
    ∀ k, w.machine.store.shownValue? o k =
      l.findSome? fun p => (w.machine.store.get? p).bind (·.properties.value? k)
  reparented {env : Env σ} {o p : ObjectId} {w' : World σ} : w.machine.store.has p = true →
    Act.setProto o (some p) env w = .ok true w' → w'.machine.store.protoOf o = some p

theorem World.chainLaw {w : World σ} (h : w.machine.store.Grounded) : w.ChainLaw := by
  constructor
  · exact h.closed
  · intro o
    obtain ⟨n, hn⟩ := h.ends o
    obtain ⟨l, hl⟩ := hn.line
    exact ⟨l, hl, hl.nodup⟩
  · intro o ho
    obtain ⟨n, hn⟩ := h.ends o
    obtain ⟨l, hl⟩ := hn.line
    refine ⟨l, hl, fun k => ?_⟩
    rw [Store.shownValue?, hl.ancestors_eq (hl.length_le h ho)]
  · intro env o p w' hp hs
    refine Act.protoOf_of_setProto hs fun q hq => ?_
    cases hq
    exact hp

/-- No run, under whatever limit and budget, makes a chain go in a circle or leave the store. -/
theorem chains_outlast_any_run {host : Host σ} (hh : host.Public R) {x : Act σ α} (hx : x.Public R) (config : Config)
    (budget : Budget) {w : World σ} (hw : w.machine.Reachable R) : (x.run host config budget w).world.ChainLaw :=
  have reached : (x.run host config budget w).world.machine.Reachable R := hw.trans (run_steps hh hx config budget w)
  World.chainLaw reached.grounded

/-- The lowest of three chained objects is put below arrays; its chain then has five objects. -/
theorem a_chain_put_below_another :
    let w : World Unit := ⟨Act.threeChained, ()⟩
    let w' := ((Act.setProto ⟨25⟩ (some Intrinsic.arrayPrototype.object)).run idle ⟨8⟩ ⟨64, 64⟩ w).world
    w'.ChainLaw ∧ w'.machine.store.Line ⟨27⟩ [⟨27⟩, ⟨26⟩, ⟨25⟩, ⟨2⟩, ⟨0⟩] := by
  intro w w'
  have reachable : w.machine.Reachable .checked := Act.threeChained_reachable
  refine ⟨chains_outlast_any_run (fun _ _ _ => .ret _) (.setProto _ _) ⟨8⟩ ⟨64, 64⟩ reachable, ?_⟩
  have top : w'.machine.store.Line ⟨2⟩ [⟨2⟩, ⟨0⟩] := .link (by decide) (.last (by decide))
  exact .link (by decide) (.link (by decide) (.link (by decide) top))

end EcmaObjects
