/-
  EcmaObjects.Proofs.Ancestry — which objects are above another.

  An object is above another if one or more links lead to it (`Store.Above`). On a chain that ends
  those are the objects after the first (`Line.above_iff`), so none is above itself; and a climb
  towards an object meets it exactly if it is above (`Climbs.met_iff`).
  - `ancestry_law`: for objects whose chain keeps to the limit, `isPrototypeOf` decides this
    relation and leaves the world as it is. The relation is irreflexive and transitive, and a
    prototype that was granted brings in all that was above it.
-/

import EcmaObjects.Proofs.Lineage

namespace EcmaObjects

variable {σ : Type} {R : Rules}

namespace Store

variable {s s' : Store} {o p q : ObjectId}

/-! ## Above another object -/

/-- One or more links lead from `o` to `p`. -/
def Above (s : Store) (p o : ObjectId) : Prop := Relation.TransGen (fun o p => s.protoOf o = some p) o p

theorem Above.trans (h : s.Above q p) (h' : s.Above p o) : s.Above q o := Relation.TransGen.trans h' h

theorem above_of_protoOf (h : s.protoOf o = some p) : s.Above p o := .single h

theorem not_above_of_last (h : s.protoOf o = none) : ¬ s.Above q o := by
  intro above
  obtain ⟨p, hp, -⟩ := Relation.TransGen.head'_iff.mp above
  rw [h] at hp
  cases hp

/-- Above an object are its prototype and what is above that. -/
theorem above_iff_of_protoOf (h : s.protoOf o = some p) : s.Above q o ↔ q = p ∨ s.Above q p := by
  constructor
  · intro above
    obtain ⟨p', hp', path⟩ := Relation.TransGen.head'_iff.mp above
    cases h.symm.trans hp'
    exact Relation.reflTransGen_iff_eq_or_transGen.mp path
  · rintro (rfl | above)
    · exact above_of_protoOf h
    · exact above.trans (above_of_protoOf h)

/-- Above an object is the rest of its chain. -/
theorem Line.above_iff {l : List ObjectId} (h : s.Line o l) : s.Above q o ↔ q ∈ l.tail := by
  induction h with
  | last hp => exact iff_of_false (not_above_of_last hp) List.not_mem_nil
  | @link o p l hp hl ih =>
    rw [above_iff_of_protoOf hp, ih]
    cases hl with
    | last | link => exact List.mem_cons.symm

theorem Ends.not_above_self {n : Nat} (h : s.Ends o n) : ¬ s.Above o o := by
  intro above
  obtain ⟨l, hl⟩ := h.line
  have later : o ∈ l.tail := hl.above_iff.mp above
  have once := hl.nodup
  cases hl with
  | last | link => exact (List.nodup_cons.mp once).1 later

theorem Climbs.met_iff {n : Nat} {met : Bool} (h : s.Climbs p o n met) : met = true ↔ s.Above p o := by
  induction h with
  | met hp => exact iff_of_true rfl (above_of_protoOf hp)
  | last hp => exact iff_of_false Bool.false_ne_true (not_above_of_last hp)
  | link hp hne _ ih => rw [ih, above_iff_of_protoOf hp, or_iff_right hne.symm]

theorem Climbs.le_of_ends {n m : Nat} {met : Bool} (h : s.Climbs p o n met) (he : s.Ends o m) : n ≤ m := by
  induction h generalizing m with
  | last => exact Nat.zero_le m
  | met hp =>
    cases he with
    | last hn => rw [hn] at hp; cases hp
    | link => exact Nat.succ_le_succ (Nat.zero_le _)
  | link hp _ _ ih =>
    cases he with
    | last hn => rw [hn] at hp; cases hp
    | link hp' he =>
      cases hp.symm.trans hp'
      exact Nat.succ_le_succ (ih he)

theorem Ends.of_above {n : Nat} (h : s.Ends o n) (above : s.Above p o) : ∃ m, m ≤ n ∧ s.Ends p m := by
  induction h with
  | last hp => exact absurd above (not_above_of_last hp)
  | @link o p' n hp he ih =>
    rcases (above_iff_of_protoOf hp).mp above with rfl | above
    · exact ⟨n, Nat.le_succ n, he⟩
    · obtain ⟨m, hm, he⟩ := ih above
      exact ⟨m, Nat.le_succ_of_le hm, he⟩

/-! ## After a change of prototype -/

/-- What is above `p` is the same where the links from there on are. -/
theorem above_congr (hp : s'.protoOf p = s.protoOf p) (h : ∀ q, s'.Above q p → s'.protoOf q = s.protoOf q) :
    s'.Above q p ↔ s.Above q p := by
  constructor
  · intro above
    induction above with
    | single link => exact .single (hp.symm.trans link)
    | tail before link ih => exact ih.tail ((h _ before).symm.trans link)
  · intro above
    induction above with
    | single link => exact .single (hp.trans link)
    | tail _ link ih => exact ih.tail ((h _ ih).trans link)

end Store

namespace Act

variable {env : Env σ} {w w' : World σ} {o p q v : ObjectId} {n : Nat} {args : List Value}

/-- A change of prototype that is granted keeps every other link, and chains that end. -/
theorem setProto_keeps {proto : Option ObjectId} (h : setProto o proto env w = .ok true w')
    (hg : w.machine.store.Grounded) :
    w'.machine.store.Grounded ∧ ∀ q, q ≠ o → w'.machine.store.protoOf q = w.machine.store.protoOf q := by
  have ends := setProto_reparents o proto env w
  rw [h] at ends
  cases ends with
  | unchanged => exact ⟨hg, fun _ _ => rfl⟩
  | granted _ _ hr =>
    exact ⟨hg.reparent hr, fun q hq => Store.protoOf_reparent_ne hq⟩

theorem setProto_room {proto : Option ObjectId} (h : setProto o proto env w = .ok true w')
    (he : w.machine.store.Ends o n) (hn : n ≤ env.maxDepth) : ∃ m, w'.machine.store.Ends o m ∧ m ≤ env.maxDepth := by
  have ends := setProto_reparents o proto env w
  rw [h] at ends
  cases ends with
  | unchanged => exact ⟨n, he, hn⟩
  | granted _ _ hr =>
    obtain ⟨m, hm, he'⟩ := Store.ends_reparent hr
    exact ⟨m, he', hm⟩

theorem linked_of_setProto (h : setProto o (some p) env w = .ok true w') (hp : w.machine.store.has p = true) :
    w'.machine.store.protoOf o = some p := by
  refine protoOf_of_setProto h fun q hq => ?_
  cases hq
  exact hp

theorem above_of_setProto (h : setProto o (some p) env w = .ok true w') (hg : w.machine.store.Grounded)
    (hp : w.machine.store.has p = true) : w'.machine.store.Above q p ↔ w.machine.store.Above q p := by
  obtain ⟨grounded, other⟩ := setProto_keeps h hg
  -- The object itself is not above its new prototype, or the chain would go in a circle.
  obtain ⟨n, ends⟩ := grounded.ends o
  have acyclic : ¬ w'.machine.store.Above o o := ends.not_above_self
  rw [Store.above_iff_of_protoOf (linked_of_setProto h hp), not_or] at acyclic
  refine Store.above_congr (other p (Ne.symm acyclic.1)) fun q above => other q ?_
  rintro rfl
  exact acyclic.2 above

/-- With room for the whole chain there is an answer, and it is the right one. -/
theorem isPrototypeOf_of_ends (ha : argument args = .object v) (he : w.machine.store.Ends v n) (hn : n ≤ env.maxDepth)
    (p : ObjectId) : ∃ b, isPrototypeOf (.object p) args env w = .ok (.boolean b) w ∧
      (b = true ↔ w.machine.store.Above p v) := by
  obtain ⟨m, met, climb⟩ := he.climbs p
  have room : ¬ env.maxDepth + met.toNat < m := by
    have bound := climb.le_of_ends he
    omega
  refine ⟨met, ?_, climb.met_iff⟩
  rw [isPrototypeOf_of_climbs ha rfl climb, if_neg room]

theorem isPrototypeOf_iff_above (he : w.machine.store.Ends v n) (hn : n ≤ env.maxDepth) :
    isPrototypeOf (.object p) [.object v] env w = .ok (.boolean true) w ↔ w.machine.store.Above p v := by
  have given : argument [.object v] = .object v := rfl
  obtain ⟨b, answer, decided⟩ := isPrototypeOf_of_ends given he hn p
  rw [answer, ← decided, Result.ok.injEq, Value.boolean.injEq]
  exact and_iff_left rfl

/-! ## The law of ancestry -/

/-- What `isPrototypeOf` says of the objects of a world. -/
structure AncestryLaw (env : Env σ) (w : World σ) : Prop where
  decides {p v : ObjectId} {args : List Value} {n : Nat} : argument args = .object v → w.machine.store.Ends v n →
    n ≤ env.maxDepth →
    ∃ b, isPrototypeOf (.object p) args env w = .ok (.boolean b) w ∧ (b = true ↔ w.machine.store.Above p v)
  irreflexive {v : ObjectId} {n : Nat} : w.machine.store.Ends v n → n ≤ env.maxDepth →
    isPrototypeOf (.object v) [.object v] env w = .ok (.boolean false) w
  transitive {q p v : ObjectId} {n : Nat} : w.machine.store.Ends v n → n ≤ env.maxDepth →
    isPrototypeOf (.object q) [.object p] env w = .ok (.boolean true) w →
    isPrototypeOf (.object p) [.object v] env w = .ok (.boolean true) w →
    isPrototypeOf (.object q) [.object v] env w = .ok (.boolean true) w
  granted {o p q : ObjectId} {n : Nat} {w' : World σ} : w.machine.store.has p = true →
    setProto o (some p) env w = .ok true w' → w'.machine.store.Ends o n → n ≤ env.maxDepth →
    (isPrototypeOf (.object q) [.object o] env w' = .ok (.boolean true) w' ↔ q = p ∨ w.machine.store.Above q p) ∧
      (w'.machine.store.Above q p ↔ w.machine.store.Above q p)
  /-- If the chain of the object kept to the limit before, it does then. -/
  room {o p : ObjectId} {n : Nat} {w' : World σ} : setProto o (some p) env w = .ok true w' →
    w.machine.store.Ends o n → n ≤ env.maxDepth → ∃ m, w'.machine.store.Ends o m ∧ m ≤ env.maxDepth
  noObject {this : Value} {args : List Value} : (argument args).isObject = false →
    isPrototypeOf this args env w = .ok (.boolean false) w

theorem ancestry_law (h : w.machine.Reachable R) (env : Env σ) : AncestryLaw env w := by
  constructor
  · intro p v args n ha he hn
    exact isPrototypeOf_of_ends ha he hn p
  · intro v n he hn
    have given : argument [.object v] = .object v := rfl
    obtain ⟨b, answer, decided⟩ := isPrototypeOf_of_ends given he hn v
    rw [answer, Bool.eq_false_iff.mpr (decided.not.mpr he.not_above_self)]
  · intro q p v n he hn upper lower
    rw [isPrototypeOf_iff_above he hn] at lower ⊢
    obtain ⟨m, hm, he'⟩ := he.of_above lower
    rw [isPrototypeOf_iff_above he' (Nat.le_trans hm hn)] at upper
    exact upper.trans lower
  · intro o p q n w' hp hs he hn
    have kept : w'.machine.store.Above q p ↔ w.machine.store.Above q p := above_of_setProto hs h.grounded hp
    rw [isPrototypeOf_iff_above he hn, Store.above_iff_of_protoOf (linked_of_setProto hs hp), kept]
    exact ⟨Iff.rfl, Iff.rfl⟩
  · intro o p n w' hs he hn
    exact setProto_room hs he hn
  · intro this args ha
    unfold isPrototypeOf
    cases hv : argument args with
    | object v =>
      rw [hv] at ha
      cases ha
    | _ => rfl

/-- The topmost of three objects is above the lowest, where the limit leaves room for just these
    links. Put below arrays, it has above it what is above those. -/
theorem the_topmost_of_three_is_above_the_lowest :
    let env : Env Unit := .ofHost idle ⟨2⟩ ⟨64, 64⟩
    let w : World Unit := ⟨threeChained, ()⟩
    let w' := (setProto ⟨25⟩ (some Intrinsic.arrayPrototype.object) env w).world
    isPrototypeOf (.object ⟨25⟩) [.object ⟨27⟩] env w = .ok (.boolean true) w ∧
      isPrototypeOf (.object ⟨27⟩) [.object ⟨27⟩] env w = .ok (.boolean false) w ∧
      isPrototypeOf (.object ⟨0⟩) [.object ⟨25⟩] env w' = .ok (.boolean true) w' ∧
      isPrototypeOf .null [.null] env w = .ok (.boolean false) w := by
  intro env w w'
  have reachable : w.machine.Reachable .checked := threeChained_reachable
  have law : AncestryLaw env w := ancestry_law reachable env
  have top : w.machine.store.Ends ⟨25⟩ 0 := .last (by decide)
  have middle : w.machine.store.Ends ⟨26⟩ 1 := .link (by decide) top
  have lowest : w.machine.store.Ends ⟨27⟩ 2 := .link (by decide) middle
  have parent : isPrototypeOf (.object ⟨26⟩) [.object ⟨27⟩] env w = .ok (.boolean true) w := rfl
  have grandparent : isPrototypeOf (.object ⟨25⟩) [.object ⟨26⟩] env w = .ok (.boolean true) w := rfl
  have granted : setProto ⟨25⟩ (some Intrinsic.arrayPrototype.object) env w = .ok true w' := rfl
  have root : w'.machine.store.Ends ⟨0⟩ 0 := .last (by decide)
  have arrays : w'.machine.store.Ends ⟨2⟩ 1 := .link (by decide) root
  have below : w'.machine.store.Ends ⟨25⟩ 2 := .link (by decide) arrays
  have inherited : w.machine.store.Above ⟨0⟩ Intrinsic.arrayPrototype.object := Store.above_of_protoOf (by decide)
  exact ⟨law.transitive lowest (by decide) grandparent parent, law.irreflexive lowest (by decide),
    (law.granted (by decide) granted below (by decide)).1.mpr (Or.inr inherited), law.noObject rfl⟩

end Act

end EcmaObjects
