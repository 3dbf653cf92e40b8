/-
  EcmaObjects.Proofs.Stepping — how a step of an iterator ends, and what it leaves of the record.

  A step calls `next` with no arguments, reads `done` off what that gives and, where the value
  is wanted, reads `value` after it. `Act.Seeks` lists the ways in which it may end: it fails
  at one of these points, or it comes to the end, or it gives what is wanted. With each way
  stands what the step asks other objects for (`Request`); it asks for nothing else
  (`Seeks.shows`).
  - `done_flag_law`: however many steps are taken with a record, and whatever goes on between
    them, the record is marked done exactly if a step so far came to the end or failed. It
    stays marked, and all steps call the `next` that it had at first, on the same iterator.
-/

import EcmaObjects.Proofs.Truth

namespace EcmaObjects

variable {σ : Type}

namespace Act

/-! ## The ways of a step -/

/-- What a step is taken for: the object that `next` gives, or the value in it. -/
inductive Wanted where
  | result
  | value
  deriving DecidableEq, Repr

def Wanted.of (wanted : Wanted) (result : ObjectId) : Act σ Value :=
  match wanted with
  | .result => return .object result
  | .value => resultValue result

def seek (r : IteratorRecord) (wanted : Wanted) : Act σ (Option Value) := do
  match ← advance r with
  | some result => return some (← wanted.of result)
  | none => return none

structure NextGives (env : Env σ) (r : IteratorRecord) (w : World σ) (call : Call) (u : Value) (w₁ : World σ) : Prop where
  called : w.machine.store.callOf? r.next (.object r.iterator) [] = some call
  gave : call.result env w = .ok u w₁

/-- How a step may end, with its requests in the order in which they are made. -/
inductive Seeks (env : Env σ) (r : IteratorRecord) (w : World σ) :
    Wanted → List Request → Result σ (Option Value) → Prop
  | notCallable {wanted : Wanted} {e : ObjectId} {w' : World σ} :
      w.machine.store.callOf? r.next (.object r.iterator) [] = none → w.Raises .typeError .notCallable e w' →
      Seeks env r w wanted [] (.abrupt (.thrown (.object e)) w')
  | callFails {wanted : Wanted} {call : Call} {out : Result σ (Option Value)} :
      w.machine.store.callOf? r.next (.object r.iterator) [] = some call → (call.result env w).Fails out →
      Seeks env r w wanted [.call call] out
  | notObject {wanted : Wanted} {call : Call} {u : Value} {e : ObjectId} {w₁ w' : World σ} :
      NextGives env r w call u w₁ → u.isObject = false → w₁.Raises .typeError .resultNotObject e w' →
      Seeks env r w wanted [.call call] (.abrupt (.thrown (.object e)) w')
  | doneFails {wanted : Wanted} {call : Call} {result : ObjectId} {w₁ : World σ} {out : Result σ (Option Value)} :
      NextGives env r w call (.object result) w₁ → (get result "done" (.object result) env w₁).Fails out →
      Seeks env r w wanted [.call call, w₁.machine.store.reading env.maxDepth result "done"] out
  | ends {wanted : Wanted} {call : Call} {result : ObjectId} {d : Value} {w₁ w₂ : World σ} :
      NextGives env r w call (.object result) w₁ → get result "done" (.object result) env w₁ = .ok d w₂ →
      d.CountsAsTrue →
      Seeks env r w wanted [.call call, w₁.machine.store.reading env.maxDepth result "done"] (.ok none w₂)
  | result {call : Call} {result : ObjectId} {d : Value} {w₁ w₂ : World σ} :
      NextGives env r w call (.object result) w₁ → get result "done" (.object result) env w₁ = .ok d w₂ →
      ¬ d.CountsAsTrue →
      Seeks env r w .result [.call call, w₁.machine.store.reading env.maxDepth result "done"]
        (.ok (some (.object result)) w₂)
  | valueFails {call : Call} {result : ObjectId} {d : Value} {w₁ w₂ : World σ} {out : Result σ (Option Value)} :
      NextGives env r w call (.object result) w₁ → get result "done" (.object result) env w₁ = .ok d w₂ →
      ¬ d.CountsAsTrue → (get result "value" (.object result) env w₂).Fails out →
      Seeks env r w .value [.call call, w₁.machine.store.reading env.maxDepth result "done",
        w₂.machine.store.reading env.maxDepth result "value"] out
  | value {call : Call} {result : ObjectId} {d v : Value} {w₁ w₂ w₃ : World σ} :
      NextGives env r w call (.object result) w₁ → get result "done" (.object result) env w₁ = .ok d w₂ →
      ¬ d.CountsAsTrue → get result "value" (.object result) env w₂ = .ok v w₃ →
      Seeks env r w .value [.call call, w₁.machine.store.reading env.maxDepth result "done",
        w₂.machine.store.reading env.maxDepth result "value"] (.ok (some v) w₃)

section
variable {env : Env σ} {r : IteratorRecord} {w w₁ w₂ : World σ} {wanted : Wanted} {call : Call} {result : ObjectId} {d : Value}

theorem next_of_none (hc : w.machine.store.callOf? r.next (.object r.iterator) [] = none) :
    next r none env w = .abrupt (.thrown (.object w.machine.store.fresh)) (w.withError .notCallable) := by
  simp only [next, bind_apply, Option.toList, call_apply, hc]

theorem next_of_some (hc : w.machine.store.callOf? r.next (.object r.iterator) [] = some call) :
    next r none env w = match call.result env w with
      | .ok (.object result) w₁ => .ok result w₁
      | .ok _ w₁ => .abrupt (.thrown (.object w₁.machine.store.fresh)) (w₁.withError .resultNotObject)
      | .abrupt c w₁ => .abrupt c w₁
      | .fault e w₁ => .fault e w₁ := by
  simp only [next, bind_apply, Option.toList, call_apply, hc]
  cases call.result env w with
  | abrupt c w₁ | fault e w₁ => rfl
  | ok u w₁ => cases u <;> rfl

theorem seek_of_done (hn : NextGives env r w call (.object result) w₁)
    (hd : get result "done" (.object result) env w₁ = .ok d w₂) :
    seek r wanted env w =
      if d.toBoolean then .ok none w₂ else (do return some (← wanted.of result) : Act σ (Option Value)) env w₂ := by
  have given : next r none env w = .ok result w₁ := by rw [next_of_some hn.called, hn.gave]
  simp only [seek, advance, bind_apply, given, resultDone, hd, pure_apply]
  cases d.toBoolean <;> rfl

theorem Seeks.apply {asked : List Request} {out : Result σ (Option Value)} (h : Seeks env r w wanted asked out) :
    seek r wanted env w = out := by
  cases h with
  | notCallable hc raised =>
    simp only [seek, advance, bind_apply, next_of_none hc]
    exact raised.thrown
  | callFails hc hf =>
    cases hf with
    | abrupt hr | fault hr => simp only [seek, advance, bind_apply, next_of_some hc, hr]
  | @notObject _ _ u _ _ _ hn hu raised =>
    simp only [seek, advance, bind_apply, next_of_some hn.called, hn.gave]
    cases u with
    | object o => cases hu
    | _ => exact raised.thrown
  | doneFails hn hf =>
    cases hf with
    | abrupt hd | fault hd => simp only [seek, advance, bind_apply, next_of_some hn.called, hn.gave, resultDone, hd]
  | ends hn hd counts => rw [seek_of_done hn hd, if_pos ((Value.toBoolean_iff _).mpr counts)]
  | result hn hd falsy =>
    rw [seek_of_done hn hd, if_neg (mt (Value.toBoolean_iff _).mp falsy)]
    rfl
  | valueFails hn hd falsy hf =>
    rw [seek_of_done hn hd, if_neg (mt (Value.toBoolean_iff _).mp falsy), bind_apply]
    cases hf with
    | abrupt hv | fault hv => simp only [Wanted.of, resultValue, hv]
  | value hn hd falsy hv =>
    rw [seek_of_done hn hd, if_neg (mt (Value.toBoolean_iff _).mp falsy), bind_apply]
    simp only [Wanted.of, resultValue, hv, pure_apply]

theorem seek_seeks (r : IteratorRecord) (wanted : Wanted) (env : Env σ) (w : World σ) :
    ∃ asked, Seeks env r w wanted asked (seek r wanted env w) := by
  have way {asked : List Request} {out : Result σ (Option Value)} (h : Seeks env r w wanted asked out) :
      ∃ asked, Seeks env r w wanted asked (seek r wanted env w) := ⟨asked, h.apply ▸ h⟩
  cases hc : w.machine.store.callOf? r.next (.object r.iterator) [] with
  | none => exact way (.notCallable hc (w.raises_withError .notCallable))
  | some call =>
    cases hr : call.result env w with
    | abrupt c w₁ => exact way (.callFails hc (.abrupt hr))
    | fault e w₁ => exact way (.callFails hc (.fault hr))
    | ok u w₁ =>
      have hn : NextGives env r w call u w₁ := ⟨hc, hr⟩
      cases u with
      | object result =>
        cases hd : get result "done" (.object result) env w₁ with
        | abrupt c w₂ => exact way (.doneFails hn (.abrupt hd))
        | fault e w₂ => exact way (.doneFails hn (.fault hd))
        | ok d w₂ =>
          by_cases counts : d.CountsAsTrue
          · exact way (.ends hn hd counts)
          cases wanted with
          | result => exact way (.result hn hd counts)
          | value =>
            cases hv : get result "value" (.object result) env w₂ with
            | abrupt c w₃ => exact way (.valueFails hn hd counts (.abrupt hv))
            | fault e w₃ => exact way (.valueFails hn hd counts (.fault hv))
            | ok v w₃ => exact way (.value hn hd counts hv)
      | _ => exact way (.notObject hn rfl (w₁.raises_withError .resultNotObject))

theorem Seeks.shows {asked : List Request} {out : Result σ (Option Value)} (h : Seeks env r w wanted asked out) :
    env.Shows w out.world asked := by
  cases h with
  | notCallable _ raised => exact .of_host raised.host
  | callFails _ hf =>
    rw [hf.world]
    exact .call _ env w
  | notObject hn _ raised => exact (Env.Shows.of_call hn.gave).raises raised
  | doneFails hn hf =>
    rw [hf.world]
    exact (Env.Shows.of_call hn.gave).trans (.read _ _ _ env _)
  | ends hn hd _ | result hn hd _ => exact (Env.Shows.of_call hn.gave).trans (.of_get hd)
  | valueFails hn hd _ hf =>
    rw [hf.world]
    exact ((Env.Shows.of_call hn.gave).trans (.of_get hd)).trans (.read _ _ _ env _)
  | value hn hd _ hv => exact ((Env.Shows.of_call hn.gave).trans (.of_get hd)).trans (.of_get hv)

end

/-! ## Steps with a record -/

def take (r : IteratorRecord) (wanted : Wanted) : Act σ (Except Abrupt (Option Value) × IteratorRecord) :=
  match wanted with
  | .result => do
    let (outcome, r) ← step r
    return (outcome.map (·.map .object), r)
  | .value => stepValue r

theorem take_apply (r : IteratorRecord) (wanted : Wanted) (env : Env σ) (w : World σ) :
    take r wanted env w = match seek r wanted env w with
      | .ok item w₁ => .ok (.ok item, r.after (.ok item)) w₁
      | .abrupt c w₁ => .ok (.error c, r.after (.error c : Except Abrupt (Option Value))) w₁
      | .fault e w₁ => .fault e w₁ := by
  cases wanted with
  | result =>
    simp only [take, step_eq_tracked, tracked, seek, bind_apply, attempt_apply]
    cases advance r env w with
    | ok item w₁ => cases item <;> rfl
    | abrupt c w₁ | fault e w₁ => rfl
  | value =>
    have same : seek r .value = (advanceValue r : Act σ (Option Value)) := rfl
    rw [same]
    simp only [take, stepValue_eq_tracked, tracked, bind_apply, attempt_apply]
    cases advanceValue r env w <;> rfl

end Act

structure Taken (σ : Type) where
  env : Env σ
  wanted : Act.Wanted
  before : World σ
  outcome : Except Abrupt (Option Value)
  after : World σ

namespace Taken

def Stops (t : Taken σ) : Prop := t.outcome = .ok none ∨ ∃ c, t.outcome = .error c

def result (t : Taken σ) : Result σ (Option Value) :=
  match t.outcome with
  | .ok item => .ok item t.after
  | .error c => .abrupt c t.after

end Taken

/-- Steps one after another, each with the record that the last one left; anything may happen
    between them to the world, and to the environment. -/
inductive IteratorRecord.Stepped (r : IteratorRecord) : List (Taken σ) → IteratorRecord → Prop
  | start : Stepped r [] r
  | next {r₁ r₂ : IteratorRecord} {taken : List (Taken σ)} {t : Taken σ} : Stepped r taken r₁ →
      Act.take r₁ t.wanted t.env t.before = .ok (t.outcome, r₂) t.after → Stepped r (taken ++ [t]) r₂

/-! ## The done flag -/

/-- A step marks the record if it stops, and changes nothing else of it. -/
theorem IteratorRecord.after_eq (r : IteratorRecord) (t : Taken σ) :
    (r.after t.outcome).iterator = r.iterator ∧ (r.after t.outcome).next = r.next ∧
      ((r.after t.outcome).done = true ↔ r.done = true ∨ t.Stops) := by
  unfold Taken.Stops
  cases t.outcome with
  | error c => exact ⟨rfl, rfl, fun _ => Or.inr (Or.inr ⟨c, rfl⟩), fun _ => rfl⟩
  | ok item =>
    cases item with
    | none => exact ⟨rfl, rfl, fun _ => Or.inr (Or.inl rfl), fun _ => rfl⟩
    | some v => exact ⟨rfl, rfl, Or.inl, fun h => h.elim id fun h => h.elim nofun nofun⟩

namespace Act

theorem seek_of_take {r r' : IteratorRecord} {t : Taken σ} (h : take r t.wanted t.env t.before = .ok (t.outcome, r') t.after) :
    seek r t.wanted t.env t.before = t.result ∧ r' = r.after t.outcome := by
  obtain ⟨env, wanted, before, outcome, after⟩ := t
  rw [take_apply] at h
  cases hs : seek r wanted env before with
  | ok item w₁ | abrupt c w₁ =>
    simp only [hs] at h
    cases h
    exact ⟨rfl, rfl⟩
  | fault e w₁ =>
    simp only [hs] at h
    cases h

theorem seek_congr {r r' : IteratorRecord} (iterator : r'.iterator = r.iterator) (next : r'.next = r.next) (wanted : Wanted) :
    seek r' wanted = (seek r wanted : Act σ (Option Value)) := by
  simp only [seek, advance, Act.next, iterator, next]

end Act

/-- What is left of a record after these steps with it. -/
structure DoneFlagLaw (r : IteratorRecord) (taken : List (Taken σ)) (r' : IteratorRecord) : Prop where
  done_iff : r'.done = true ↔ ∃ t ∈ taken, t.Stops
  stays {more : List (Taken σ)} {r'' : IteratorRecord} : r'.Stepped more r'' → r'.done = true → r''.done = true
  iterator : r'.iterator = r.iterator
  next : r'.next = r.next
  /-- Each step has called the first record's `next` on its iterator, and read the result. -/
  way : ∀ t ∈ taken, ∃ asked, Act.Seeks t.env r t.before t.wanted asked t.result ∧ t.env.Shows t.before t.after asked

namespace IteratorRecord.Stepped

variable {r r' : IteratorRecord} {taken : List (Taken σ)}

theorem after (h : r.Stepped taken r') :
    r'.iterator = r.iterator ∧ r'.next = r.next ∧ (r'.done = true ↔ r.done = true ∨ ∃ t ∈ taken, t.Stops) := by
  induction h with
  | start => simp
  | @next r₁ r₂ taken t _ ht ih =>
    obtain ⟨iterator, next, done⟩ := ih
    obtain ⟨-, rfl⟩ := Act.seek_of_take ht
    obtain ⟨iterator₁, next₁, done₁⟩ := r₁.after_eq t
    refine ⟨iterator₁.trans iterator, next₁.trans next, ?_⟩
    simp only [done₁, done, or_assoc, List.mem_append, List.mem_singleton, or_and_right, exists_or, exists_eq_left]

theorem way (h : r.Stepped taken r') :
    ∀ t ∈ taken, ∃ asked, Act.Seeks t.env r t.before t.wanted asked t.result ∧ t.env.Shows t.before t.after asked := by
  induction h with
  | start => exact fun _ ht => nomatch ht
  | @next r₁ r₂ taken t hs ht ih =>
    intro t' ht'
    rcases List.mem_append.mp ht' with before | last
    · exact ih t' before
    obtain rfl := List.mem_singleton.mp last
    obtain ⟨iterator, next, -⟩ := hs.after
    obtain ⟨sought, -⟩ := Act.seek_of_take ht
    obtain ⟨asked, seeks⟩ := Act.seek_seeks r t'.wanted t'.env t'.before
    rw [← Act.seek_congr iterator next, sought] at seeks
    have shows := seeks.shows
    have world : t'.result.world = t'.after := by
      unfold Taken.result
      cases t'.outcome <;> rfl
    rw [world] at shows
    exact ⟨asked, seeks, shows⟩

end IteratorRecord.Stepped

/-- However many steps are taken with a record that is not done, it is done after them exactly if one
    of them came to the end or failed. -/
theorem done_flag_law {r r' : IteratorRecord} {taken : List (Taken σ)} (h : r.Stepped taken r') (fresh : r.done = false) :
    DoneFlagLaw r taken r' := by
  obtain ⟨iterator, next, done⟩ := h.after
  refine ⟨?_, fun more marked => more.after.2.2.mpr (Or.inl marked), iterator, next, h.way⟩
  rw [done, fresh]
  simp

/-- An iterator whose `next` gives the iterator itself. Between two steps it says that it is done, and
    has its own `next` redefined; the second step ends the iteration, by the `next` of the record. -/
theorem a_record_keeps_its_next :
    let env : Env Unit := .ofHost idle ⟨8⟩ ⟨64, 64⟩
    let r : IteratorRecord := ⟨⟨26⟩, .object ⟨25⟩, false⟩
    let w : World Unit := (⟨{}, ()⟩ : World Unit).add (.ofFunction ⟨"next", 0, .builtin .self⟩)
    let before := w.add { properties := ⟨[("next", .plain (.object ⟨25⟩))]⟩ }
    let after := w.add { properties := ⟨[("next", .plain .null), ("done", .plain (.boolean true))]⟩ }
    let first : Taken Unit := ⟨env, .result, before, .ok (some (.object ⟨26⟩)), before⟩
    let second : Taken Unit := ⟨env, .value, after, .ok none, after⟩
    r.done = false ∧ (∃ r₁, r.Stepped [first] r₁ ∧ ¬ r₁.done = true) ∧
      ∃ r₂, r.Stepped [first, second] r₂ ∧ r₂.done = true ∧ r₂.next = .object ⟨25⟩ := by
  intro env r w before after first second
  have once : r.Stepped [first] r := .next .start rfl
  have twice : r.Stepped [first, second] { r with done := true } := .next once rfl
  have goesOn : ¬ r.done = true := by
    intro marked
    obtain ⟨t, ht, stops⟩ := (done_flag_law once rfl).done_iff.mp marked
    obtain rfl := List.mem_singleton.mp ht
    exact stops.elim nofun nofun
  have law := done_flag_law twice rfl
  exact ⟨rfl, ⟨r, once, goesOn⟩, _, twice, law.done_iff.mpr ⟨second, by simp, Or.inl rfl⟩, law.next⟩

end EcmaObjects
