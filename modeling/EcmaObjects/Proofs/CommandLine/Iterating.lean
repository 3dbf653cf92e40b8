/-
  EcmaObjects.Proofs.CommandLine.Iterating — `iterate` prints exactly the values that it takes.

  Before each line the iterator has been stepped once for every line so far, and what the
  probes made is still there (`Stands`); a step keeps this, so every line shows the text that
  the value had when the probes had been read.
  - `iterate_law`: an invalid probe stops the command before it prints; otherwise the lines are
    those of the values before the close, or of all, and one more that tells which.
-/

import EcmaObjects.Proofs.CommandLine.Rendering

namespace EcmaObjects

open Act

/-! ## Steps of a list iterator -/

namespace Act

variable {σ : Type} {w : World σ}

theorem listNext_frame {o : ObjectId} {obj : Object} {items : List Value} {k : Nat}
    (ho : w.machine.store.get? o = some obj) (hl : w.machine.store.ListAt o items k) (env : Env σ) :
    (listNext (.object o) env w).world.host = w.host ∧
      (∃ iteration, (listNext (.object o) env w).world.machine.store.get? o = some { obj with iteration }) ∧
      ∀ p other, p ≠ o → w.machine.store.get? p = some other →
        (listNext (.object o) env w).world.machine.store.get? p = some other := by
  obtain ⟨s, hn, -⟩ := hl.next
  obtain ⟨_, before, after, e, ho', moved, rfl⟩ := Store.nextItem?_eq_some.mp hn
  cases e
  cases ho.symm.trans ho'
  obtain ⟨iteration, rfl⟩ := Object.nextItem?_frame moved
  rw [listNext_apply, hn]
  refine ⟨rfl, ⟨iteration, Store.get?_add_of_some (Store.get?_modify_self ho _) _⟩, fun p other hne hp => ?_⟩
  refine Store.get?_add_of_some ?_ _
  rw [Store.get?_modify, if_neg hne, hp]

end Act

namespace CommandLine

/-! ## The iterator between two lines -/

/-- The iterator `r` over `values`, made when the store was `s`, has been stepped `k` times since. -/
structure Stands (s : Store) (values : List Value) (r : IteratorRecord) (k : Nat) (now : Store) : Prop where
  within : s.Within now
  made : s.get? r.iterator = none
  iterator : ∃ obj, now.get? r.iterator = some obj ∧ obj.proto = some Intrinsic.iteratorPrototype.object ∧
    obj.own? "return" = none
  list : now.ListAt r.iterator values k
  next : now.IsListNext r.next
  unfinished : r.done = false

section
variable {s : Store} {values : List Value} {r : IteratorRecord} {k n : Nat} {env : Env Printed} {w : World Printed}

theorem stands_of_listIterator (values : List Value) (env : Env Printed) (w : World Printed) :
    ∃ r w', listIterator values env w = .ok r w' ∧ w'.host = w.host ∧
      Stands w.machine.store values r 0 w'.machine.store := by
  obtain ⟨r, run, list, next⟩ := listIterator_apply values env w
  have made : listIterator values env w =
      .ok ⟨w.machine.store.fresh, .object (w.add (.ofList values)).machine.store.fresh, false⟩
        ((w.add (.ofList values)).add (.ofFunction ⟨"next", 0, .builtin .listNext⟩)) := rfl
  cases run.symm.trans made
  have iterator : (w.machine.store.add (.ofList values)).get? w.machine.store.fresh = some (.ofList values) :=
    Store.get?_add_linked (i := .iteratorPrototype) rfl _
  refine ⟨_, _, made, rfl, ?_⟩
  exact {
    within := (Store.Within.add _ _).trans (.add _ _)
    made := w.machine.store.get?_fresh
    iterator := ⟨_, Store.get?_add_of_some iterator _, rfl, rfl⟩
    list, next, unfinished := rfl }

/-- A step gives the next value, and keeps what the probes made. -/
theorem Stands.step (h : Stands s values r k w.machine.store) (env : Env Printed) (host : Host Printed) :
    ∃ w', stepValue r (env.over host) w = .ok (.ok values[k]?, r.after (.ok values[k]?)) w' ∧ w'.host = w.host ∧
      Stands s values r (k + 1) w'.machine.store := by
  obtain ⟨obj, ho, inherits, noReturn⟩ := h.iterator
  obtain ⟨o, w', called, result, moved, run⟩ := call_list env host h.list h.next
  have left : (listNext (.object r.iterator) env w).world = w' := by
    rw [call_of_some h.next] at called
    exact (Result.world_ofCall _).symm.trans (congrArg Result.world called)
  obtain ⟨still, ⟨iteration, ho'⟩, others⟩ := listNext_frame ho h.list env
  rw [left] at still ho' others
  have stepped : stepValue r (env.over host) w = .ok (.ok values[k]?, r.after (.ok values[k]?)) w' := by
    simp only [stepValue_eq_tracked, tracked, bind_apply, attempt_apply, advanceValue_of_result called result, pure_apply]
  refine ⟨w', stepped, still, ?_⟩
  exact {
    within := fun p other hp => others p other (fun e => by rw [e, h.made] at hp; cases hp) (h.within p other hp)
    made := h.made
    iterator := ⟨_, ho', inherits, noReturn⟩
    list := moved
    next := run.behavior? h.next
    unfinished := h.unfinished }

/-- It has no method to close it with, so the close is a break and nothing else. -/
theorem Stands.closes (h : Stands s values r k w.machine.store) (realm : Realm.store.Within s) (env : Env Printed)
    (limit : env.maxDepth = n + 4) :
    closeEarly r env w = .ok (.ok ()) { w with host := "closed: break" :: w.host } := by
  obtain ⟨obj, ho, inherits, noReturn⟩ := h.iterator
  have absent : w.machine.store.find "return" env.maxDepth r.iterator = .absent := by
    have own : w.machine.store.own? r.iterator "return" = none := (Store.own?_of_get? ho _).trans noReturn
    have proto : w.machine.store.protoOf r.iterator = some Intrinsic.iteratorPrototype.object := by
      rw [Store.protoOf, ho]
      exact inherits
    rw [limit, (realm.trans h.within).find_inherited own proto]
    rfl
  have closed : close r (.abrupt (.broken none none)) env w = .ok (.abrupt (.broken none none)) w := by
    simp only [close, bind_apply, attempt_apply, getMethod_of_absent absent, pure_apply]
  simp only [closeEarly, bind_apply, closed]
  rfl

theorem render_apply {v : Value} {text : String} (h : toText v env w = .ok (.ofString text) w) :
    render v env w = .ok (.ok text) w := by
  simp only [render, bind_apply, completion_apply, h, pure_apply]
  show Result.ok (Except.ok (Text.ofString text).lossy) w = _
  rw [Text.lossy_ofString]

/-! ## The lines -/

/-- The line of the value with this number. -/
def shownLine (index : Nat) (text : String) : String := toString index ++ ": " ++ text

/-- The lines from number `k` on, with these texts to come. -/
def linesFrom (closeAfter : Option Nat) (k : Nat) : List String → List String
  | [] => [if closeAfter = some k then "closed: break" else "done"]
  | text :: rest =>
    if closeAfter = some k then ["closed: break"] else shownLine k text :: linesFrom closeAfter (k + 1) rest

section
variable {closeAfter : Option Nat} {w' : World Printed}

theorem linesFrom_of_close (now : closeAfter = some k) (texts : List String) :
    linesFrom closeAfter k texts = ["closed: break"] := by
  cases texts <;> rw [linesFrom, if_pos now]

theorem printSteps_of_close (now : closeAfter = some k) (m : Nat) :
    printSteps closeAfter (m + 1) k r env w = closeEarly r env w := by
  rw [printSteps, if_pos now]

theorem printSteps_of_end (going : closeAfter ≠ some k) (m : Nat)
    (stepped : stepValue r env w = .ok (.ok none, { r with done := true }) w') :
    printSteps closeAfter (m + 1) k r env w = .ok (.ok ()) { w' with host := "done" :: w'.host } := by
  rw [printSteps, if_neg going, bind_apply, stepped]
  rfl

theorem printSteps_of_value (going : closeAfter ≠ some k) (m : Nat) {v : Value} {text : String}
    (stepped : stepValue r env w = .ok (.ok (some v), r) w') (unfinished : r.done = false)
    (rendered : render v env w' = .ok (.ok text) w') :
    printSteps closeAfter (m + 1) k r env w =
      printSteps closeAfter m (k + 1) r env { w' with host := shownLine k text :: w'.host } := by
  rw [printSteps, if_neg going, bind_apply, stepped]
  simp only [Except.map, Option.getD_some, Completion.ofExcept, received, bind_apply, store_apply, Store.intoHost,
    pure_apply, unfinished, Bool.false_eq_true, if_false, rendered]
  rfl

end

/-- By induction on the values that are left: the steps so far keep the invariant, and each line shows one text. -/
theorem printSteps_apply (realm : Realm.store.Within s) (limit : env.maxDepth = n + 4) {rest : List Value}
    {texts : List String} (renders : List.Forall₂ s.Renders rest texts) (left : values.drop k = rest)
    (h : Stands s values r k w.machine.store) (host : Host Printed) (closeAfter : Option Nat) :
    ∃ w', printSteps closeAfter (rest.length + 1) k r (env.over host) w = .ok (.ok ()) w' ∧
      w'.host = (linesFrom closeAfter k texts).reverse ++ w.host := by
  induction renders generalizing k w with
  | nil =>
    by_cases now : closeAfter = some k
    · rw [linesFrom_of_close now, printSteps_of_close now, h.closes realm (env.over host) limit]
      exact ⟨_, rfl, rfl⟩
    · obtain ⟨w', stepped, still, -⟩ := h.step env host
      have ended : values[k]? = none := List.getElem?_eq_none (List.drop_eq_nil_iff.mp left)
      rw [ended] at stepped
      rw [linesFrom, if_neg now, printSteps_of_end now _ stepped, ← still]
      exact ⟨_, rfl, rfl⟩
  | @cons v text rest texts shows renders ih =>
    by_cases now : closeAfter = some k
    · rw [linesFrom_of_close now, printSteps_of_close now, h.closes realm (env.over host) limit]
      exact ⟨_, rfl, rfl⟩
    · obtain ⟨w', stepped, still, h'⟩ := h.step env host
      have here : values[k]? = some v := by
        rw [← List.head?_drop, left]
        rfl
      have later : values.drop (k + 1) = rest := by
        rw [← List.tail_drop, left]
        rfl
      have rendered : render v (env.over host) w' = .ok (.ok text) w' :=
        render_apply (toText_of_renders (realm.trans h'.within) limit (shows.within h'.within))
      rw [here] at stepped
      rw [linesFrom, if_neg now, printSteps_of_value now _ stepped h.unfinished rendered]
      obtain ⟨last, run, lines⟩ := ih (w := { w' with host := shownLine k text :: w'.host }) later h'
      refine ⟨last, run, ?_⟩
      rw [lines, List.reverse_cons, List.append_assoc, ← still]
      rfl

end

/-! ## All lines at once -/

theorem linesFrom_none (texts : List String) (k : Nat) :
    linesFrom none k texts = (texts.mapIdx fun i => shownLine (k + i)) ++ ["done"] := by
  induction texts generalizing k with
  | nil => rfl
  | cons text rest ih =>
    have shift (i : Nat) : k + 1 + i = k + (i + 1) := by omega
    simp only [linesFrom, reduceCtorEq, if_false, ih, List.mapIdx_cons, Nat.add_zero, List.cons_append, shift]

theorem linesFrom_some (texts : List String) (k c : Nat) :
    linesFrom (some (k + c)) k texts =
      ((texts.take c).mapIdx fun i => shownLine (k + i)) ++ [if c ≤ texts.length then "closed: break" else "done"] := by
  induction texts generalizing k c with
  | nil => cases c <;> simp [linesFrom]
  | cons text rest ih =>
    cases c with
    | zero => simp [linesFrom]
    | succ c =>
      have shift (i : Nat) : k + 1 + i = k + (i + 1) := by omega
      have later : k + (c + 1) ≠ k := by omega
      rw [linesFrom, if_neg (fun e => later (Option.some.inj e)), ← shift c, ih]
      simp only [List.take_succ_cons, List.mapIdx_cons, Nat.add_zero, List.cons_append, shift, List.length_cons,
        Nat.add_le_add_iff_right]

def consumed (n : Nat) (closeAfter : Option Nat) : Nat := closeAfter.elim n (min n)

/-- What is printed for values with these texts. -/
def shown (texts : List String) (closeAfter : Option Nat) : List String :=
  (texts.take (consumed texts.length closeAfter)).mapIdx shownLine ++
    [if closeAfter.any (· ≤ texts.length) then "closed: break" else "done"]

theorem linesFrom_zero (closeAfter : Option Nat) (texts : List String) :
    linesFrom closeAfter 0 texts = shown texts closeAfter := by
  cases closeAfter with
  | none =>
    rw [linesFrom_none, shown, consumed, Option.elim, List.take_length]
    simp only [Nat.zero_add]
    rfl
  | some c =>
    have lines := linesFrom_some texts 0 c
    simp only [Nat.zero_add] at lines
    rw [lines, shown, consumed, Option.elim, List.take_eq_take_min]
    simp [Nat.min_comm]

/-! ## The law of `iterate` -/

theorem iterateValues_of_invalid {w : World Printed} {probes : List String} {s : String}
    (realm : Realm.store.Within w.machine.store) (h : Probe.firstInvalid? probes = some s) (closeAfter : Option Nat)
    (env : Env Printed) :
    ∃ w', iterateValues probes closeAfter env w = .ok (.error (.invalidProbe s)) w' ∧ w'.host = w.host := by
  obtain ⟨w', fails, silent⟩ := Probe.values_of_invalid h env w realm
  refine ⟨w', ?_, silent⟩
  rw [iterateValues, bind_apply, fails]
  rfl

theorem iterateValues_of_values {env : Env Printed} {host : Host Printed} {w w₁ : World Printed} {n : Nat}
    {probes texts : List String} {values : List Value} (realm : Realm.store.Within w₁.machine.store)
    (limit : env.maxDepth = n + 4) (read : Probe.values probes (env.over host) w = .ok (.ok values) w₁)
    (renders : List.Forall₂ w₁.machine.store.Renders values texts) (closeAfter : Option Nat) :
    ∃ w', iterateValues probes closeAfter (env.over host) w = .ok (.ok ()) w' ∧
      w'.host = (shown texts closeAfter).reverse ++ w₁.host := by
  obtain ⟨r, w₂, made, silent, stands⟩ := stands_of_listIterator values (env.over host) w₁
  obtain ⟨w', run, printed⟩ := printSteps_apply realm limit renders List.drop_zero stands host closeAfter
  refine ⟨w', ?_, ?_⟩
  · rw [iterateValues, bind_apply, read]
    show (listIterator values >>= printSteps closeAfter (values.length + 1) 0) (env.over host) w₁ = _
    rw [bind_apply, made]
    exact run
  · rw [printed, linesFrom_zero, silent]

/-- Runs an action as a command with the default configuration does. -/
def start {α : Type} (x : Act Printed α) (w : World Printed) : Result Printed α :=
  x.run (fun _ _ _ => return .undefined) {} budget w

/-- The characters of an output: those of each line and a line feed after it. -/
theorem toList_lines (printed : List String) :
    (lines printed).toList = printed.flatMap fun line => line.toList ++ ['\n'] := by
  rw [lines, String.toList_join, List.flatMap_map]
  exact List.flatMap_congr fun line _ => String.toList_append

theorem lines_invalidProbe (s : String) :
    lines [(HostError.invalidProbe s).message] = "invalid probe value `" ++ s ++ "`\n" := by
  have one (line : String) : lines [line] = line ++ "\n" := by
    rw [lines, List.map_singleton, String.join_cons, String.join_nil, String.append_empty]
  have closing : "`" ++ "\n" = "`\n" := by decide
  rw [one]
  change ("invalid probe value `" ++ s ++ "`") ++ "\n" = _
  rw [String.append_assoc, closing]

/-- What `iterate` prints, and how it ends. -/
structure IterateLaw (probes : List String) (closeAfter : Option Nat) : Prop where
  /-- The first probe that names no value is reported, and nothing is printed. -/
  invalid {s : String} : Probe.firstInvalid? probes = some s →
    (∃ w, start (iterateValues probes closeAfter) ⟨{}, []⟩ = .ok (.error (.invalidProbe s)) w ∧ w.host = []) ∧
      (Command.iterate probes closeAfter).run {} = ⟨1, "", "invalid probe value `" ++ s ++ "`\n"⟩
  /-- The texts are those that the values have when all probes are read. -/
  valid : Probe.firstInvalid? probes = none → ∃ values texts w₁ output,
    start (Probe.values probes) ⟨{}, []⟩ = .ok (.ok values) w₁ ∧ values.length = probes.length ∧
    List.Forall₂ (fun v text => start (toText v) w₁ = .ok (.ofString text) w₁) values texts ∧
    (∃ w, start (iterateValues probes closeAfter) ⟨{}, []⟩ = .ok (.ok ()) w ∧ w.host.reverse = shown texts closeAfter) ∧
    (Command.iterate probes closeAfter).run {} = ⟨0, output, ""⟩ ∧
    output.toList = (shown texts closeAfter).flatMap fun line => line.toList ++ ['\n']

/-- For every list of probes, with and without a close. -/
theorem iterate_law (probes : List String) (closeAfter : Option Nat) : IterateLaw probes closeAfter := by
  let host : Host Printed := fun _ _ _ => return .undefined
  let env : Env Printed := .ofHost host {} ⟨63, 64⟩
  have limit : env.maxDepth = 9996 + 4 := rfl
  constructor
  · intro s h
    obtain ⟨w, fails, silent⟩ := iterateValues_of_invalid (w := ⟨{}, []⟩) (.refl _) h closeAfter (env.over host)
    have run : start (iterateValues probes closeAfter) ⟨{}, []⟩ = .ok (.error (.invalidProbe s)) w := fails
    refine ⟨⟨w, run, silent⟩, ?_⟩
    rw [Command.run, show Act.run (Command.iterate probes closeAfter).act _ _ _ _ = _ from run]
    simp only [silent, lines_invalidProbe]
    rfl
  · intro h
    obtain ⟨values, texts, w₁, read, silent, within, count, renders⟩ :=
      Probe.values_of_valid h (env.over host) ⟨{}, []⟩ (.refl _)
    obtain ⟨w, succeeds, printed⟩ := iterateValues_of_values within limit read renders closeAfter
    have run : start (iterateValues probes closeAfter) ⟨{}, []⟩ = .ok (.ok ()) w := succeeds
    have shows : w.host.reverse = shown texts closeAfter := by
      rw [printed, silent, List.append_nil, List.reverse_reverse]
    refine ⟨values, texts, w₁, lines (shown texts closeAfter), read, count,
      renders.imp fun v text h => toText_of_renders within limit h, ⟨w, run, shows⟩, ?_, toList_lines _⟩
    rw [Command.run, show Act.run (Command.iterate probes closeAfter).act _ _ _ _ = _ from run, ← shows]

/-- A close after two of three values, and a probe that names none. -/
theorem a_close_ends_the_output :
    (Command.iterate ["true", "array", "null"] (some 2)).run {} = ⟨0, "0: true\n1: [object Array]\nclosed: break\n", ""⟩ ∧
      (Command.iterate ["null", "oops"] (some 1)).run {} = ⟨1, "", "invalid probe value `oops`\n"⟩ := by
  have law : IterateLaw ["null", "oops"] (some 1) := iterate_law _ _
  have invalid : Probe.firstInvalid? ["null", "oops"] = some "oops" := by decide +kernel
  have text : "invalid probe value `" ++ "oops" ++ "`\n" = "invalid probe value `oops`\n" := by decide
  have reported := (law.invalid invalid).2
  rw [text] at reported
  exact ⟨by decide +kernel, reported⟩

/-- A close that comes after as many values as there are is still a close. -/
example : shown ["true", "7"] (some 2) = ["0: true", "1: 7", "closed: break"] := by decide

end CommandLine

end EcmaObjects
