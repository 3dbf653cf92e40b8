/-
  EcmaObjects.Proofs.Draining — the list of an iterable's values.

  Draining takes step after step for the value, until one comes to the end or fails. `Act.Yields`
  is a row of steps that each give a value, with all that they ask for; a draining is such a row
  and one step more.
  - `drain_law`: the list holds the values of the row in order, and where the last step fails the
    draining fails with it, under every bound on rounds above the length of the row. After the
    acquisition `next` is called with no arguments, `done` and `value` are read, and nothing else
    is asked for; `return` is never looked up. Over a list iterator the list comes out again.
  - `a_zero_bigInt_ends_a_list`: the exception is that of a single step. A BigInt zero for `done`
    is falsy, and ends the list all the same.
-/

import EcmaObjects.Proofs.Stepping

namespace EcmaObjects

variable {σ : Type}

/-- A request of a step with a record: the call of `next`, with no arguments, or a read of the result. -/
inductive Request.OfStep (r : IteratorRecord) : Request → Prop
  | next (b : Behavior) : OfStep r (.call ⟨b, .object r.iterator, []⟩)
  | done (o : ObjectId) (getter : Option Call) : OfStep r (.read o "done" getter)
  | value (o : ObjectId) (getter : Option Call) : OfStep r (.read o "value" getter)

namespace Act

/-! ## Acquisition -/

/-- Where the method comes from: it is given, or it is read off the value. -/
inductive FindsMethod (env : Env σ) (v : Value) (w : World σ) : Option Value → List Request → Value → World σ → Prop
  | given (method : Value) : FindsMethod env v w (some method) [] method w
  | own {o : ObjectId} {method : Value} {w₁ w₂ : World σ} : toObject v env w = .ok o w₁ →
      get o WellKnown.iterator v env w₁ = .ok method w₂ →
      FindsMethod env v w none
        [.read o WellKnown.iterator (w₁.machine.store.getterCall? WellKnown.iterator env.maxDepth o v)] method w₂

/-- An iterator is acquired: the method is called on the value, and `next` is read off what that gives. -/
inductive Obtains (env : Env σ) (v : Value) (given : Option Value) (w : World σ) :
    List Request → IteratorRecord → World σ → Prop
  | obtains {asked : List Request} {method next : Value} {call : Call} {iterator : ObjectId} {w₁ w₂ w₃ : World σ} :
      FindsMethod env v w given asked method w₁ → w₁.machine.store.callOf? method v [] = some call →
      call.result env w₁ = .ok (.object iterator) w₂ → get iterator "next" (.object iterator) env w₂ = .ok next w₃ →
      Obtains env v given w (asked ++ [.call call, w₂.machine.store.reading env.maxDepth iterator "next"])
        ⟨iterator, next, false⟩ w₃

section
variable {env : Env σ} {v : Value} {given : Option Value} {w w₀ w₁ : World σ} {r : IteratorRecord}

theorem Straight.getIterator_sync (v : Value) (given : Option Value) :
    Straight (getIterator v .sync given : Act σ IteratorRecord) := by
  cases given with
  | some method => exact .acquireWith v method
  | none =>
    refine .bind (.getMethod v _) fun found => ?_
    split
    · exact .acquireWith v _
    · exact .throwCause _

theorem FindsMethod.obtains {asked : List Request} {method : Value} (found : FindsMethod env v w given asked method w₁)
    (h : acquireWith v method env w₁ = .ok r w₀) : ∃ asked, Obtains env v given w asked r w₀ := by
  obtain ⟨u, w₂, called, rest⟩ := bind_eq_ok h
  rw [call_apply] at called
  cases hc : w₁.machine.store.callOf? method v [] with
  | none =>
    rw [hc] at called
    cases called
  | some call =>
    rw [hc] at called
    cases u with
    | object iterator =>
      obtain ⟨next, w₃, read, done⟩ := bind_eq_ok rest
      cases done
      exact ⟨_, .obtains found hc called read⟩
    | _ => cases rest

theorem obtains_of_getIterator (h : getIterator v .sync given env w = .ok r w₀) :
    ∃ asked, Obtains env v given w asked r w₀ := by
  cases given with
  | some method => exact (FindsMethod.given method).obtains h
  | none =>
    obtain ⟨found, w₁, looked, rest⟩ := bind_eq_ok h
    cases found with
    | none => cases rest
    | some method =>
      rw [getMethod_apply] at looked
      cases hv : getV v WellKnown.iterator env w with
      | abrupt c w₂ | fault e w₂ =>
        rw [hv] at looked
        cases looked
      | ok f w₂ =>
        obtain ⟨o, w₃, boxed, read⟩ := bind_eq_ok hv
        rw [hv] at looked
        by_cases nullish : f.isNullish = true
        · simp [nullish] at looked
        by_cases callable : w₂.machine.store.isCallable f = true
        · simp only [nullish, callable, if_true] at looked
          cases looked
          exact (FindsMethod.own boxed read).obtains rest
        · simp [nullish, callable] at looked

theorem toObject_host {o : ObjectId} (h : toObject v env w = .ok o w₁) : w₁.host = w.host := by
  cases v with
  | undefined | null => cases h
  | _ =>
    cases h
    rfl

theorem FindsMethod.shows {asked : List Request} {method : Value} (h : FindsMethod env v w given asked method w₁) :
    env.Shows w w₁ asked := by
  cases h with
  | given => exact .of_host rfl
  | own boxed read => exact (Env.Shows.of_host (toObject_host boxed)).trans (.of_get read)

theorem FindsMethod.unread {asked : List Request} {method : Value} (h : FindsMethod env v w given asked method w₁) :
    ∀ q ∈ asked, q.reads "return" = false := by
  cases h with
  | given => exact fun _ hq => nomatch hq
  | own =>
    intro q hq
    obtain rfl := List.mem_singleton.mp hq
    rfl

theorem Obtains.shows {asked : List Request} (h : Obtains env v given w asked r w₀) : env.Shows w w₀ asked := by
  obtain ⟨found, -, called, read⟩ := h
  exact found.shows.trans ((Env.Shows.of_call called).trans (.of_get read))

theorem Obtains.unread {asked : List Request} (h : Obtains env v given w asked r w₀) :
    ∀ q ∈ asked, q.reads "return" = false := by
  obtain ⟨found, -, -, -⟩ := h
  intro q hq
  rcases List.mem_append.mp hq with before | after
  · exact found.unread q before
  · rcases List.mem_pair.mp after with rfl | rfl <;> rfl

end

/-! ## Rows of steps -/

/-- Steps one after another that each give a value, with all their requests. -/
inductive Yields (env : Env σ) (r : IteratorRecord) : World σ → List Value → List Request → World σ → Prop
  | nil (w : World σ) : Yields env r w [] [] w
  | cons {v : Value} {vs : List Value} {asked more : List Request} {w w₁ w₂ : World σ} :
      Seeks env r w .value asked (.ok (some v) w₁) → Yields env r w₁ vs more w₂ →
      Yields env r w (v :: vs) (asked ++ more) w₂

section
variable {env : Env σ} {r : IteratorRecord} {w w₁ w₂ : World σ} {wanted : Wanted} {vs : List Value}
  {asked last : List Request} {out : Result σ (Option Value)}

theorem callOf?_eq_some {s : Store} {f this : Value} {args : List Value} {call : Call}
    (h : s.callOf? f this args = some call) : ∃ b, call = ⟨b, this, args⟩ := by
  obtain ⟨b, -, rfl⟩ := Option.map_eq_some_iff.mp h
  exact ⟨b, rfl⟩

theorem Seeks.ofStep (h : Seeks env r w wanted asked out) : ∀ q ∈ asked, q.OfStep r := by
  have next {call : Call} (hc : w.machine.store.callOf? r.next (.object r.iterator) [] = some call) :
      (Request.call call).OfStep r := by
    obtain ⟨b, rfl⟩ := callOf?_eq_some hc
    exact .next b
  intro q hq
  cases h with
  | notCallable => cases hq
  | callFails hc _ =>
    obtain rfl := List.mem_singleton.mp hq
    exact next hc
  | notObject hn _ =>
    obtain rfl := List.mem_singleton.mp hq
    exact next hn.called
  | doneFails hn _ | ends hn _ _ | result hn _ _ =>
    rcases List.mem_pair.mp hq with rfl | rfl
    · exact next hn.called
    · exact .done _ _
  | valueFails hn _ _ _ | value hn _ _ _ =>
    rcases List.mem_cons.mp hq with rfl | hq
    · exact next hn.called
    · rcases List.mem_pair.mp hq with rfl | rfl
      · exact .done _ _
      · exact .value _ _

theorem Yields.ofStep (h : Yields env r w vs asked w₁) : ∀ q ∈ asked, q.OfStep r := by
  induction h with
  | nil => exact fun _ hq => nomatch hq
  | cons first _ ih => exact fun q hq => (List.mem_append.mp hq).elim (first.ofStep q) (ih q)

theorem Yields.shows (h : Yields env r w vs asked w₁) : env.Shows w w₁ asked := by
  induction h with
  | nil => exact .of_host rfl
  | cons first _ ih => exact first.shows.trans ih

theorem Yields.counts (h : Yields env r w vs asked w₁) :
    asked.countP Request.isCall = vs.length ∧ asked.countP (Request.reads "value") = vs.length := by
  induction h with
  | nil => exact ⟨rfl, rfl⟩
  | cons first _ ih =>
    have one : ∀ {asked : List Request} {v : Value} {w w₁ : World σ}, Seeks env r w .value asked (.ok (some v) w₁) →
        asked.countP Request.isCall = 1 ∧ asked.countP (Request.reads "value") = 1 := by
      intro asked v w w₁ h
      cases h with
      | callFails _ hf | doneFails _ hf | valueFails _ _ _ hf => cases hf
      | value => exact ⟨rfl, rfl⟩
    obtain ⟨calls, reads⟩ := one first
    rw [List.countP_append, List.countP_append, calls, reads, ih.1, ih.2, List.length_cons, Nat.add_comm]
    exact ⟨rfl, rfl⟩

theorem Seeks.counts_of_end (h : Seeks env r w .value last (.ok none w₁)) :
    last.countP Request.isCall = 1 ∧ last.countP (Request.reads "value") = 0 := by
  cases h with
  | callFails _ hf | doneFails _ hf | valueFails _ _ _ hf => cases hf
  | ends => exact ⟨rfl, rfl⟩

/-! ## Draining -/

theorem Straight.seek (r : IteratorRecord) (wanted : Wanted) : Straight (seek r wanted : Act σ (Option Value)) := by
  have next : Straight (Act.next r none : Act σ ObjectId) := by
    refine .bind (.call _ _ _) fun u => ?_
    split
    · exact .ret _
    · exact .throwCause _
  have advance : Straight (Act.advance r : Act σ (Option ObjectId)) :=
    .bind next fun result => .bind (.bind (.get _ _ _) fun _ => .ret _) fun _ => .ret _
  refine .bind advance fun item => ?_
  split
  · refine .bind ?_ fun _ => .ret _
    cases wanted with
    | result => exact .ret _
    | value => exact .get _ _ _
  · exact .ret _

theorem drain_succ (r : IteratorRecord) (n m : Nat) (collected : List Value) (env : Env σ) (w : World σ) :
    drain r (n + 1) collected { env with rounds := m } w = match seek r .value env w with
      | .ok (some v) w₁ => drain r n (v :: collected) { env with rounds := m } w₁
      | .ok none w₁ => .ok collected.reverse w₁
      | .abrupt c w₁ => .abrupt c w₁
      | .fault e w₁ => .fault e w₁ := by
  have same : (advanceValue r : Act σ (Option Value)) = seek r .value := rfl
  simp only [drain_step, bind_apply, same, (Straight.seek r .value).any_rounds]
  cases seek r .value env w with
  | abrupt c w₁ | fault e w₁ => rfl
  | ok item w₁ => cases item <;> rfl

/-- By induction on the row: a round for each value. -/
theorem Yields.drain (h : Yields env r w vs asked w₁) (n m : Nat) (collected : List Value) :
    drain r (vs.length + n) collected { env with rounds := m } w =
      drain r n (vs.reverse ++ collected) { env with rounds := m } w₁ := by
  induction h generalizing collected with
  | nil => rw [List.length_nil, Nat.zero_add, List.reverse_nil, List.nil_append]
  | @cons v vs asked more w w₁ w₂ first _ ih =>
    have rounds : (v :: vs).length + n = (vs.length + n) + 1 := by
      rw [List.length_cons]
      omega
    rw [rounds, drain_succ, first.apply, List.reverse_cons, List.append_assoc, List.singleton_append]
    exact ih (v :: collected)

/-- Any number of steps is a row, or a shorter row and a step that gives no value. -/
theorem Yields.exists (env : Env σ) (r : IteratorRecord) (w : World σ) (n : Nat) :
    ∃ vs asked w₁, Yields env r w vs asked w₁ ∧ (vs.length = n ∨
      vs.length < n ∧ ∃ last out, Seeks env r w₁ .value last out ∧ ∀ v w₂, out ≠ .ok (some v) w₂) := by
  induction n generalizing w with
  | zero => exact ⟨[], [], w, .nil w, Or.inl rfl⟩
  | succ n ih =>
    obtain ⟨asked, first⟩ := seek_seeks r .value env w
    by_cases given : ∃ v w₁, seek r .value env w = .ok (some v) w₁
    · obtain ⟨v, w₁, hv⟩ := given
      rw [hv] at first
      obtain ⟨vs, more, w₂, row, ending⟩ := ih w₁
      refine ⟨v :: vs, asked ++ more, w₂, .cons first row, ?_⟩
      rw [List.length_cons]
      rcases ending with full | ⟨short, last⟩
      · exact Or.inl (by omega)
      · exact Or.inr ⟨by omega, last⟩
    · exact ⟨[], [], w, .nil w, Or.inr ⟨Nat.succ_pos n, asked, _, first, fun v w₁ hv => given ⟨v, w₁, hv⟩⟩⟩

theorem yields_list {items : List Value} {k : Nat} (env : Env σ) (host : Host σ)
    (hl : w.machine.store.ListAt r.iterator items k) (hn : w.machine.store.IsListNext r.next) :
    ∃ asked last w₁ w₂, Yields (env.over host) r w (items.drop k) asked w₁ ∧
      Seeks (env.over host) r w₁ .value last (.ok none w₂) := by
  have step {k : Nat} {w : World σ} (hl : w.machine.store.ListAt r.iterator items k)
      (hn : w.machine.store.IsListNext r.next) : ∃ asked w', Seeks (env.over host) r w .value asked (.ok items[k]? w') ∧
        w'.machine.store.ListAt r.iterator items (k + 1) ∧ w'.machine.store.IsListNext r.next := by
    obtain ⟨o, w', called, result, moved, run⟩ := call_list env host hl hn
    obtain ⟨asked, seeks⟩ := seek_seeks r .value (env.over host) w
    have gave : seek r .value (env.over host) w = .ok items[k]? w' := advanceValue_of_result called result
    rw [gave] at seeks
    exact ⟨asked, w', seeks, moved, run.behavior? hn⟩
  induction left : items.drop k generalizing k w with
  | nil =>
    obtain ⟨last, w', seeks, -⟩ := step hl hn
    rw [← List.head?_drop, left] at seeks
    exact ⟨[], last, w, w', .nil w, seeks⟩
  | cons v vs ih =>
    obtain ⟨asked, w', seeks, moved, next⟩ := step hl hn
    rw [← List.head?_drop, left] at seeks
    have rest : items.drop (k + 1) = vs := by rw [← List.tail_drop, left, List.tail_cons]
    obtain ⟨more, last, w₁, w₂, row, ending⟩ := ih moved next rest
    exact ⟨asked ++ more, last, w₁, w₂, .cons seeks row, ending⟩

end

/-! ## The law of draining -/

theorem iterableToList_eq (v : Value) (given : Option Value) :
    (iterableToList v given : Act σ (List Value)) = (do drain (← getIterator v .sync given) (← rounds) []) := by
  cases given <;> rfl

theorem iterableToList_apply {env : Env σ} {v : Value} {given : Option Value} {w w₀ : World σ} {r : IteratorRecord}
    (h : getIterator v .sync given env w = .ok r w₀) (m : Nat) :
    iterableToList v given { env with rounds := m } w = drain r m [] { env with rounds := m } w₀ := by
  have acquired : getIterator v .sync given { env with rounds := m } w = .ok r w₀ := by
    rw [(Straight.getIterator_sync v given).any_rounds, h]
  rw [iterableToList_eq]
  simp only [bind_apply, acquired, rounds_apply]

/-- What draining comes to from where its iterator `r` is acquired, which takes the first requests. -/
structure DrainLaw (env : Env σ) (v : Value) (given : Option Value) (w : World σ) (first : List Request)
    (r : IteratorRecord) (w₀ : World σ) : Prop where
  acquired : Obtains env v given w first r w₀
  ends {vs : List Value} {asked last : List Request} {w₁ w₂ : World σ} :
    Yields env r w₀ vs asked w₁ → Seeks env r w₁ .value last (.ok none w₂) →
    (∀ m, vs.length < m → iterableToList v given { env with rounds := m } w = .ok vs w₂) ∧
      (asked ++ last).countP Request.isCall = vs.length + 1 ∧
      (asked ++ last).countP (Request.reads "value") = vs.length
  fails {vs : List Value} {asked last : List Request} {w₁ : World σ} {step : Result σ (Option Value)}
    {out : Result σ (List Value)} :
    Yields env r w₀ vs asked w₁ → Seeks env r w₁ .value last step → step.Fails out →
    ∀ m, vs.length < m → iterableToList v given { env with rounds := m } w = out
  notObject {vs : List Value} {asked : List Request} {call : Call} {u : Value} {w₁ w₂ : World σ} :
    Yields env r w₀ vs asked w₁ → NextGives env r w₁ call u w₂ → u.isObject = false →
    ∃ e w₃, w₂.Raises .typeError .resultNotObject e w₃ ∧
      ∀ m, vs.length < m → iterableToList v given { env with rounds := m } w = .abrupt (.thrown (.object e)) w₃
  /-- However the last step ends, these are all requests. -/
  asks {vs : List Value} {asked last : List Request} {w₁ : World σ} {step : Result σ (Option Value)} :
    Yields env r w₀ vs asked w₁ → Seeks env r w₁ .value last step →
    env.Shows w step.world (first ++ (asked ++ last)) ∧ (∀ q ∈ asked ++ last, q.OfStep r) ∧
      ∀ q ∈ first ++ (asked ++ last), q.reads "return" = false
  /-- A draining has one of these ends, unless the values are more than the rounds. -/
  total (m : Nat) : ∃ vs asked w₁, Yields env r w₀ vs asked w₁ ∧
    (vs.length = m ∧ iterableToList v given { env with rounds := m } w = .fault .exhausted w₁ ∨
      vs.length < m ∧ ∃ last step, Seeks env r w₁ .value last step ∧ ∀ v w₂, step ≠ .ok (some v) w₂)
  list {items : List Value} {inner : Env σ} {host : Host σ} : env = inner.over host →
    w₀.machine.store.ListAt r.iterator items 0 → w₀.machine.store.IsListNext r.next →
    ∃ w', ∀ m, items.length < m → iterableToList v given { env with rounds := m } w = .ok items w'

/-- Where an iterator is acquired, draining is a row of its steps and one step more. -/
theorem drain_law {env : Env σ} {v : Value} {given : Option Value} {w w₀ : World σ} {r : IteratorRecord}
    (h : getIterator v .sync given env w = .ok r w₀) : ∃ first, DrainLaw env v given w first r w₀ := by
  have run {vs : List Value} {asked : List Request} {w₁ : World σ} (row : Yields env r w₀ vs asked w₁) {m : Nat}
      (hm : vs.length < m) : ∃ n, iterableToList v given { env with rounds := m } w =
        drain r (n + 1) (vs.reverse ++ []) { env with rounds := m } w₁ := by
    obtain ⟨n, rfl⟩ : ∃ n, m = vs.length + (n + 1) := ⟨m - vs.length - 1, by omega⟩
    exact ⟨n, (iterableToList_apply h _).trans (row.drain (n + 1) _ [])⟩
  have ends {vs : List Value} {asked last : List Request} {w₁ w₂ : World σ} (row : Yields env r w₀ vs asked w₁)
      (ending : Seeks env r w₁ .value last (.ok none w₂)) (m : Nat) (hm : vs.length < m) :
      iterableToList v given { env with rounds := m } w = .ok vs w₂ := by
    obtain ⟨n, drained⟩ := run row hm
    rw [drained, drain_succ, ending.apply, List.append_nil, List.reverse_reverse]
  have fails {vs : List Value} {asked last : List Request} {w₁ : World σ} {step : Result σ (Option Value)}
      {out : Result σ (List Value)} (row : Yields env r w₀ vs asked w₁) (ending : Seeks env r w₁ .value last step)
      (failed : step.Fails out) (m : Nat) (hm : vs.length < m) :
      iterableToList v given { env with rounds := m } w = out := by
    obtain ⟨n, drained⟩ := run row hm
    rw [drained, drain_succ, ending.apply]
    cases failed with
    | abrupt hs | fault hs => rw [hs]
  obtain ⟨first, acquired⟩ := obtains_of_getIterator h
  refine ⟨first, acquired, fun row ending => ⟨ends row ending, ?_⟩, fails, ?_, ?_, ?_, ?_⟩
  · obtain ⟨calls, reads⟩ := row.counts
    obtain ⟨lastCalls, lastReads⟩ := ending.counts_of_end
    rw [List.countP_append, List.countP_append, calls, reads, lastCalls, lastReads]
    exact ⟨rfl, rfl⟩
  · intro vs asked call u w₁ w₂ row gave hu
    have raised : w₂.Raises .typeError .resultNotObject _ _ := w₂.raises_withError .resultNotObject
    exact ⟨_, _, raised, fails row (.notObject gave hu raised) (.abrupt rfl)⟩
  · intro vs asked last w₁ step row ending
    have ofStep : ∀ q ∈ asked ++ last, q.OfStep r :=
      fun q hq => (List.mem_append.mp hq).elim (row.ofStep q) (ending.ofStep q)
    refine ⟨acquired.shows.trans (row.shows.trans ending.shows), ofStep, fun q hq => ?_⟩
    rcases List.mem_append.mp hq with before | after
    · exact acquired.unread q before
    · cases ofStep q after <;> rfl
  · intro m
    obtain ⟨vs, asked, w₁, row, full | short⟩ := Yields.exists env r w₀ m
    · refine ⟨vs, asked, w₁, row, Or.inl ⟨full, ?_⟩⟩
      rw [iterableToList_apply h, ← full]
      exact row.drain 0 _ []
    · exact ⟨vs, asked, w₁, row, Or.inr short⟩
  · rintro items inner host rfl hl hn
    obtain ⟨asked, last, w₁, w₂, row, ending⟩ := yields_list inner host hl hn
    exact ⟨w₂, ends row ending⟩

/-- An iterable that is its own iterator, over a list of one item. -/
theorem a_list_comes_out_again :
    let env : Env Unit := .ofHost idle ⟨8⟩ ⟨64, 64⟩
    let next : Object := .ofFunction ⟨"next", 0, .builtin .listNext⟩
    let iterable : Object := { Object.ofList [.null] with properties := ⟨[("next", .plain (.object ⟨25⟩))]⟩ }
    let w : World Unit := ⟨{ store := (Realm.store.add next).add iterable }, ()⟩
    getIterator (.object ⟨26⟩) .sync (some (.object ⟨18⟩)) env w = .ok ⟨⟨26⟩, .object ⟨25⟩, false⟩ w ∧
      ∃ w', ∀ m, 1 < m →
        iterableToList (.object ⟨26⟩) (some (.object ⟨18⟩)) { env with rounds := m } w = .ok [.null] w' := by
  intro env next iterable w
  have acquired : getIterator (.object ⟨26⟩) .sync (some (.object ⟨18⟩)) env w =
      .ok ⟨⟨26⟩, .object ⟨25⟩, false⟩ w := rfl
  obtain ⟨first, law⟩ := drain_law acquired
  exact ⟨acquired, law.list (Env.ofHost_succ idle ⟨8⟩ 63 64) rfl rfl⟩

/-- The first result has the BigInt zero for `done`, which is falsy, and a value; the second one is
    done. So the list should have that value, and it has none. -/
theorem a_zero_bigInt_ends_a_list :
    let host : Host Bool := fun _ _ _ => return .object (if ← withHost fun again => (again, true) then ⟨26⟩ else ⟨25⟩)
    let env : Env Bool := .ofHost host ⟨8⟩ ⟨64, 64⟩
    let first : Object := { properties := ⟨[("done", .plain (.bigInt 0)), ("value", .plain .null)]⟩ }
    let second : Object := { properties := ⟨[("done", .plain (.boolean true))]⟩ }
    let iterable : Object := { properties := ⟨[("next", .plain (.object ⟨27⟩))]⟩ }
    let s := (((Realm.store.add first).add second).add (.ofFunction ⟨"next", 0, .host 0⟩)).add iterable
    let w (again : Bool) : World Bool := ⟨{ store := s }, again⟩
    let r : IteratorRecord := ⟨⟨28⟩, .object ⟨27⟩, false⟩
    (Value.bigInt 0).Falsy ∧
      getIterator (.object ⟨28⟩) .sync (some (.object ⟨18⟩)) env (w false) = .ok r (w false) ∧
      next r none env (w false) = .ok ⟨25⟩ (w true) ∧
      get ⟨25⟩ "done" (.object ⟨25⟩) env (w true) = .ok (.bigInt 0) (w true) ∧
      get ⟨25⟩ "value" (.object ⟨25⟩) env (w true) = .ok .null (w true) ∧
      next r none env (w true) = .ok ⟨26⟩ (w true) ∧
      get ⟨26⟩ "done" (.object ⟨26⟩) env (w true) = .ok (.boolean true) (w true) ∧
      iterableToList (.object ⟨28⟩) (some (.object ⟨18⟩)) env (w false) = .ok [] (w true) :=
  ⟨.bigIntZero, rfl, rfl, rfl, rfl, rfl, rfl, rfl⟩

end Act
end EcmaObjects
