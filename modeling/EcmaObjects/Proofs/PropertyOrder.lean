/-
  EcmaObjects.Proofs.PropertyOrder — the order of the properties is in step with the map.

  A property table is two things to its users: a map from keys, and the keys in the order
  in which they came. A ledger keeps them apart, as two structures (`Ledger`). It is written
  in two ways, by definition and by plain insertion, and each of them finds out for itself
  whether the key is new and enters it in the order if it is. A table is one list, from which
  both are read, and does what its ledger does (`PropertyTable.ledger_define?`,
  `PropertyTable.ledger_insert`); so what is shown of ledgers holds of the tables that run.
  - `Ledger.InStep`: the order lists each key of the map once, and no other key. Every write
    keeps it, in whichever of its ways it goes (`Ledger.InStep.write`).
  - `Ledger.Grows`: the order of before is the first part of the order after, and what comes
    then are the keys that are new to the map. A write adds at most its own key
    (`Ledger.Write.grows`), and any run adds what it creates (`Object.grows_of_steps`).
  - `property_order_law`: both of every object, over every run with any host code, and over
    each operation by itself.
-/

import EcmaObjects.Proofs.Public
import EcmaObjects.Proofs.Refusal

namespace EcmaObjects

open Relation (ReflTransGen)

variable {R : Rules} {σ : Type}

/-! ## Ledgers -/

/-- The properties and the order of their creation, kept apart. -/
structure Ledger where
  slots : PropertyKey → Option Descriptor
  order : List PropertyKey

namespace Ledger

/-- The map with one slot filled. -/
def fill (l : Ledger) (k : PropertyKey) (d : Descriptor) : PropertyKey → Option Descriptor :=
  fun j => if j = k then some d else l.slots j

/-- The ledger after a definition, or `none` if the definition is refused. -/
def define? (l : Ledger) (extensible : Bool) (k : PropertyKey) (d : Descriptor) : Option Ledger :=
  match l.slots k with
  | some current => if current.admits d then some { l with slots := l.fill k (current.merge d) } else none
  | none => if extensible then some { slots := l.fill k d.complete, order := l.order ++ [k] } else none

/-- Stores a property with no checks. -/
def insert (l : Ledger) (k : PropertyKey) (d : Descriptor) : Ledger where
  slots := l.fill k d
  order := if (l.slots k).isSome then l.order else l.order ++ [k]

/-- A granted write at a key. -/
inductive Write (k : PropertyKey) : Ledger → Ledger → Prop
  | define {l l' : Ledger} {extensible : Bool} {d : Descriptor} : l.define? extensible k d = some l' → Write k l l'
  | insert (l : Ledger) (d : Descriptor) : Write k l (l.insert k d)

/-- Each key of the map is once in the order, and no other key is there. -/
def InStep (l : Ledger) : Prop := ∀ k, l.order.count k = if (l.slots k).isSome then 1 else 0

/-- No property is lost or moves, and the keys of the new ones come last. -/
structure Grows (l l' : Ledger) (created : List PropertyKey) : Prop where
  order : l'.order = l.order ++ created
  created_iff {k : PropertyKey} : k ∈ created ↔ l.slots k = none ∧ l'.slots k ≠ none
  kept {k : PropertyKey} : l.slots k ≠ none → l'.slots k ≠ none

/-- The key, if the first ledger has no property there and the second has. -/
def created (l l' : Ledger) (k : PropertyKey) : List PropertyKey :=
  if l.slots k = none ∧ l'.slots k ≠ none then [k] else []

/-! ## Writes -/

section
variable {l l' : Ledger} {k : PropertyKey}

@[simp] theorem fill_self (l : Ledger) (k : PropertyKey) (d : Descriptor) : l.fill k d k = some d := if_pos rfl

theorem fill_of_ne {j : PropertyKey} (h : j ≠ k) (l : Ledger) (d : Descriptor) : l.fill k d j = l.slots j := if_neg h

/-- Either way of writing fills the slot, and enters a key in the order that had none. -/
theorem Write.effect (h : Write k l l') :
    ∃ d, l'.slots = l.fill k d ∧ l'.order = if l.slots k = none then l.order ++ [k] else l.order := by
  cases h with
  | @define _ extensible d h =>
    unfold define? at h
    cases hk : l.slots k with
    | some current =>
      simp only [hk] at h
      split at h
      · cases h
        exact ⟨current.merge d, rfl, (if_neg nofun).symm⟩
      · cases h
    | none =>
      simp only [hk] at h
      split at h
      · cases h
        exact ⟨d.complete, rfl, (if_pos rfl).symm⟩
      · cases h
  | insert d =>
    refine ⟨d, rfl, ?_⟩
    cases hk : l.slots k with
    | some current => simp [Ledger.insert, hk]
    | none => simp [Ledger.insert, hk]

theorem InStep.write (h : l.InStep) (hw : Write k l l') : l'.InStep := by
  obtain ⟨d, slots, order⟩ := hw.effect
  intro j
  rw [slots, order]
  by_cases hj : j = k
  · subst hj
    rw [fill_self]
    cases hk : l.slots j with
    | some current =>
      have once : l.order.count j = 1 := by simpa [hk] using h j
      simpa using once
    | none =>
      have nowhere : l.order.count j = 0 := by simpa [hk] using h j
      simp [nowhere]
  · rw [fill_of_ne hj, ← h j]
    split
    · rw [List.count_append, List.count_singleton]
      simp [Ne.symm hj]
    · rfl

theorem Write.grows (h : Write k l l') : l.Grows l' (l.created l' k) := by
  obtain ⟨d, slots, order⟩ := h.effect
  have filled : l'.slots k ≠ none := by
    rw [slots, fill_self]
    exact nofun
  have others {j : PropertyKey} (hj : j ≠ k) : l'.slots j = l.slots j := by
    rw [slots, fill_of_ne hj]
  refine ⟨?order, ?created_iff, ?kept⟩
  case order =>
    rw [order, created]
    by_cases hk : l.slots k = none
    · rw [if_pos hk, if_pos ⟨hk, filled⟩]
    · rw [if_neg hk, if_neg (fun both => hk both.1), List.append_nil]
  case created_iff =>
    intro j
    by_cases hj : j = k
    · subst hj
      simp [created, filled]
    · have never : ¬ (l.slots j = none ∧ l'.slots j ≠ none) := by
        rw [others hj]
        exact fun both => both.2 both.1
      refine iff_of_false (fun member => hj ?_) never
      unfold created at member
      split at member
      · exact List.mem_singleton.mp member
      · cases member
  case kept =>
    intro j there
    by_cases hj : j = k
    · exact hj ▸ filled
    · rw [others hj]
      exact there

theorem created_self (l : Ledger) (k : PropertyKey) : l.created l k = [] :=
  if_neg fun both => both.2 both.1

theorem Grows.refl (l : Ledger) : l.Grows l [] where
  order := (List.append_nil _).symm
  created_iff := iff_of_false List.not_mem_nil fun both => both.2 both.1
  kept there := there

theorem Grows.trans {l l₁ l₂ : Ledger} {first second : List PropertyKey} (h : l.Grows l₁ first)
    (h' : l₁.Grows l₂ second) : l.Grows l₂ (first ++ second) where
  order := by rw [h'.order, h.order, List.append_assoc]
  created_iff {k} := by
    rw [List.mem_append, h.created_iff, h'.created_iff]
    constructor
    · rintro (⟨absent, there⟩ | ⟨absent, there⟩)
      · exact ⟨absent, h'.kept there⟩
      · exact ⟨Decidable.byContradiction fun before => h.kept before absent, there⟩
    · rintro ⟨absent, there⟩
      by_cases between : l₁.slots k = none
      · exact Or.inr ⟨between, there⟩
      · exact Or.inl ⟨absent, between⟩
  kept there := h'.kept (h.kept there)

end
end Ledger

/-! ## Tables are ledgers -/

namespace PropertyTable

/-- What a table is to its users. -/
def ledger (t : PropertyTable) : Ledger := ⟨t.get?, t.keys⟩

theorem isSome_get?_iff {t : PropertyTable} {k : PropertyKey} : (t.get? k).isSome = true ↔ k ∈ t.keys := by
  rw [get?, List.lookup_isSome_iff, keys, List.mem_map]
  simp only [beq_iff_eq, eq_comm (a := k)]

/-- A key that is there is overwritten in place, a new one goes to the end. -/
theorem keys_insert (t : PropertyTable) (k : PropertyKey) (d : Descriptor) :
    (t.insert k d).keys = if k ∈ t.keys then t.keys else t.keys ++ [k] := by
  show (put k d t.entries).map (·.1) = if k ∈ t.entries.map (·.1) then t.entries.map (·.1) else t.entries.map (·.1) ++ [k]
  induction t.entries with
  | nil => rfl
  | cons e rest ih =>
    by_cases he : e.1 = k
    · simp [put, he]
    · rw [put, if_neg he, List.map_cons, ih, List.map_cons]
      by_cases hk : k ∈ rest.map (·.1)
      · rw [if_pos hk, if_pos (List.mem_cons_of_mem _ hk)]
      · rw [if_neg hk, if_neg (by simpa [Ne.symm he] using hk), List.cons_append]

theorem ledger_insert (t : PropertyTable) (k : PropertyKey) (d : Descriptor) :
    (t.insert k d).ledger = t.ledger.insert k d := by
  have slots : (t.insert k d).get? = t.ledger.fill k d := by
    funext j
    exact get?_insert t k d j
  have order : (t.insert k d).keys = if (t.get? k).isSome then t.keys else t.keys ++ [k] := by
    simp only [keys_insert, isSome_get?_iff]
  exact congrArg₂ Ledger.mk slots order

theorem ledger_define? (t : PropertyTable) (extensible : Bool) (k : PropertyKey) (d : Descriptor) :
    (t.define? extensible k d).map ledger = t.ledger.define? extensible k d := by
  have found : t.ledger.slots k = t.get? k := rfl
  unfold define? Ledger.define?
  rw [found]
  cases hk : t.get? k with
  | some current =>
    have kept : (t.insert k (current.merge d)).ledger = { t.ledger with slots := t.ledger.fill k (current.merge d) } := by
      simp [ledger_insert, Ledger.insert, found, hk]
    by_cases admitted : current.admits d = true
    · simp [admitted, kept]
    · simp [admitted]
  | none =>
    have entered : (t.insert k d.complete).ledger = ⟨t.ledger.fill k d.complete, t.ledger.order ++ [k]⟩ := by
      simp [ledger_insert, Ledger.insert, found, hk]
    cases extensible with
    | true => exact congrArg some entered
    | false => rfl

/-- A table with no key twice is in step. -/
theorem inStep_of_nodup {t : PropertyTable} (h : t.keys.Nodup) : t.ledger.InStep := by
  intro k
  show t.keys.count k = if (t.get? k).isSome then 1 else 0
  simp only [h.count, isSome_get?_iff]

end PropertyTable

/-! ## Objects -/

namespace Object

def ledger (obj : Object) : Ledger := obj.properties.ledger

theorem ledger_insert (obj : Object) (k : PropertyKey) (d : Descriptor) :
    (obj.insert k d).ledger = obj.ledger.insert k d := obj.properties.ledger_insert k d

/-- An accepted definition writes the ledger at its key, or goes by the ledger altogether. -/
theorem ledger_define? {obj obj' : Object} {k : PropertyKey} {d : Descriptor} (h : obj.define? k d = some obj') :
    obj'.ledger = obj.ledger ∨ Ledger.Write k obj.ledger obj'.ledger := by
  rcases define?_cases h with ⟨e, e', x, -, -, -, rfl⟩ | ⟨t, x, c, -, -, -, -, rfl⟩ | ⟨-, -, t, ht, rfl⟩
  · exact Or.inl rfl
  · exact Or.inl rfl
  · have written := obj.properties.ledger_define? obj.extensible k d
    rw [ht] at written
    exact Or.inr (.define written.symm)

theorem Step.ledger {obj obj' : Object} (h : obj.Step R obj') :
    obj'.ledger = obj.ledger ∨ ∃ k, Ledger.Write k obj.ledger obj'.ledger := by
  cases h with
  | @define _ k _ _ hd => exact (ledger_define? hd).imp_right fun written => ⟨k, written⟩
  | advance hn =>
    obtain ⟨i, rfl⟩ := nextItem?_frame hn
    exact Or.inl rfl
  | reparent | prevent => exact Or.inl rfl
  | insert k d =>
    right
    rw [ledger_insert]
    exact ⟨k, .insert _ d⟩

theorem Step.inStep {obj obj' : Object} (h : obj.Step R obj') (hs : obj.ledger.InStep) : obj'.ledger.InStep := by
  rcases h.ledger with same | ⟨k, written⟩
  · rw [same]
    exact hs
  · exact hs.write written

theorem Step.grows {obj obj' : Object} (h : obj.Step R obj') : ∃ created, obj.ledger.Grows obj'.ledger created := by
  rcases h.ledger with same | ⟨k, written⟩
  · rw [same]
    exact ⟨[], .refl _⟩
  · exact ⟨_, written.grows⟩

theorem grows_of_steps {obj obj' : Object} (h : ReflTransGen (Object.Step R) obj obj') :
    ∃ created, obj.ledger.Grows obj'.ledger created := by
  induction h with
  | refl => exact ⟨[], .refl _⟩
  | tail _ hs ih =>
    obtain ⟨first, before⟩ := ih
    obtain ⟨second, after⟩ := hs.grows
    exact ⟨first ++ second, before.trans after⟩

theorem Born.inStep {obj : Object} (h : obj.Born) : obj.ledger.InStep := by
  apply PropertyTable.inStep_of_nodup
  cases h with
  | plain | array => exact List.nodup_nil
  | function f p => exact show List.Nodup (["length", "name"] : List PropertyKey) by decide
  | error t message p => exact show List.Nodup (["message"] : List PropertyKey) by decide

end Object

theorem Realm.objects_inStep {obj : Object} (h : obj ∈ Realm.objects) : obj.ledger.InStep := by
  have all : ∀ obj ∈ Realm.objects, obj.properties.keys.Nodup := by decide
  exact PropertyTable.inStep_of_nodup (all obj h)

theorem Machine.Reachable.inStep {m : Machine} (h : m.Reachable R) {o : ObjectId} {obj : Object}
    (ho : m.store.get? o = some obj) : obj.ledger.InStep :=
  h.all (fun _ => Realm.objects_inStep) (fun _ hb => hb.inStep) (fun _ _ hs => hs.inStep) ho

/-! ## Operations -/

/-- The objects of `s` are in `s'`; the one at `o`, if any, may have a property at `k` that is
    new, and the others are as they were. -/
structure Store.WrittenAt (s : Store) (o : Option ObjectId) (k : PropertyKey) (s' : Store) : Prop where
  there {p : ObjectId} {obj : Object} : o = some p → s.get? p = some obj →
    ∃ obj', s'.get? p = some obj' ∧ obj.ledger.Grows obj'.ledger (obj.ledger.created obj'.ledger k)
  others {p : ObjectId} {obj : Object} : o ≠ some p → s.get? p = some obj → s'.get? p = some obj

namespace Store.WrittenAt

theorem of_kept {s s' : Store} (h : ∀ p obj, s.get? p = some obj → s'.get? p = some obj) (o : Option ObjectId)
    (k : PropertyKey) : s.WrittenAt o k s' where
  there {p obj} _ ho := by
    refine ⟨obj, h p obj ho, ?_⟩
    rw [Ledger.created_self]
    exact .refl _
  others {p obj} _ ho := h p obj ho

theorem modify {s : Store} {o : ObjectId} {k : PropertyKey} {f : Object → Object}
    (h : ∀ obj, s.get? o = some obj → (f obj).ledger = obj.ledger ∨ Ledger.Write k obj.ledger (f obj).ledger) :
    s.WrittenAt (some o) k (s.modify o f) where
  there {p obj} hp ho := by
    cases hp
    refine ⟨f obj, Store.get?_modify_self ho f, ?_⟩
    rcases h obj ho with same | written
    · rw [same, Ledger.created_self]
      exact .refl _
    · exact written.grows
  others {p obj} hp ho := by
    rw [Store.get?_modify, if_neg fun e => hp (congrArg some e.symm)]
    exact ho

theorem insert (s : Store) (o : ObjectId) (k : PropertyKey) (d : Descriptor) :
    s.WrittenAt (some o) k (s.modify o (·.insert k d)) :=
  modify fun obj _ => Or.inr (obj.ledger_insert k d ▸ .insert _ d)

end Store.WrittenAt

namespace Act

variable (env : Env σ) (w : World σ)

/-- A definition writes at its key, whether it is granted or refused. -/
theorem define_writtenAt (o : ObjectId) (k : PropertyKey) (d : Descriptor) :
    w.machine.store.WrittenAt (some o) k (define o k d env w).world.machine.store := by
  rw [define_apply]
  cases hs : w.machine.store.define? o k d with
  | none => exact .of_kept (fun _ _ ho => ho) _ _
  | some s =>
    obtain ⟨obj, obj', ho, hd, rfl⟩ := Store.define?_eq_some.mp hs
    refine .modify fun obj₁ h₁ => ?_
    cases ho.symm.trans h₁
    exact Object.ledger_define? hd

theorem assign_writtenAt (receiver : Value) (k : PropertyKey) (v : Value) :
    w.machine.store.WrittenAt receiver.object? k (assign receiver k v env w).world.machine.store := by
  have refused : w.machine.store.WrittenAt receiver.object? k w.machine.store := .of_kept (fun _ _ ho => ho) _ _
  unfold assign
  split
  · rename_i r
    simp only [getOwn, bind_apply, store_apply, pure_apply]
    cases w.machine.store.own? r k with
    | none => exact define_writtenAt env w r k _
    | some existing =>
      cases h : existing.isAccessor || existing.writable == some false with
      | true =>
        simp only [h, if_true]
        exact refused
      | false =>
        simp only [h, Bool.false_eq_true, if_false]
        exact define_writtenAt env w r k _
  · exact refused

/-- A write that calls no setter writes at its key on the receiver, and nowhere else. -/
theorem set_writtenAt {o : ObjectId} {k : PropertyKey} {v receiver : Value}
    (silent : w.machine.store.setterCall? k env.maxDepth o v receiver = none) :
    w.machine.store.WrittenAt receiver.object? k (set o k v receiver env w).world.machine.store := by
  have refused : w.machine.store.WrittenAt receiver.object? k w.machine.store := .of_kept (fun _ _ ho => ho) _ _
  have failed (cause : Cause) : w.machine.store.WrittenAt receiver.object? k (w.withError cause).machine.store :=
    .of_kept (fun _ _ ho => Store.get?_add_of_some ho _) _ _
  simp only [set, bind_apply, store_apply, maxDepth_apply]
  rw [Store.setterCall?] at silent
  cases hf : w.machine.store.findForWrite k env.maxDepth o with
  | absent => exact assign_writtenAt env w receiver k v
  | tooDeep => exact failed .chainTooDeep
  | found d =>
    simp only [hf] at silent
    simp only [assignThrough]
    split
    · split
      · exact refused
      · exact assign_writtenAt env w receiver k v
    · rename_i accessor
      rw [if_neg accessor, Option.map_eq_none_iff] at silent
      cases hs : d.setter.getD .undefined with
      | undefined => exact refused
      | _ =>
        simp only [bind_apply]
        rw [call_of_none (hs ▸ silent)]
        exact failed .notCallable

end Act

/-! ## The law -/

/-- The order of the properties in a world, and over all that may be done in it. -/
structure World.OrderLaw (R : Rules) (host : Host σ) (config : Config) (budget : Budget) (w : World σ) : Prop where
  inStep {o : ObjectId} {obj : Object} : w.machine.store.get? o = some obj → obj.ledger.InStep
  /-- A run leaves the order as the first part of the order then; what follows are the keys that it created. -/
  run {α : Type} {x : Act σ α} {o : ObjectId} {obj : Object} : x.Public R → w.machine.store.get? o = some obj →
    ∃ obj' created, (x.storeAfter host config budget w).get? o = some obj' ∧ obj'.ledger.InStep ∧
      obj.ledger.Grows obj'.ledger created
  define (env : Env σ) (o : ObjectId) (k : PropertyKey) (d : Descriptor) :
    w.machine.store.WrittenAt (some o) k (Act.define o k d env w).world.machine.store
  insert (o : ObjectId) (k : PropertyKey) (d : Descriptor) :
    w.machine.store.WrittenAt (some o) k (w.machine.store.modify o (·.insert k d))
  insertBuiltin (o : ObjectId) (k : PropertyKey) (v : Value) :
    w.machine.store.WrittenAt (some o) k (w.machine.store.modify o (·.insertBuiltin k v))
  set {env : Env σ} {o : ObjectId} {k : PropertyKey} {v receiver : Value} :
    w.machine.store.setterCall? k env.maxDepth o v receiver = none →
      w.machine.store.WrittenAt receiver.object? k (Act.set o k v receiver env w).world.machine.store
  /-- Where a setter is called, all that the write does is what that does. -/
  setter {env : Env σ} {o : ObjectId} {k : PropertyKey} {v receiver : Value} {call : Call} :
    w.machine.store.setterCall? k env.maxDepth o v receiver = some call →
      (Act.set o k v receiver env w).world = (call.result env w).world

theorem World.orderLaw {host : Host σ} (hh : host.Public R) (config : Config) (budget : Budget) {w : World σ}
    (hw : w.machine.Reachable R) : w.OrderLaw R host config budget where
  inStep := hw.inStep
  run {α x o obj} hx ho := by
    have steps := run_steps hh hx config budget w
    obtain ⟨obj', ho', made⟩ := steps.object ho
    obtain ⟨created, grows⟩ := Object.grows_of_steps made
    have later : (x.run host config budget w).world.machine.Reachable R := hw.trans steps
    exact ⟨obj', created, ho', later.inStep ho', grows⟩
  define env := Act.define_writtenAt env w
  insert := .insert _
  insertBuiltin o k v := .insert _ o k _
  set silent := Act.set_writtenAt _ w silent
  setter {env o k v receiver call} called := by
    have verdict := Act.set_verdict env w o k v receiver
    rw [called] at verdict
    generalize Act.set o k v receiver env w = result at verdict ⊢
    cases verdict with
    | called hr | calledFails hr | calledFaults hr => rw [hr]; rfl

/-- Tables do what ledgers do, and in every state that can be reached the ledger of every object
    lists each of its properties once, in the order in which they were created. -/
theorem property_order_law {host : Host σ} (hh : host.Public R) (config : Config) (budget : Budget) {w : World σ}
    (hw : w.machine.Reachable R) :
    (∀ (t : PropertyTable) (extensible : Bool) (k : PropertyKey) (d : Descriptor),
      (t.define? extensible k d).map PropertyTable.ledger = t.ledger.define? extensible k d ∧
        (t.insert k d).ledger = t.ledger.insert k d) ∧
      w.OrderLaw R host config budget :=
  ⟨fun t extensible k d => ⟨t.ledger_define? extensible k d, t.ledger_insert k d⟩,
    World.orderLaw hh config budget hw⟩

/-- A property that becomes an accessor keeps its place before a younger one. -/
theorem a_property_changes_its_kind_in_place :
    let o := Realm.store.fresh
    let w : World Unit :=
      ⟨{ store := ((Realm.store.add {}).modify o (·.insert "x" (.plain .null))).modify o (·.insert "y" (.plain .null)) }, ()⟩
    let accessor : Descriptor := { getter := some .undefined }
    let keys : List PropertyKey := ["x", "y"]
    let s := (Act.define o "x" accessor).storeAfter idle {} ⟨64, 64⟩ w
    w.machine.Reachable ⟨true, true⟩ ∧ (w.machine.store.get? o).map (·.ledger.order) = some keys ∧
      (s.own? o "x").map (·.isAccessor) = some true ∧ (s.get? o).map (·.ledger.order) = some keys ∧
      w.OrderLaw ⟨true, true⟩ idle {} ⟨64, 64⟩ := by
  intro o w accessor keys s
  have made : Machine.Run ⟨true, true⟩ {} { store := Realm.store.add {} } := .single (.create {} (.plain none none rfl))
  have first := made.tail (.insert _ o "x" (.plain .null) rfl)
  have reachable : w.machine.Reachable ⟨true, true⟩ := first.tail (.insert _ o "y" (.plain .null) rfl)
  have silent : idle.Public ⟨true, true⟩ := fun _ _ _ => .ret _
  have law := property_order_law silent {} ⟨64, 64⟩ reachable
  exact ⟨reachable, by decide, by decide, by decide, law.2⟩

end EcmaObjects
