/-
  EcmaObjects.Proofs.Tag — what `toString` of `%Object.prototype%` makes of a receiver.

  The text is a tag in brackets (`Text.bracketed`). Undefined and null have their own; for any other
  receiver the property at `Symbol.toStringTag` is read, and a string there is the tag. Else the kind
  decides: the tag is the first one of a list that the object bears (`Store.find?_tags`).
  - `tag_law`: the call ends as this read does, and only the getter can break it off. A tag that is
    read comes out mended, so it is the one that was read exactly if its surrogates are in pairs
    (`a_lone_surrogate_in_a_tag_is_replaced`).
-/

import EcmaObjects.Proofs.Surrogates

namespace EcmaObjects

variable {σ : Type}

/-! ## Tags -/

namespace Object

/-- All tags of objects; one counts for more than those after it. -/
def tags : List String :=
  ["Array", "String", "Arguments", "Function", "Error", "Boolean", "Number", "Date", "RegExp", "Object"]

def bears (o : Object) (tag : String) : Bool := tag == o.kind.name || tag == "Function" && o.isCallable || tag == "Object"

/-- The tag of an object is the first one that it bears. -/
theorem find?_tags (o : Object) : tags.find? o.bears = some o.tag := by
  obtain ⟨kind, proto, extensible, properties, function, iteration⟩ := o
  cases kind <;> cases function <;> rfl

end Object

namespace Store

/-- The tags that an object bears; a handle without an object bears only the last. -/
def bears (s : Store) (o : ObjectId) : String → Bool := (s.get? o).elim (· == "Object") Object.bears

theorem find?_tags (s : Store) (o : ObjectId) : Object.tags.find? (s.bears o) = some (s.tagOf o) := by
  unfold bears tagOf
  cases s.get? o with
  | none => rfl
  | some obj => exact obj.find?_tags

end Store

namespace Text

def bracketed (t : Text) : Text := ⟨(ofString "[object ").units ++ t.units ++ (ofString "]").units⟩

theorem units_ofString_append (s₁ s₂ : String) : (ofString (s₁ ++ s₂)).units = (ofString s₁).units ++ (ofString s₂).units := by
  simp only [ofString, String.toList_append, List.flatMap_append]

theorem bracketed_injective {t u : Text} (h : t.bracketed = u.bracketed) : t = u := by
  have same : t.units = u.units := List.append_cancel_left (List.append_cancel_right (congrArg units h))
  obtain ⟨us⟩ := t
  exact congrArg mk same

end Text

namespace Act

theorem objectText_eq (tag : String) : objectText tag = .string (Text.ofString tag).bracketed := by
  have units : (Text.ofString ("[object " ++ tag ++ "]")).units = (Text.ofString tag).bracketed.units := by
    rw [Text.units_ofString_append, Text.units_ofString_append]
    rfl
  exact congrArg (Value.string ∘ Text.mk) units

/-! ## Receivers -/

section
variable {env : Env σ} {this : Value} {w w₁ : World σ} {o : ObjectId}

theorem toObject_of_not_isNullish (h : this.isNullish = false) (env : Env σ) (w : World σ) :
    ∃ o w₁, toObject this env w = .ok o w₁ := by
  cases this with
  | undefined | null => cases h
  | _ => exact ⟨_, _, rfl⟩

theorem infallible_of_ok {α : Type} {x : Act σ α} {a : α} (h : x env w = .ok a w₁) : infallible x env w = .ok a w₁ := by
  rw [infallible, bind_apply, attempt_apply, h]
  rfl

/-- A receiver counts as the object that it is converted to. -/
theorem toStringTag_of_toObject (h : toObject this env w = .ok o w₁) :
    toStringTag this env w = toStringTag (.object o) env w₁ := by
  have itself : toObject (.object o) env w₁ = .ok o w₁ := rfl
  cases this with
  | undefined | null => cases h
  | _ => simp only [toStringTag, bind_apply, infallible_of_ok h, infallible_of_ok itself]

theorem toStringTag_object (o : ObjectId) (env : Env σ) (w : World σ) :
    toStringTag (.object o) env w = match get o WellKnown.toStringTag (.object o) env w with
      | .ok (.string t) w₁ => .ok (.string t.mended.bracketed) w₁
      | .ok _ w₁ => .ok (.string (Text.ofString (w.machine.store.tagOf o)).bracketed) w₁
      | .abrupt c w₁ => .abrupt c w₁
      | .fault e w₁ => .fault e w₁ := by
  have itself : toObject (.object o) env w = .ok o w := rfl
  simp only [toStringTag, bind_apply, infallible_of_ok itself, store_apply]
  cases get o WellKnown.toStringTag (.object o) env w with
  | abrupt c w₁ | fault e w₁ => rfl
  | ok v w₁ =>
    cases v with
    | string t => simp only [pure_apply, objectText_eq, Text.ofString_lossy]
    | _ => simp only [pure_apply, objectText_eq]

end

/-! ## The law of tags -/

/-- How the call of `toString` on a receiver ends. -/
structure TagLaw (this : Value) (args : List Value) (env : Env σ) (w : World σ) : Prop where
  undefined : this = .undefined → Builtin.toString.run this args env w = .ok (.ofString "[object Undefined]") w
  null : this = .null → Builtin.toString.run this args env w = .ok (.ofString "[object Null]") w
  object : this.isNullish = false → ∃ o w₁, toObject this env w = .ok o w₁
  fails {o : ObjectId} {w₁ : World σ} {out : Result σ Value} : toObject this env w = .ok o w₁ →
    (get o WellKnown.toStringTag (.object o) env w₁).Fails out → Builtin.toString.run this args env w = out
  tagged {o : ObjectId} {t : Text} {w₁ w₂ : World σ} : toObject this env w = .ok o w₁ →
    get o WellKnown.toStringTag (.object o) env w₁ = .ok (.string t) w₂ →
    Builtin.toString.run this args env w = .ok (.string t.mended.bracketed) w₂ ∧
      (Builtin.toString.run this args env w = .ok (.string t.bracketed) w₂ ↔ ∀ i, t.unpaired i = false)
  /-- The kind decides, as it was before the read. -/
  byKind {o : ObjectId} {v : Value} {w₁ w₂ : World σ} : toObject this env w = .ok o w₁ →
    get o WellKnown.toStringTag (.object o) env w₁ = .ok v w₂ → (∀ t, v ≠ .string t) →
    Builtin.toString.run this args env w = .ok (.string (Text.ofString (w₁.machine.store.tagOf o)).bracketed) w₂
  tag {o : ObjectId} {w₁ : World σ} : toObject this env w = .ok o w₁ →
    Object.tags.find? (w₁.machine.store.bears o) = some (w₁.machine.store.tagOf o)
  brokenOff {e : Fault} {w' : World σ} : Builtin.toString.run this args env w = .fault e w' →
    ∃ o w₁ getter, toObject this env w = .ok o w₁ ∧
      w₁.machine.store.getterCall? WellKnown.toStringTag env.maxDepth o (.object o) = some getter ∧
      getter.result env w₁ = .fault e w'

theorem tag_law (this : Value) (args : List Value) (env : Env σ) (w : World σ) : TagLaw this args env w := by
  have run : Builtin.toString.run this args env w = toStringTag this env w := rfl
  constructor
  · rintro rfl
    rfl
  · rintro rfl
    rfl
  · intro h
    exact toObject_of_not_isNullish h env w
  · intro o w₁ out ho failed
    rw [run, toStringTag_of_toObject ho, toStringTag_object]
    cases failed with
    | abrupt hm | fault hm => rw [hm]
  · intro o t w₁ w₂ ho hm
    have mended : Builtin.toString.run this args env w = .ok (.string t.mended.bracketed) w₂ := by
      rw [run, toStringTag_of_toObject ho, toStringTag_object, hm]
    refine ⟨mended, ?_⟩
    rw [mended, ← t.mended_eq_self_iff_paired, Result.ok.injEq, Value.string.injEq]
    exact ⟨fun same => Text.bracketed_injective same.1, fun same => ⟨congrArg Text.bracketed same, rfl⟩⟩
  · intro o v w₁ w₂ ho hm hv
    rw [run, toStringTag_of_toObject ho, toStringTag_object, hm]
    cases v with
    | string t => exact absurd rfl (hv t)
    | _ => rfl
  · intro o w₁ _
    exact w₁.machine.store.find?_tags o
  · intro e w' h
    cases hn : this.isNullish with
    | true =>
      cases this with
      | undefined | null => cases h
      | _ => cases hn
    | false =>
      obtain ⟨o, w₁, ho⟩ := toObject_of_not_isNullish hn env w
      rw [run, toStringTag_of_toObject ho, toStringTag_object] at h
      cases hm : get o WellKnown.toStringTag (.object o) env w₁ with
      | abrupt c w₂ =>
        rw [hm] at h
        cases h
      | ok v w₂ =>
        rw [hm] at h
        cases v <;> cases h
      | fault e₁ w₂ =>
        rw [hm] at h
        cases h
        obtain ⟨getter, found, broken⟩ := get_eq_fault hm
        exact ⟨o, w₁, getter, ho, found, broken⟩

/-- That an error can be called counts for more than that it is one. -/
theorem an_error_that_can_be_called_is_a_function :
    let env : Env Unit := .ofHost idle ⟨8⟩ ⟨64, 64⟩
    let callable : Object := { kind := .error, function := some ⟨"", 0, .builtin .nothing⟩ }
    let w : World Unit := ⟨{ store := Realm.store.add callable }, ()⟩
    Builtin.toString.run (.object ⟨25⟩) [] env w = .ok (.string (Text.ofString "Function").bracketed) w ∧
      Object.tags.find? (w.machine.store.bears ⟨25⟩) = some "Function" := by
  intro env callable w
  have law := tag_law (.object ⟨25⟩) [] env w
  have receiver : toObject (.object ⟨25⟩) env w = .ok ⟨25⟩ w := rfl
  have untagged : get ⟨25⟩ WellKnown.toStringTag (.object ⟨25⟩) env w = .ok .undefined w := rfl
  have tag : w.machine.store.tagOf ⟨25⟩ = "Function" := rfl
  have named := law.byKind receiver untagged nofun
  have first := law.tag receiver
  rw [tag] at named first
  exact ⟨named, first⟩

/-- A tag that is a leading surrogate alone is read as it is, and does not come out so. -/
theorem a_lone_surrogate_in_a_tag_is_replaced :
    let env : Env Unit := .ofHost idle ⟨8⟩ ⟨64, 64⟩
    let lone : Text := ⟨[0xD800]⟩
    let tagged : Object := { properties := ⟨[(WellKnown.toStringTag, .plain (.string lone))]⟩ }
    let w : World Unit := ⟨{ store := Realm.store.add tagged }, ()⟩
    get ⟨25⟩ WellKnown.toStringTag (.object ⟨25⟩) env w = .ok (.string lone) w ∧
      Builtin.toString.run (.object ⟨25⟩) [] env w ≠ .ok (.string lone.bracketed) w := by
  intro env lone tagged w
  have read : get ⟨25⟩ WellKnown.toStringTag (.object ⟨25⟩) env w = .ok (.string lone) w := rfl
  have mended : Builtin.toString.run (.object ⟨25⟩) [] env w = .ok (.string lone.mended.bracketed) w := by
    change toStringTag (.object ⟨25⟩) env w = _
    rw [toStringTag_object, read]
  refine ⟨read, ?_⟩
  rw [mended, ne_eq, Result.ok.injEq, Value.string.injEq]
  exact fun same => absurd (Text.bracketed_injective same.1) (by decide)

end Act

end EcmaObjects
