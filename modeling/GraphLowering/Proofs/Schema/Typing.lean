import GraphLowering.Proofs.Lookup
import GraphLowering.Schema.Query

/-!
# Schema — values that fit

When a value fits the declared type of a field: a static array holds exactly as many elements as
its field has, and the members of a struct fit its fields in order.

* `fits_static`, `fits_array`, `fits_struct`, `fits_structType`: the form of a value that fits.
* `defaultValue_eq_structDefault`: the default of a struct type is that of the struct, whatever
  the bounds on nesting.
* `fieldDefault_fits`: a field starts with a value that fits it, if the default of its struct
  does.
-/

namespace GraphLowering

/-- The struct that values of this type are of, or the items of its arrays. -/
def ValueType.structType? (t : ValueType) : Option TypeId :=
  if t.category = .struct then t.subType else none

/-- A type of one value of the category, for a field with the given array size. -/
def ValueType.isOne (t : ValueType) (dim : Nat) (category : Category) : Bool :=
  dim ≤ 1 && !t.isArray && t.category = category

namespace Schema

mutual

/-- The value can be held by a field of this array size and type. -/
def fits (s : Schema) (dim : Nat) (t : ValueType) : Value → Bool
  | .array items =>
    if dim > 1 then items.length = dim && allFit s t items
    else t.isArray && allFit s t.element items
  | .struct id members =>
    t.isOne dim .struct && t.subType = some id &&
      match s.allFields id with
      | .ok fields => membersFit s fields members
      | .error _ => false
  -- A struct type that names no struct has the null reference for its default.
  | .object o =>
    t.isOne dim .object || t.isOne dim .interface ||
      t.isOne dim .struct && t.subType.isNone && o.isNone
  | .bool _ => t.isOne dim .bool
  | .byte _ => t.isOne dim .byte
  | .int _ => t.isOne dim .int
  | .float _ => t.isOne dim .float
  | .name _ => t.isOne dim .name
  | .string _ => t.isOne dim .string
  | .text _ => t.isOne dim .text
  | .classRef _ => t.isOne dim .classRef
  | .softObject _ => t.isOne dim .softObject
  | .softClass _ => t.isOne dim .softClass
  | .delegate _ => t.isOne dim .delegate || t.isOne dim .multicastDelegate

/-- Every value fits the type. -/
def allFit (s : Schema) (t : ValueType) : List Value → Bool
  | [] => true
  | v :: vs => fits s 1 t v && allFit s t vs

/-- The values fit the fields in order. -/
def membersFit (s : Schema) : List FieldId → List Value → Bool
  | [], [] => true
  | field :: fields, v :: vs =>
    (match s.field field with
      | .ok f => fits s f.arrayDim f.type v
      | .error _ => false) && membersFit s fields vs
  | _, _ => false

end

attribute [local simp] fits allFit membersFit

variable {s : Schema} {t : ValueType} {dim : Nat} {v : Value}

/-! ### The form of a value that fits -/

theorem allFit_iff {vs : List Value} :
    allFit s t vs = true ↔ ∀ v ∈ vs, fits s 1 t v = true := by
  induction vs with
  | nil => simp
  | cons v vs ih => simp [ih]

theorem isOne_one (hdim : dim ≤ 1) (c : Category) : t.isOne dim c = t.isOne 1 c := by
  simp [ValueType.isOne, hdim]

theorem isOne_static (hdim : 1 < dim) (c : Category) : t.isOne dim c = false := by
  have h : ¬ dim ≤ 1 := Nat.not_le.mpr hdim
  simp [ValueType.isOne, h]

theorem isOne_array (ht : t.isArray = true) (c : Category) : t.isOne dim c = false := by
  simp [ValueType.isOne, ht]

/-- A field of array size 0 is one of size 1. -/
theorem fits_one (hdim : dim ≤ 1) : fits s dim t v = fits s 1 t v := by
  have h : ¬ dim > 1 := Nat.not_lt.mpr hdim
  cases v <;> simp only [fits, isOne_one hdim, if_neg h, if_neg (Nat.lt_irrefl 1)]

/-- A static array holds its elements. -/
theorem fits_static (hdim : 1 < dim) (h : fits s dim t v = true) :
    ∃ items, v = .array items ∧ items.length = dim ∧ ∀ x ∈ items, fits s 1 t x = true := by
  cases v with
  | array items =>
      simp only [fits, if_pos hdim, Bool.and_eq_true, decide_eq_true_eq] at h
      exact ⟨items, rfl, h.1, allFit_iff.mp h.2⟩
  | _ => simp [isOne_static hdim] at h

theorem fits_array (ht : t.isArray = true) (h : fits s 1 t v = true) :
    ∃ items, v = .array items ∧ ∀ x ∈ items, fits s 1 t.element x = true := by
  cases v with
  | array items =>
      simp only [fits, if_neg (Nat.lt_irrefl 1), Bool.and_eq_true] at h
      exact ⟨items, rfl, allFit_iff.mp h.2⟩
  | _ => simp [isOne_array ht] at h

/-- A struct fits a type of its own struct, and its members fit the fields. -/
theorem fits_struct {id : TypeId} {members : List Value}
    (h : fits s 1 t (.struct id members) = true) :
    t.isArray = false ∧ t.structType? = some id ∧
      ∃ fields, s.allFields id = .ok fields ∧ membersFit s fields members = true := by
  cases hfields : s.allFields id with
  | error e => simp [hfields] at h
  | ok fields =>
      simp only [fits, hfields, Bool.and_eq_true, decide_eq_true_eq, ValueType.isOne,
        Bool.not_eq_true'] at h
      obtain ⟨⟨⟨⟨-, harray⟩, hstruct⟩, hsub⟩, hmembers⟩ := h
      refine ⟨harray, ?_, fields, rfl, hmembers⟩
      rw [ValueType.structType?, if_pos hstruct, hsub]

/-- A value of a struct type is a struct, or null when the type names no struct. -/
theorem fits_structType (ht : t.isArray = false) (hc : t.category = .struct)
    (h : fits s 1 t v = true) :
    (∃ id members, v = .struct id members) ∨ t.structType? = none ∧ v = .object none := by
  cases v with
  | struct id members => exact .inl ⟨id, members, rfl⟩
  | object o =>
      simp only [fits, ValueType.isOne, hc] at h
      exact .inr (by simpa [ht, ValueType.structType?, hc] using h)
  | _ => simp [ValueType.isOne, hc, ht] at h

theorem membersFit_cons {field : FieldId} {fields : List FieldId} {vs : List Value}
    (h : membersFit s (field :: fields) vs = true) :
    ∃ f v rest, vs = v :: rest ∧ s.field field = .ok f ∧
      fits s f.arrayDim f.type v = true ∧ membersFit s fields rest = true := by
  cases vs with
  | nil => simp at h
  | cons v rest =>
      cases hf : s.field field with
      | error e => simp [hf] at h
      | ok f =>
          simp only [membersFit, hf, Bool.and_eq_true] at h
          exact ⟨f, v, rest, rfl, rfl, h.1, h.2⟩

theorem membersFit_nil {vs : List Value} (h : membersFit s [] vs = true) : vs = [] := by
  cases vs with
  | nil => rfl
  | cons v rest => simp at h

/-! ### Defaults -/

theorem structDefaultWith_mono {d d' : ValueType → Except Fault Value}
    (hd : ∀ t v, d t = .ok v → d' t = .ok v) {id : TypeId} {value : StructValue}
    (h : s.structDefaultWith d id = .ok value) : s.structDefaultWith d' id = .ok value := by
  have hmember : ∀ f v, (do d (← s.field f).type) = .ok v → (do d' (← s.field f).type) = .ok v := by
    intro f v hv
    obtain ⟨decl, hf, hv⟩ := Lookup.of_bind_ok hv
    rw [Lookup.bind_of_ok hf]
    exact hd decl.type v hv
  obtain ⟨decl, hdecl, h⟩ := Lookup.of_bind_ok h
  rw [structDefaultWith, Lookup.bind_of_ok hdecl]
  cases hdefaults : decl.structDefaults with
  | some defaults => rwa [hdefaults] at h
  | none =>
      rw [hdefaults] at h
      obtain ⟨fields, hfields, h⟩ := Lookup.of_bind_ok h
      obtain ⟨members, hmembers, h⟩ := Lookup.of_bind_ok h
      simp only [Lookup.bind_of_ok hfields, Lookup.mapM_mono (fun f _ => hmember f) hmembers]
      exact h

/-- More room for nested structs changes no default. -/
theorem defaultValueFrom_succ {n : Nat} (h : s.defaultValueFrom n t = .ok v) :
    s.defaultValueFrom (n + 1) t = .ok v := by
  induction n generalizing t v with
  | zero => cases h
  | succ n ih =>
      unfold defaultValueFrom at h ⊢
      split
      · rename_i ht
        rwa [if_pos ht] at h
      · rename_i ht
        rw [if_neg ht] at h
        cases hc : t.category with
        | struct =>
            rw [hc] at h
            cases hsub : t.subType with
            | none => rwa [hsub] at h
            | some id =>
                rw [hsub] at h
                obtain ⟨value, hvalue, h⟩ := Lookup.of_bind_ok h
                simp only [structDefaultWith_mono (fun _ _ => ih) hvalue]
                exact h
        | _ => rwa [hc] at h

/-- The default of a struct type is that of the struct. -/
theorem defaultValue_eq_structDefault {id : TypeId} (ht : t.isArray = false)
    (hid : t.structType? = some id) (h : s.defaultValue t = .ok v) :
    ∃ value, s.structDefault id = .ok value ∧ v = value.toValue := by
  unfold ValueType.structType? at hid
  split at hid
  · rename_i hc
    unfold defaultValue defaultValueFrom at h
    rw [ht, hc, hid] at h
    obtain ⟨value, hvalue, h⟩ := Lookup.of_bind_ok h
    cases h
    exact ⟨value, structDefaultWith_mono (fun _ _ => defaultValueFrom_succ) hvalue, rfl⟩
  · cases hid

/-- The default of the struct that a type refers to fits it.  A struct with a static array has such
a default only if it is declared: else the array is given by one element. -/
def DefaultFits (s : Schema) (t : ValueType) : Prop :=
  ∀ id value, t.structType? = some id → s.structDefault id = .ok value →
    fits s 1 (.struct id) value.toValue = true

/-- What fits a struct fits every type of that struct. -/
theorem fits_of_fits_struct {id : TypeId} (ht : t.isArray = false) (hid : t.structType? = some id)
    {value : StructValue} (h : fits s 1 (.struct id) value.toValue = true) :
    fits s 1 t value.toValue = true := by
  unfold ValueType.structType? at hid
  split at hid
  · rename_i hc
    simpa [StructValue.toValue, ValueType.isOne, ValueType.struct, ht, hc, hid] using h
  · cases hid

theorem defaultValue_fits (hfits : s.DefaultFits t) (h : s.defaultValue t = .ok v) :
    fits s 1 t v = true := by
  cases ht : t.isArray with
  | true =>
      unfold defaultValue defaultValueFrom at h
      rw [ht] at h
      cases h
      simp [ht]
  | false =>
      cases hid : t.structType? with
      | some id =>
          obtain ⟨value, hvalue, rfl⟩ := defaultValue_eq_structDefault ht hid h
          exact fits_of_fits_struct ht hid (hfits id value hid hvalue)
      | none =>
          unfold defaultValue defaultValueFrom at h
          rw [ht] at h
          cases hc : t.category with
          | struct =>
              have hsub : t.subType = none := by simpa [ValueType.structType?, hc] using hid
              rw [hc, hsub] at h
              cases h
              simp [ValueType.isOne, ht, hc, hsub]
          | _ =>
              rw [hc] at h
              cases h
              simp [ValueType.isOne, ht, hc]

/-- A field starts with a value that fits it. -/
theorem fieldDefault_fits {field : FieldId} {f : FieldDecl} (hf : s.field field = .ok f)
    (hfits : s.DefaultFits f.type) (h : s.fieldDefault field = .ok v) :
    fits s f.arrayDim f.type v = true := by
  rw [fieldDefault, Lookup.bind_of_ok hf] at h
  obtain ⟨single, hsingle, h⟩ := Lookup.of_bind_ok h
  have hone : fits s 1 f.type single = true := defaultValue_fits hfits hsingle
  by_cases hdim : f.arrayDim > 1
  · cases h.symm.trans (congrArg Except.ok (if_pos hdim))
    have hall : ∀ x ∈ List.replicate f.arrayDim single, fits s 1 f.type x = true := by
      intro x hx
      rw [List.eq_of_mem_replicate hx]
      exact hone
    simp only [fits, if_pos hdim, List.length_replicate, decide_true, allFit_iff.mpr hall,
      Bool.and_self]
  · cases h.symm.trans (congrArg Except.ok (if_neg hdim))
    rwa [fits_one (Nat.not_lt.mp hdim)]

end Schema
end GraphLowering
