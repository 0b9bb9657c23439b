import GraphLowering.Literal
import GraphLowering.Proofs.Schema.Fields
import GraphLowering.Proofs.Schema.Typing

/-!
# Schema — growth from the engine's types

A schema grows from the engine's types by additions and changes that leave the engine's structs
alone, make no other type well-known, and declare the defaults of a struct at its own type.

* `Regular`: the invariant, kept by every step and so true of every grown schema (`Grown.regular`).
* `Regular.structDefault_type`: the default of a struct is a value of that struct.
* `Regular.structDefault_wellKnown`: the default of an engine struct has the form of its literal.
-/

namespace GraphLowering

/-- No engine struct, and its defaults are those of its own type. -/
def TypeDecl.Authored (t : TypeDecl) (id : TypeId) : Prop :=
  t.wellKnown = none ∧ ∀ v ∈ t.structDefaults, v.type = id

namespace Schema

/-- The field belongs to an engine struct. -/
def IsEngineField (s : Schema) (field : FieldId) : Prop :=
  ∃ id t, s.type id = .ok t ∧ t.wellKnown ≠ none ∧ field ∈ t.fields

/-- Built on the engine's types.  Of an engine struct only the functions may change. -/
inductive Grown : Schema → Prop
  | core {s : Schema} (h : addCore {} = .ok s) : Grown s
  | setPackage {s : Schema} (h : Grown s) (package : String) : Grown (s.setPackage package)
  | addType {s : Schema} (h : Grown s) {t : TypeDecl} (ht : t.Authored ⟨s.types.size⟩) :
      Grown (s.addType t).2
  | modifyType {s s' : Schema} (h : Grown s) {id : TypeId} {t : TypeDecl}
      {change : TypeDecl → TypeDecl} (ht : s.type id = .ok t) (hnone : t.wellKnown = none)
      (hchange : (change t).Authored id) (hr : s.modifyType id change = .ok s') : Grown s'
  | addField {s s' : Schema} (h : Grown s) {id : TypeId} {t : TypeDecl} {name : String}
      {type : ValueType} {field : FieldId} (ht : s.type id = .ok t) (hnone : t.wellKnown = none)
      (hr : s.addField id name type = .ok (field, s')) : Grown s'
  | modifyField {s s' : Schema} (h : Grown s) {field : FieldId} {change : FieldDecl → FieldDecl}
      (hfield : ¬ s.IsEngineField field) (hr : s.modifyField field change = .ok s') : Grown s'
  | addFunction {s s' : Schema} (h : Grown s) {id : TypeId} {name : String} {f : FunctionId}
      (hr : s.addFunction id name = .ok (f, s')) : Grown s'
  | modifyFunction {s s' : Schema} (h : Grown s) {f : FunctionId}
      {change : FunctionDecl → FunctionDecl} (hr : s.modifyFunction f change = .ok s') : Grown s'
  | addParam {s s' : Schema} (h : Grown s) {f : FunctionId} {name : String} {type : ValueType}
      {flags : Flags FieldFlag} {field : FieldId}
      (hr : s.addParam f name type flags = .ok (field, s')) : Grown s'

theorem type_added {s : Schema} {t : TypeDecl} : (s.addType t).2.type ⟨s.types.size⟩ = .ok t :=
  type_eq_ok_iff.mpr Array.getElem?_push_size

/-! ### Structs without a super type -/

/-- The default of a type that holds no struct by value. -/
def plainDefault (t : ValueType) : Except Fault Value := defaultValueFrom {} 1 t

variable {s s' : Schema} {id : TypeId} {t t' : TypeDecl} {v : StructValue}

/-- The default of a type that holds no struct is the same in every schema. -/
theorem defaultValueFrom_of_plain {type : ValueType} {v : Value} (h : plainDefault type = .ok v)
    (n : Nat) : s.defaultValueFrom (n + 1) type = .ok v := by
  unfold plainDefault defaultValueFrom at h
  unfold defaultValueFrom
  split
  · rename_i harray
    rwa [if_pos harray] at h
  · rename_i harray
    rw [if_neg harray] at h
    cases hc : type.category with
    | struct =>
        rw [hc] at h
        cases hsub : type.subType with
        | none => rwa [hsub] at h
        | some id =>
            rw [hsub] at h
            cases h
    | _ => rwa [hc] at h

theorem allFields_of_root (ht : s.type id = .ok t) (hroot : t.superType = none) :
    s.allFields id = .ok t.fields := by
  have hlineage : s.lineage id = .ok [t] := by
    rw [lineage, height, lineageFrom, Lookup.bind_of_ok ht, hroot]
    rfl
  rw [allFields, Lookup.bind_of_ok hlineage]
  simp [pure, Except.pure]

/-- The default of a struct without a super type is kept with its declared default and the types of
its fields. -/
theorem structDefaultWith_of_keeps {d : ValueType → Except Fault Value} (ht : s.type id = .ok t)
    (hroot : t.superType = none) (ht' : s'.type id = .ok t')
    (hkept : t'.superType = t.superType ∧ t'.fields = t.fields ∧
      t'.structDefaults = t.structDefaults)
    (hfields : ∀ field ∈ t.fields, ∀ f, s.field field = .ok f →
      ∃ f', s'.field field = .ok f' ∧ f'.type = f.type)
    (h : s.structDefaultWith d id = .ok v) : s'.structDefaultWith d id = .ok v := by
  obtain ⟨hsuper, hown, hdefaults⟩ := hkept
  rw [structDefaultWith, Lookup.bind_of_ok ht] at h
  rw [structDefaultWith, Lookup.bind_of_ok ht', hdefaults]
  cases hdeclared : t.structDefaults with
  | some defaults => rwa [hdeclared] at h
  | none =>
      rw [hdeclared] at h
      simp only [Lookup.bind_of_ok (allFields_of_root ht hroot)] at h
      obtain ⟨members, hmembers, h⟩ := Lookup.of_bind_ok h
      have hmembers' : t'.fields.mapM (fun f => do d (← s'.field f).type) = .ok members := by
        rw [hown]
        refine Lookup.mapM_mono (fun field hmem v hv => ?_) hmembers
        obtain ⟨f, hf, hv⟩ := Lookup.of_bind_ok hv
        obtain ⟨f', hf', htype⟩ := hfields field hmem f hf
        rw [Lookup.bind_of_ok hf', htype]
        exact hv
      simp only [Lookup.bind_of_ok (allFields_of_root ht' (hsuper.trans hroot)),
        Lookup.bind_of_ok hmembers']
      exact h

/-! ### The invariant -/

/-- Defaults are declared at the type of their struct, and each engine struct has a default that
depends on its own fields only and has the form of its literal. -/
structure Regular (s : Schema) : Prop where
  own : ∀ id t, s.type id = .ok t → ∀ v ∈ t.structDefaults, v.type = id
  wellKnown : ∀ id t, s.type id = .ok t → ∀ kind ∈ t.wellKnown, t.superType = none ∧
    ∃ v, s.structDefaultWith plainDefault id = .ok v ∧
      (Literal.wellKnownText? kind v.members).isSome = true

namespace Regular

/-- A step that adds authored types or changes types into such, and keeps the engine structs up to
their functions. -/
theorem of_keeps (h : s.Regular)
    (htypes : ∀ id t', s'.type id = .ok t' → t'.Authored id ∨
      ∃ t, s.type id = .ok t ∧ t' = { t with functions := t'.functions })
    (hfields : ∀ field, s.IsEngineField field → ∀ f, s.field field = .ok f →
      ∃ f', s'.field field = .ok f' ∧ f'.type = f.type) : s'.Regular where
  own id t' ht' := by
    rcases htypes id t' ht' with hauthored | ⟨t, ht, heq⟩
    · exact hauthored.2
    · rw [heq]
      exact h.own id t ht
  wellKnown id t' ht' kind hkind := by
    rcases htypes id t' ht' with hauthored | ⟨t, ht, heq⟩
    · rw [hauthored.1] at hkind
      cases hkind
    · rw [heq] at hkind ⊢
      obtain ⟨hroot, v, hv, htext⟩ := h.wellKnown id t ht kind hkind
      have hengine : t.wellKnown ≠ none := Option.ne_none_iff_exists'.mpr ⟨kind, hkind⟩
      refine ⟨hroot, v, ?_, htext⟩
      refine structDefaultWith_of_keeps ht hroot ht' ?_
        (fun field hmem => hfields field ⟨id, t, ht, hengine, hmem⟩) hv
      rw [heq]
      exact ⟨rfl, rfl, rfl⟩

/-- A step that leaves the types as they are. -/
theorem of_types_eq (h : s.Regular) (htypes : s'.types = s.types)
    (hfields : ∀ field, s.IsEngineField field → ∀ f, s.field field = .ok f →
      ∃ f', s'.field field = .ok f' ∧ f'.type = f.type) : s'.Regular := by
  refine h.of_keeps (fun id t ht => ?_) hfields
  rw [type_congr htypes] at ht
  exact .inr ⟨t, ht, rfl⟩

/-- The package of later types is no part of what is kept. -/
theorem setPackage (h : s.Regular) (package : String) : (s.setPackage package).Regular :=
  h.of_types_eq rfl fun _ _ f hf => ⟨f, hf, rfl⟩

theorem addType (h : s.Regular) (ht : t.Authored ⟨s.types.size⟩) : (s.addType t).2.Regular := by
  refine h.of_keeps (fun id t' ht' => ?_) fun field _ f hf => ⟨f, hf, rfl⟩
  rcases type_addType ht' with ⟨rfl, rfl⟩ | ht'
  · exact .inl ht
  · exact .inr ⟨t', ht', rfl⟩

theorem modifyType (h : s.Regular) {change : TypeDecl → TypeDecl} (ht : s.type id = .ok t)
    (hchange : (change t).Authored id ∨ change t = { t with functions := (change t).functions })
    (hr : s.modifyType id change = .ok s') : s'.Regular := by
  refine h.of_keeps (fun id' t' ht' => ?_) fun field _ f hf => ?_
  · obtain ⟨t₀, ht₀, rfl⟩ := type_modifyType hr ht'
    by_cases hid : id' = id
    · subst hid
      cases ht.symm.trans ht₀
      rw [if_pos rfl]
      exact hchange.imp_right fun heq => ⟨t, ht, heq⟩
    · rw [if_neg hid]
      exact .inr ⟨t₀, ht₀, rfl⟩
  · exact ⟨f, (field_congr (fields_modifyType hr) field).trans hf, rfl⟩

theorem modifyField (h : s.Regular) {field : FieldId} {change : FieldDecl → FieldDecl}
    (hfield : ¬ s.IsEngineField field) (hr : s.modifyField field change = .ok s') : s'.Regular := by
  refine h.of_types_eq (types_modifyField hr) fun field' hengine f hf => ⟨f, ?_, rfl⟩
  have hne : field' ≠ field := fun heq => hfield (heq ▸ hengine)
  rw [field_modifyField hr hf, if_neg hne]

theorem modifyFunction (h : s.Regular) {f : FunctionId} {change : FunctionDecl → FunctionDecl}
    (hr : s.modifyFunction f change = .ok s') : s'.Regular := by
  obtain ⟨htypes, hfields⟩ := modifyFunction_keeps hr
  exact h.of_types_eq htypes fun field _ f hf => ⟨f, (field_congr hfields field).trans hf, rfl⟩

theorem pushField (h : s.Regular) (f : FieldDecl) :
    Regular { s with fields := s.fields.push f } :=
  h.of_types_eq rfl fun _ _ f' hf' => ⟨f', field_push hf' f, rfl⟩

theorem addField (h : s.Regular) {name : String} {type : ValueType} {field : FieldId}
    (ht : s.type id = .ok t) (hnone : t.wellKnown = none)
    (hr : s.addField id name type = .ok (field, s')) : s'.Regular := by
  obtain ⟨s₂, hmodify, hr⟩ := Lookup.of_bind_ok hr
  cases hr
  exact (h.pushField _).modifyType ht (.inl ⟨hnone, h.own id t ht⟩) hmodify

theorem addFunction (h : s.Regular) {name : String} {f : FunctionId}
    (hr : s.addFunction id name = .ok (f, s')) : s'.Regular := by
  obtain ⟨s₂, hmodify, hr⟩ := Lookup.of_bind_ok hr
  cases hr
  obtain ⟨t, ht, -⟩ := Lookup.of_bind_ok hmodify
  have hpush : Regular { s with functions := s.functions.push { owner := id, name } } :=
    h.of_types_eq rfl fun _ _ f hf => ⟨f, hf, rfl⟩
  exact hpush.modifyType ht (.inr rfl) hmodify

theorem addParam (h : s.Regular) {f : FunctionId} {name : String} {type : ValueType}
    {flags : Flags FieldFlag} {field : FieldId}
    (hr : s.addParam f name type flags = .ok (field, s')) : s'.Regular := by
  obtain ⟨s₂, hmodify, hr⟩ := Lookup.of_bind_ok hr
  cases hr
  exact (h.pushField _).modifyFunction hmodify

/-! ### The engine's types -/

/-- The invariant can be checked, one type after the other. -/
theorem of_checked (h : ∀ i < s.types.size, ∀ t ∈ s.types[i]?,
    (∀ v ∈ t.structDefaults, v.type = ⟨i⟩) ∧ ∀ kind ∈ t.wellKnown, t.superType = none ∧
      (s.structDefaultWith plainDefault ⟨i⟩).toOption.any
        (fun v => (Literal.wellKnownText? kind v.members).isSome) = true) : s.Regular := by
  have hchecked : ∀ id t, s.type id = .ok t → _ := fun id t ht =>
    have hget := type_eq_ok_iff.mp ht
    h id.index (Array.getElem?_eq_some_iff.mp hget).1 t hget
  refine ⟨fun id t ht => (hchecked id t ht).1, fun id t ht kind hkind => ?_⟩
  obtain ⟨hroot, hany⟩ := (hchecked id t ht).2 kind hkind
  refine ⟨hroot, ?_⟩
  cases hv : s.structDefaultWith plainDefault id with
  | error e =>
      rw [hv] at hany
      cases hany
  | ok v =>
      rw [hv] at hany
      exact ⟨v, rfl, hany⟩

theorem addCore (h : Schema.addCore {} = .ok s) : s.Regular := by
  have hcore : ((Schema.addCore {}).toOption.getD {}).Regular := of_checked (by decide +kernel)
  rwa [h] at hcore

end Regular

/-- Every grown schema is regular. -/
theorem Grown.regular (h : Grown s) : s.Regular := by
  induction h with
  | core h => exact .addCore h
  | setPackage _ package ih => exact ih.setPackage package
  | addType _ ht ih => exact ih.addType ht
  | modifyType _ ht _ hchange hr ih => exact ih.modifyType ht (.inl hchange) hr
  | addField _ ht hnone hr ih => exact ih.addField ht hnone hr
  | modifyField _ hfield hr ih => exact ih.modifyField hfield hr
  | addFunction _ hr ih => exact ih.addFunction hr
  | modifyFunction _ hr ih => exact ih.modifyFunction hr
  | addParam _ hr ih => exact ih.addParam hr

/-! ### Defaults -/

namespace Regular

/-- The default of a struct is a value of that struct. -/
theorem structDefault_type (h : s.Regular) (hv : s.structDefault id = .ok v) : v.type = id := by
  obtain ⟨t, ht, hv⟩ := Lookup.of_bind_ok hv
  cases hdefaults : t.structDefaults with
  | some defaults =>
      rw [hdefaults] at hv
      cases hv
      exact h.own id t ht v hdefaults
  | none =>
      rw [hdefaults] at hv
      obtain ⟨fields, -, hv⟩ := Lookup.of_bind_ok hv
      obtain ⟨members, -, hv⟩ := Lookup.of_bind_ok hv
      cases hv
      rfl

/-- The default of an engine struct has the form of its literal. -/
theorem structDefault_wellKnown (h : s.Regular) (ht : s.type id = .ok t) {kind : WellKnown}
    (hkind : t.wellKnown = some kind) (hv : s.structDefault id = .ok v) :
    ∃ text, Literal.wellKnownText? kind v.members = some text := by
  obtain ⟨-, v', hv', htext⟩ := h.wellKnown id t ht kind hkind
  have hplain : s.structDefault id = .ok v' :=
    structDefaultWith_mono (fun _ _ hmember => defaultValueFrom_of_plain hmember _) hv'
  cases hplain.symm.trans hv
  exact Option.isSome_iff_exists.mp htext

end Regular
end Schema
end GraphLowering
