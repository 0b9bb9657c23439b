import GraphLowering.Proofs.Lookup
import GraphLowering.World

/-!
# Schema — fields of built schemas

In a schema that was built by edits, a type lists a field once, and only if it owns the field.

* `FieldsOwned`: the invariant, kept by every edit (`FieldsOwned.apply`) and so true of every
  world that edits build (`fieldsOwned_of_build`).
* `FieldsOwned.nodup_allFields`: no field stands twice among all fields of a type.
-/

namespace GraphLowering

/-- A type lists a field at most once, and only fields that it owns. -/
def FieldsOwned (s : Schema) : Prop :=
  ∀ id t, s.type id = .ok t → t.fields.Nodup ∧
    ∀ field ∈ t.fields, ∃ f, s.field field = .ok f ∧ f.owner = .type id

/-! ### Look-ups after a change -/

namespace Schema

variable {s s' : Schema} {id id' : TypeId} {t : TypeDecl} {field field' : FieldId} {f : FieldDecl}

theorem type_eq_ok_iff : s.type id = .ok t ↔ s.types[id.index]? = some t := by
  unfold type
  split <;> simp_all

theorem field_eq_ok_iff : s.field field = .ok f ↔ s.fields[field.index]? = some f := by
  unfold Schema.field
  split <;> simp_all

theorem type_congr (h : s'.types = s.types) (id : TypeId) : s'.type id = s.type id := by
  unfold type
  rw [h]

theorem field_congr (h : s'.fields = s.fields) (field : FieldId) :
    s'.field field = s.field field := by
  unfold Schema.field
  rw [h]

theorem index_lt_of_field (h : s.field field = .ok f) : field.index < s.fields.size :=
  (Array.getElem?_eq_some_iff.mp (field_eq_ok_iff.mp h)).1

/-- A type is the new one, or as it was. -/
theorem type_addType {t' : TypeDecl} (ht' : (s.addType t).2.type id = .ok t') :
    id = ⟨s.types.size⟩ ∧ t' = t ∨ s.type id = .ok t' := by
  rw [type_eq_ok_iff] at ht'
  simp only [addType, Array.getElem?_push] at ht'
  split at ht'
  · rename_i hid
    cases ht'
    obtain ⟨i⟩ := id
    cases hid
    exact .inl ⟨rfl, rfl⟩
  · exact .inr (type_eq_ok_iff.mpr ht')

/-- A type is as it was, or the changed one. -/
theorem type_modifyType {change : TypeDecl → TypeDecl} (h : s.modifyType id change = .ok s')
    {t' : TypeDecl} (ht' : s'.type id' = .ok t') :
    ∃ t, s.type id' = .ok t ∧ t' = if id' = id then change t else t := by
  obtain ⟨t, ht, h⟩ := Lookup.of_bind_ok h
  cases h
  rw [type_eq_ok_iff, Array.getElem?_setIfInBounds] at ht'
  by_cases hid : id' = id
  · subst hid
    refine ⟨t, ht, ?_⟩
    obtain ⟨hlt, -⟩ := Array.getElem?_eq_some_iff.mp (type_eq_ok_iff.mp ht)
    simpa [hlt] using ht'.symm
  · have hindex : ¬ id.index = id'.index := fun heq => hid (by cases id; cases id'; simp_all)
    rw [if_neg hindex] at ht'
    exact ⟨t', type_eq_ok_iff.mpr ht', (if_neg hid).symm⟩

theorem fields_modifyType {change : TypeDecl → TypeDecl} (h : s.modifyType id change = .ok s') :
    s'.fields = s.fields := by
  obtain ⟨t, -, h⟩ := Lookup.of_bind_ok h
  cases h
  rfl

/-- One more field leaves the others as they were. -/
theorem field_push (h : s.field field = .ok f) (g : FieldDecl) :
    Schema.field { s with fields := s.fields.push g } field = .ok f := by
  have hlt := index_lt_of_field h
  rw [field_eq_ok_iff] at h ⊢
  rwa [Array.getElem?_push_lt hlt, ← Array.getElem?_eq_getElem hlt]

/-- A field stays, as it was or changed. -/
theorem field_modifyField {change : FieldDecl → FieldDecl}
    (h : s.modifyField field change = .ok s') (hf : s.field field' = .ok f) :
    s'.field field' = .ok (if field' = field then change f else f) := by
  obtain ⟨f₀, hf₀, h⟩ := Lookup.of_bind_ok h
  cases h
  rw [field_eq_ok_iff, Array.getElem?_setIfInBounds]
  by_cases hfield : field' = field
  · subst hfield
    cases hf₀.symm.trans hf
    simp [index_lt_of_field hf]
  · have hindex : ¬ field.index = field'.index :=
      fun heq => hfield (by cases field; cases field'; simp_all)
    rw [if_neg hindex, if_neg hfield]
    exact field_eq_ok_iff.mp hf

theorem types_modifyField {change : FieldDecl → FieldDecl}
    (h : s.modifyField field change = .ok s') : s'.types = s.types := by
  obtain ⟨f, -, h⟩ := Lookup.of_bind_ok h
  cases h
  rfl

theorem modifyFunction_keeps {f : FunctionId} {change : FunctionDecl → FunctionDecl}
    (h : s.modifyFunction f change = .ok s') : s'.types = s.types ∧ s'.fields = s.fields := by
  obtain ⟨decl, -, h⟩ := Lookup.of_bind_ok h
  cases h
  exact ⟨rfl, rfl⟩

end Schema

/-! ### The invariant along edits -/

namespace FieldsOwned

variable {s s' : Schema} {id : TypeId}

/-- A change of a schema that lists no new field and keeps the owners. -/
theorem of_keeps (h : FieldsOwned s)
    (htypes : ∀ id t', s'.type id = .ok t' →
      t'.fields = [] ∨ ∃ t, s.type id = .ok t ∧ t'.fields = t.fields)
    (hfields : ∀ field f, s.field field = .ok f →
      ∃ f', s'.field field = .ok f' ∧ f'.owner = f.owner) : FieldsOwned s' := by
  intro id t' ht'
  rcases htypes id t' ht' with hnil | ⟨t, ht, heq⟩
  · rw [hnil]
    exact ⟨List.nodup_nil, fun _ hmem => by cases hmem⟩
  · rw [heq]
    refine ⟨(h id t ht).1, fun field hmem => ?_⟩
    obtain ⟨f, hf, howner⟩ := (h id t ht).2 field hmem
    obtain ⟨f', hf', howner'⟩ := hfields field f hf
    exact ⟨f', hf', howner'.trans howner⟩

theorem empty : FieldsOwned {} := by
  intro id t ht
  simp [Schema.type_eq_ok_iff] at ht

theorem setPackage (h : FieldsOwned s) (package : String) : FieldsOwned (s.setPackage package) := h

theorem addType (h : FieldsOwned s) {t : TypeDecl} (ht : t.fields = []) :
    FieldsOwned (s.addType t).2 := by
  refine h.of_keeps (fun id t' ht' => ?_) fun field f hf => ⟨f, hf, rfl⟩
  rcases Schema.type_addType ht' with ⟨-, rfl⟩ | ht'
  · exact .inl ht
  · exact .inr ⟨t', ht', rfl⟩

theorem modifyType (h : FieldsOwned s) {change : TypeDecl → TypeDecl}
    (hchange : ∀ t, (change t).fields = t.fields) (hr : s.modifyType id change = .ok s') :
    FieldsOwned s' := by
  refine h.of_keeps (fun id' t' ht' => ?_) fun field f hf => ?_
  · obtain ⟨t, ht, rfl⟩ := Schema.type_modifyType hr ht'
    refine .inr ⟨t, ht, ?_⟩
    split
    · exact hchange t
    · rfl
  · exact ⟨f, (Schema.field_congr (Schema.fields_modifyType hr) field).trans hf, rfl⟩

theorem modifyField (h : FieldsOwned s) {field : FieldId} {change : FieldDecl → FieldDecl}
    (hchange : ∀ f, (change f).owner = f.owner) (hr : s.modifyField field change = .ok s') :
    FieldsOwned s' := by
  refine h.of_keeps (fun id t ht => ?_) fun field' f hf => ?_
  · rw [Schema.type_congr (Schema.types_modifyField hr)] at ht
    exact .inr ⟨t, ht, rfl⟩
  · refine ⟨_, Schema.field_modifyField hr hf, ?_⟩
    split
    · exact hchange f
    · rfl

theorem modifyFunction (h : FieldsOwned s) {f : FunctionId} {change : FunctionDecl → FunctionDecl}
    (hr : s.modifyFunction f change = .ok s') : FieldsOwned s' := by
  obtain ⟨htypes, hfields⟩ := Schema.modifyFunction_keeps hr
  refine h.of_keeps (fun id t ht => ?_) fun field f hf => ?_
  · rw [Schema.type_congr htypes] at ht
    exact .inr ⟨t, ht, rfl⟩
  · exact ⟨f, (Schema.field_congr hfields field).trans hf, rfl⟩

/-- One more field that no type lists. -/
theorem pushField (h : FieldsOwned s) (f : FieldDecl) :
    FieldsOwned { s with fields := s.fields.push f } :=
  h.of_keeps (fun _ t ht => .inr ⟨t, ht, rfl⟩) fun _ f' hf' => ⟨f', Schema.field_push hf' f, rfl⟩

/-- The new field is owned by the type that lists it, and no other type can list it: its number
was not in use. -/
theorem addField (h : FieldsOwned s) {name : String} {type : ValueType} {field : FieldId}
    (hr : s.addField id name type = .ok (field, s')) : FieldsOwned s' := by
  obtain ⟨s₂, hmodify, hr⟩ := Lookup.of_bind_ok hr
  cases hr
  have hpush := h.pushField { owner := .type id, name, type }
  have hfields := Schema.fields_modifyType hmodify
  intro id' t' ht'
  obtain ⟨t, ht, rfl⟩ := Schema.type_modifyType hmodify ht'
  have ht₀ : s.type id' = .ok t := ht
  have hkept : ∀ field ∈ t.fields, ∃ f, s'.field field = .ok f ∧ f.owner = .type id' := by
    intro field hmem
    obtain ⟨f, hf, howner⟩ := (hpush id' t ht).2 field hmem
    exact ⟨f, (Schema.field_congr hfields field).trans hf, howner⟩
  by_cases hid : id' = id
  · subst hid
    simp only [if_pos]
    have hnew : (⟨s.fields.size⟩ : FieldId) ∉ t.fields := by
      intro hmem
      obtain ⟨f, hf, -⟩ := (h id' t ht₀).2 _ hmem
      exact Nat.lt_irrefl _ (Schema.index_lt_of_field hf)
    refine ⟨?_, fun field hmem => ?_⟩
    · exact List.nodup_append.mpr ⟨(h id' t ht₀).1, List.pairwise_singleton _ _, fun a ha b hb => by
        cases List.mem_singleton.mp hb
        exact fun heq => hnew (heq ▸ ha)⟩
    · rcases List.mem_append.mp hmem with hmem | hmem
      · exact hkept field hmem
      · cases List.mem_singleton.mp hmem
        refine ⟨{ owner := .type id', name, type }, ?_, rfl⟩
        rw [Schema.field_eq_ok_iff, hfields]
        exact Array.getElem?_push_size
  · rw [if_neg hid]
    exact ⟨(h id' t ht₀).1, hkept⟩

theorem addFunction (h : FieldsOwned s) {name : String} {f : FunctionId}
    (hr : s.addFunction id name = .ok (f, s')) : FieldsOwned s' := by
  obtain ⟨s₂, hmodify, hr⟩ := Lookup.of_bind_ok hr
  cases hr
  have hpush : FieldsOwned { s with functions := s.functions.push { owner := id, name } } := h
  refine hpush.modifyType ?_ hmodify
  exact fun _ => rfl

theorem addParam (h : FieldsOwned s) {owner : FunctionId} {name : String} {type : ValueType}
    {flags : Flags FieldFlag} {field : FieldId}
    (hr : s.addParam owner name type flags = .ok (field, s')) : FieldsOwned s' := by
  obtain ⟨s₂, hmodify, hr⟩ := Lookup.of_bind_ok hr
  cases hr
  exact (h.pushField _).modifyFunction hmodify

theorem addWellKnown (h : FieldsOwned s) {name : String} {kind : WellKnown}
    {members : List (String × ValueType)} (hr : s.addWellKnown name kind members = .ok (id, s')) :
    FieldsOwned s' := by
  obtain ⟨s₂, hfold, hr⟩ := Lookup.of_bind_ok hr
  cases hr
  refine Lookup.foldlM_ok (P := FieldsOwned) (fun s m s' h hr => ?_) (h.addType rfl) hfold
  obtain ⟨⟨field, s₃⟩, hadd, hr⟩ := Lookup.of_bind_ok hr
  cases hr
  exact h.addField hadd

theorem addCore (h : FieldsOwned s) (hr : s.addCore = .ok s') : FieldsOwned s' := by
  obtain ⟨⟨vector, s₁⟩, h₁, hr⟩ := Lookup.of_bind_ok hr
  obtain ⟨⟨vector2D, s₂⟩, h₂, hr⟩ := Lookup.of_bind_ok hr
  obtain ⟨⟨rotator, s₃⟩, h₃, hr⟩ := Lookup.of_bind_ok hr
  obtain ⟨⟨quat, s₄⟩, h₄, hr⟩ := Lookup.of_bind_ok hr
  obtain ⟨⟨linearColor, s₅⟩, h₅, hr⟩ := Lookup.of_bind_ok hr
  obtain ⟨⟨color, s₆⟩, h₆, hr⟩ := Lookup.of_bind_ok hr
  obtain ⟨⟨guid, s₇⟩, h₇, hr⟩ := Lookup.of_bind_ok hr
  obtain ⟨⟨transform, s₈⟩, h₈, hr⟩ := Lookup.of_bind_ok hr
  obtain ⟨s₉, h₉, hr⟩ := Lookup.of_bind_ok hr
  obtain ⟨⟨latent, s₁₀⟩, h₁₀, hr⟩ := Lookup.of_bind_ok hr
  obtain ⟨⟨linkage, s₁₁⟩, h₁₁, hr⟩ := Lookup.of_bind_ok hr
  obtain ⟨s₁₂, h₁₂, hr⟩ := Lookup.of_bind_ok hr
  obtain ⟨⟨uuid, s₁₃⟩, h₁₃, hr⟩ := Lookup.of_bind_ok hr
  obtain ⟨⟨function, s₁₄⟩, h₁₄, hr⟩ := Lookup.of_bind_ok hr
  obtain ⟨⟨target, s₁₅⟩, h₁₅, hr⟩ := Lookup.of_bind_ok hr
  cases hr
  have hvector : FieldsOwned s₁ := by
    refine addWellKnown (addType (addType (h.setPackage _) ?_) ?_) h₁ <;> rfl
  have hstructs := hvector.addWellKnown h₂ |>.addWellKnown h₃ |>.addWellKnown h₄
    |>.addWellKnown h₅ |>.addWellKnown h₆ |>.addWellKnown h₇ |>.addWellKnown h₈
  have htransform : FieldsOwned s₉ := by
    refine hstructs.modifyType ?_ h₉
    exact fun _ => rfl
  have hlatent : FieldsOwned s₁₀ := by
    refine addWellKnown (addType (addType (htransform.setPackage _) ?_) ?_) h₁₀ <;> rfl
  have hlinkage : FieldsOwned s₁₂ := by
    refine (hlatent.addField h₁₁).modifyField ?_ h₁₂
    exact fun _ => rfl
  exact (hlinkage.addField h₁₃ |>.addField h₁₄ |>.addField h₁₅).setPackage _

/-- Changes of a type in turn leave its own fields alone. -/
theorem fields_typeChanges (changes : List TypeChange) (t : TypeDecl) :
    (changes.foldl TypeChange.apply t).fields = t.fields := by
  induction changes generalizing t with
  | nil => rfl
  | cons change changes ih =>
      rw [List.foldl_cons, ih]
      cases change <;> rfl

/-- Changes of a field in turn leave its owner alone. -/
theorem owner_fieldChanges (changes : List FieldChange) (f : FieldDecl) :
    (changes.foldl FieldChange.apply f).owner = f.owner := by
  induction changes generalizing f with
  | nil => rfl
  | cons change changes ih =>
      rw [List.foldl_cons, ih]
      cases change <;> rfl

/-- Every edit keeps the invariant. -/
theorem apply {w w' : World} {edit : Edit} (h : FieldsOwned w.schema) (hr : w.apply edit = .ok w') :
    FieldsOwned w'.schema := by
  cases edit with
  | addCore =>
      obtain ⟨s', hs, hr⟩ := Lookup.of_bind_ok hr
      cases hr
      exact h.addCore hs
  | setPackage package => cases hr; exact h
  | addClass name superType => cases hr; exact h.addType rfl
  | addInterface name => cases hr; exact h.addType rfl
  | addStruct name => cases hr; exact h.addType rfl
  | addEnum name entries => cases hr; exact h.addType rfl
  | addType name package kind => cases hr; exact h.addType rfl
  | changeType id changes =>
      obtain ⟨s', hs, hr⟩ := Lookup.of_bind_ok hr
      cases hr
      exact h.modifyType (fields_typeChanges changes) hs
  | addField owner name type =>
      obtain ⟨⟨field, s'⟩, hs, hr⟩ := Lookup.of_bind_ok hr
      cases hr
      exact h.addField hs
  | changeField id changes =>
      obtain ⟨s', hs, hr⟩ := Lookup.of_bind_ok hr
      cases hr
      exact h.modifyField (owner_fieldChanges changes) hs
  | addFunction owner name =>
      obtain ⟨⟨f, s'⟩, hs, hr⟩ := Lookup.of_bind_ok hr
      cases hr
      exact h.addFunction hs
  | changeFunction id changes =>
      obtain ⟨s', hs, hr⟩ := Lookup.of_bind_ok hr
      cases hr
      exact h.modifyFunction hs
  | addParam owner name type flags =>
      obtain ⟨⟨field, s'⟩, hs, hr⟩ := Lookup.of_bind_ok hr
      cases hr
      exact h.addParam hs
  | addObject name cls outer => cases hr; exact h
  | setObjectFlags id flags =>
      obtain ⟨objects, -, hr⟩ := Lookup.of_bind_ok hr
      cases hr
      exact h
  | setValue id field value =>
      obtain ⟨objects, -, hr⟩ := Lookup.of_bind_ok hr
      cases hr
      exact h

end FieldsOwned

/-- In a built world, a type lists a field once, and only if it owns the field. -/
theorem fieldsOwned_of_build {edits : List Edit} {w : World} (h : World.build edits = .ok w) :
    FieldsOwned w.schema :=
  Lookup.foldlM_ok (P := fun w => FieldsOwned w.schema) (fun _ _ _ h hr => h.apply hr)
    FieldsOwned.empty h

/-! ### All fields of a type -/

namespace Schema

variable {s : Schema} {id : TypeId} {ts us : List TypeDecl}

/-- More room for super types changes no lineage. -/
theorem lineageFrom_unique {n m : Nat} (h : s.lineageFrom n id = .ok ts)
    (h' : s.lineageFrom m id = .ok us) : ts = us := by
  induction n generalizing m id ts us with
  | zero => cases h
  | succ n ih =>
      cases m with
      | zero => cases h'
      | succ m =>
          obtain ⟨t, ht, h⟩ := Lookup.of_bind_ok h
          rw [lineageFrom, Lookup.bind_of_ok ht] at h'
          cases hsuper : t.superType with
          | none =>
              rw [hsuper] at h h'
              cases h
              cases h'
              rfl
          | some parent =>
              rw [hsuper] at h h'
              obtain ⟨rest, hrest, h⟩ := Lookup.of_bind_ok h
              obtain ⟨rest', hrest', h'⟩ := Lookup.of_bind_ok h'
              cases h
              cases h'
              rw [ih hrest hrest']

/-- The fields of a lineage are distinct, and each is owned by a type whose own lineage is no
longer. -/
theorem fields_lineageFrom (howned : FieldsOwned s) {n : Nat} (h : s.lineageFrom n id = .ok ts) :
    (ts.flatMap (·.fields)).Nodup ∧ ∀ field ∈ ts.flatMap (·.fields), ∃ f owner m us,
      s.field field = .ok f ∧ f.owner = .type owner ∧ s.lineageFrom m owner = .ok us ∧
        us.length ≤ ts.length := by
  induction n generalizing id ts with
  | zero => cases h
  | succ n ih =>
      have hself := h
      obtain ⟨t, ht, h⟩ := Lookup.of_bind_ok h
      obtain ⟨hnodup, hown⟩ := howned id t ht
      have howner : ∀ field ∈ t.fields, ∃ f owner m us,
          s.field field = .ok f ∧ f.owner = .type owner ∧ s.lineageFrom m owner = .ok us ∧
            us.length ≤ ts.length := by
        intro field hmem
        obtain ⟨f, hf, ho⟩ := hown field hmem
        exact ⟨f, id, n + 1, ts, hf, ho, hself, Nat.le_refl _⟩
      cases hsuper : t.superType with
      | none =>
          rw [hsuper] at h
          cases h
          rw [List.flatMap_singleton]
          exact ⟨hnodup, howner⟩
      | some parent =>
          rw [hsuper] at h
          obtain ⟨rest, hrest, h⟩ := Lookup.of_bind_ok h
          cases h
          obtain ⟨hrestNodup, hrestOwn⟩ := ih hrest
          rw [List.flatMap_cons]
          refine ⟨List.nodup_append.mpr ⟨hnodup, hrestNodup, ?_⟩, fun field hmem => ?_⟩
          · -- A field of `t` further up would make the lineage of its owner shorter than itself.
            rintro field hmem _ hmem' rfl
            obtain ⟨f, hf, ho⟩ := hown field hmem
            obtain ⟨f', owner, m, us, hf', ho', hus, hlen⟩ := hrestOwn field hmem'
            cases hf.symm.trans hf'
            cases ho.symm.trans ho'
            cases lineageFrom_unique hself hus
            exact absurd hlen (Nat.not_succ_le_self _)
          · rcases List.mem_append.mp hmem with hmem | hmem
            · exact howner field hmem
            · obtain ⟨f, owner, m, us, hf, ho, hus, hlen⟩ := hrestOwn field hmem
              exact ⟨f, owner, m, us, hf, ho, hus, Nat.le_succ_of_le hlen⟩

end Schema

/-- No field stands twice among all fields of a type. -/
theorem FieldsOwned.nodup_allFields {s : Schema} (h : FieldsOwned s) {id : TypeId}
    {fields : List FieldId} (hfields : s.allFields id = .ok fields) : fields.Nodup := by
  obtain ⟨ts, hts, hfields⟩ := Lookup.of_bind_ok hfields
  cases hfields
  exact (((List.reverse_perm ts).flatMap_right (·.fields)).nodup_iff).mpr
    (Schema.fields_lineageFrom h hts).1

/-- Every field of a type is declared. -/
theorem FieldsOwned.field_of_mem_allFields {s : Schema} (h : FieldsOwned s) {id : TypeId}
    {fields : List FieldId} (hfields : s.allFields id = .ok fields) {field : FieldId}
    (hmem : field ∈ fields) : ∃ f, s.field field = .ok f := by
  obtain ⟨ts, hts, hfields⟩ := Lookup.of_bind_ok hfields
  cases hfields
  have hperm := (List.reverse_perm ts).flatMap_right (·.fields)
  obtain ⟨f, -, -, -, hf, -⟩ := (Schema.fields_lineageFrom h hts).2 field (hperm.mem_iff.mp hmem)
  exact ⟨f, hf⟩

end GraphLowering
