import GraphLowering.Proofs.Schema.Links
import GraphLowering.World

/-!
# Schema — ownership in the worlds that edits build

An edit is in range when what it adds to or changes is there (`Edit.InRange`).  Such an edit always
succeeds, and extends the directory of the schema or leaves it as it is.

* `World.apply_extends`, `World.run_extends`: what an edit does, and then edits in turn.
* `Schema.Consistent`: owners and lists agree, and a name finds the latest type that has it.
* `World.links_consistent`: so it is in every world that edits build, and what was there before an
  edit keeps its name and type.
-/

namespace GraphLowering

/-! ### Edits in range -/

namespace Edit

/-- What the edit adds to or changes is there. -/
def InRange (e : Extent) : Edit → Prop
  | .changeType id _ | .addField id _ _ | .addFunction id _ => id.InRange e
  | .changeField id _ => id.InRange e
  | .changeFunction id _ | .addParam id _ _ _ => id.InRange e
  | .setObjectFlags id _ | .setValue id _ _ => id.InRange e
  | .addCore | .setPackage _ | .addClass _ _ | .addInterface _ | .addStruct _ | .addEnum _ _
  | .addType _ _ _ | .addObject _ _ _ => True

instance (e : Extent) : (edit : Edit) → Decidable (edit.InRange e)
  | .changeType id _ | .addField id _ _ | .addFunction id _ =>
    inferInstanceAs (Decidable (id.InRange e))
  | .changeField id _ => inferInstanceAs (Decidable (id.InRange e))
  | .changeFunction id _ | .addParam id _ _ _ => inferInstanceAs (Decidable (id.InRange e))
  | .setObjectFlags id _ | .setValue id _ _ => inferInstanceAs (Decidable (id.InRange e))
  | .addCore | .setPackage _ | .addClass _ _ | .addInterface _ | .addStruct _ | .addEnum _ _
  | .addType _ _ _ | .addObject _ _ _ => isTrue trivial

/-- How many entities there are after the edit. -/
def extend (e : Extent) : Edit → Extent
  | .addCore => { e with types := e.types + 13, fields := e.fields + 31 }
  | .addClass _ _ | .addInterface _ | .addStruct _ | .addEnum _ _ | .addType _ _ _ =>
    { e with types := e.types + 1 }
  | .addField _ _ _ | .addParam _ _ _ _ => { e with fields := e.fields + 1 }
  | .addFunction _ _ => { e with functions := e.functions + 1 }
  | .addObject _ _ _ => { e with objects := e.objects + 1 }
  | .setPackage _ | .changeType _ _ | .changeField _ _ | .changeFunction _ _
  | .setObjectFlags _ _ | .setValue _ _ _ => e

/-- Each edit is in range when its turn comes. -/
def AllInRange (e : Extent) : List Edit → Prop
  | [] => True
  | edit :: edits => edit.InRange e ∧ AllInRange (edit.extend e) edits

instance decidableAllInRange : (e : Extent) → (edits : List Edit) → Decidable (AllInRange e edits)
  | _, [] => isTrue trivial
  | e, edit :: edits =>
    have := decidableAllInRange (edit.extend e) edits
    inferInstanceAs (Decidable (_ ∧ _))

theorem allInRange_append {e : Extent} {before later : List Edit} :
    AllInRange e (before ++ later) ↔
      AllInRange e before ∧ AllInRange (before.foldl extend e) later := by
  induction before generalizing e with
  | nil => simp [AllInRange]
  | cons edit before ih => simp [AllInRange, ih, and_assoc]

end Edit

/-! ### Changes keep the links -/

/-- What every change keeps, changes in turn keep. -/
theorem foldl_kept {α β γ : Type} (change : α → β → α) (key : α → γ)
    (h : ∀ a c, key (change a c) = key a) (changes : List β) (a : α) :
    key (changes.foldl change a) = key a := by
  induction changes generalizing a with
  | nil => rfl
  | cons c changes ih => exact (ih (change a c)).trans (h a c)

namespace Schema

variable {A : Prop} {s : Schema}

theorem changeType_grows {id : TypeId} (hid : id.index < s.types.size)
    (changes : List TypeChange) :
    Answers A (s.modifyType id (changes.foldl TypeChange.apply)) (s.Grows 0 0 0) := by
  have hkey := foldl_kept TypeChange.apply (fun t => (t.name, t.package, t.kind))
    (fun t c => by cases c <;> rfl) changes
  have hlists := foldl_kept TypeChange.apply (fun t => (t.fields, t.functions))
    (fun t c => by cases c <;> rfl) changes
  exact modifyType_grows hid hkey fun t =>
    ⟨congrArg Prod.fst (hlists t), congrArg Prod.snd (hlists t)⟩

theorem changeField_grows {field : FieldId} (hid : field.index < s.fields.size)
    (changes : List FieldChange) :
    Answers A (s.modifyField field (changes.foldl FieldChange.apply)) (s.Grows 0 0 0) :=
  modifyField_grows hid <| foldl_kept FieldChange.apply (fun f => (f.owner, f.name, f.type))
    (fun f c => by cases c <;> rfl) changes

theorem changeFunction_grows {f : FunctionId} (hid : f.index < s.functions.size)
    (changes : List FunctionChange) :
    Answers A (s.modifyFunction f (changes.foldl FunctionChange.apply)) (s.Grows 0 0 0) :=
  modifyFunction_grows hid
    (foldl_kept FunctionChange.apply (fun d => (d.owner, d.name))
      (fun d c => by cases c <;> rfl) changes)
    (foldl_kept FunctionChange.apply (·.params) (fun d c => by cases c <;> rfl) changes)

end Schema

/-! ### What edits do -/

namespace World

open Directory (Steps)

def extent (w : World) : Extent := .of w.schema w.objects

/-- `w'` has the entries of `w` and perhaps more, and has so many in all. -/
structure Extends (w w' : World) (e : Extent) : Prop where
  steps : Steps w.schema.directory w'.schema.directory
  extent : w'.extent = e

variable {w : World}

/-- The schema alone grows. -/
theorem withSchema_extends {s : Schema} {a b c : Nat} (h : w.schema.Grows a b c s) :
    w.Extends (w.withSchema s) { w.extent with
      types := w.extent.types + a, fields := w.extent.fields + b
      functions := w.extent.functions + c } where
  steps := h.steps
  extent := by simp only [extent, Extent.of, withSchema, h.types, h.fields, h.functions]

/-- A live object in range can be changed. -/
theorem modifyObject_extends {id : ObjectId} (hid : id.InRange w.extent)
    (change : ObjectRecord → ObjectRecord) :
    Answers True (do return { w with objects := ← w.objects.modify id change })
      (w.Extends · w.extent) := by
  have hget := ObjectStore.object_eq_ok_iff.mpr (Array.getElem?_eq_getElem hid)
  refine .bind (.of_eq (Lookup.bind_of_ok hget _) (Q := fun store =>
    store.objects.size = w.objects.objects.size) (by simp)) fun store hsize => .pure ⟨.refl, ?_⟩
  simp only [extent, Extent.of, hsize]

/-- An edit in range succeeds, and only adds entries. -/
theorem apply_extends {edit : Edit} (h : edit.InRange w.extent) :
    Answers True (w.apply edit) (w.Extends · (edit.extend w.extent)) := by
  cases edit with
  | addCore => exact .bind (Schema.addCore_grows _) fun _ hs => .pure (withSchema_extends hs)
  | setPackage package => exact .pure (withSchema_extends (.setPackage _ _))
  | addClass name superType => exact .pure (withSchema_extends (.addType _ rfl rfl))
  | addInterface name => exact .pure (withSchema_extends (.addType _ rfl rfl))
  | addStruct name => exact .pure (withSchema_extends (.addType _ rfl rfl))
  | addEnum name entries => exact .pure (withSchema_extends (.addType _ rfl rfl))
  | addType name package kind => exact .pure (withSchema_extends (.addType _ rfl rfl))
  | changeType id changes =>
      exact .bind (Schema.changeType_grows h changes) fun _ hs => .pure (withSchema_extends hs)
  | addField owner name type =>
      exact .bind (Schema.addField_grows h name type) fun _ hs => .pure (withSchema_extends hs.2)
  | changeField id changes =>
      exact .bind (Schema.changeField_grows h changes) fun _ hs => .pure (withSchema_extends hs)
  | addFunction owner name =>
      exact .bind (Schema.addFunction_grows h name) fun _ hs => .pure (withSchema_extends hs)
  | changeFunction id changes =>
      exact .bind (Schema.changeFunction_grows h changes) fun _ hs => .pure (withSchema_extends hs)
  | addParam owner name type flags =>
      exact .bind (Schema.addParam_grows h name type flags) fun _ hs =>
        .pure (withSchema_extends hs)
  | addObject name cls outer =>
      exact .pure ⟨.refl, by simp [extent, Extent.of, ObjectStore.add, Edit.extend]⟩
  | setObjectFlags id flags => exact modifyObject_extends h _
  | setValue id field value => exact modifyObject_extends h _

/-- So do edits in turn. -/
theorem run_extends {edits : List Edit} (h : Edit.AllInRange w.extent edits) :
    Answers True (edits.foldlM apply w) (w.Extends · (edits.foldl Edit.extend w.extent)) := by
  induction edits generalizing w with
  | nil => exact .pure ⟨.refl, rfl⟩
  | cons edit edits ih =>
      rw [List.foldlM_cons]
      refine .bind (apply_extends h.1) fun w₁ h₁ => ?_
      refine (ih (h₁.extent ▸ h.2)).imp fun w₂ h₂ => ⟨h₁.steps.trans h₂.steps, ?_⟩
      rw [h₂.extent, h₁.extent, List.foldl_cons]

end World

/-! ### Owners and their lists -/

namespace Schema

/-- Owners and lists agree, and a name finds the latest type that has it. -/
structure Consistent (s : Schema) : Prop where
  mem_fields : ∀ id t, s.type id = .ok t →
    ∀ field, field ∈ t.fields ↔ ∃ f, s.field field = .ok f ∧ f.owner = .type id
  mem_params : ∀ id d, s.function id = .ok d →
    ∀ field, field ∈ d.params ↔ ∃ f, s.field field = .ok f ∧ f.owner = .function id
  mem_functions : ∀ id t, s.type id = .ok t →
    ∀ function, function ∈ t.functions ↔ ∃ d, s.function function = .ok d ∧ d.owner = id
  fields_ascend : ∀ id t, s.type id = .ok t → t.fields.Pairwise (·.index < ·.index)
  params_ascend : ∀ id d, s.function id = .ok d → d.params.Pairwise (·.index < ·.index)
  functions_ascend : ∀ id t, s.type id = .ok t → t.functions.Pairwise (·.index < ·.index)
  /-- A field is in the list of exactly one type or function. -/
  field_listed : ∀ field f, s.field field = .ok f → ∃! owner, field ∈ s.fieldsOf owner
  function_listed : ∀ function d, s.function function = .ok d →
    ∃! owner, function ∈ s.functionsOf owner
  findType_some : ∀ name id, s.findType? name = some id ↔
    s.typeName id = .ok name ∧ ∀ other, s.typeName other = .ok name → other.index ≤ id.index
  findType_none : ∀ name, s.findType? name = none ↔ ∀ id, s.typeName id ≠ .ok name

/-- What `s` has is in `s'`, with the same name and type. -/
structure Kept (s s' : Schema) : Prop where
  types : ∀ id t, s.type id = .ok t →
    ∃ t', s'.type id = .ok t' ∧ t'.name = t.name ∧ t'.package = t.package ∧ t'.kind = t.kind
  fields : ∀ id f, s.field id = .ok f →
    ∃ f', s'.field id = .ok f' ∧ f'.owner = f.owner ∧ f'.name = f.name ∧ f'.type = f.type
  functions : ∀ id d, s.function id = .ok d →
    ∃ d', s'.function id = .ok d' ∧ d'.owner = d.owner ∧ d'.name = d.name

end Schema

/-! ### Lists of places -/

/-- A row stays where it is when rows are added. -/
theorem exists_row_of_prefix {α β : Type} {xs ys : Array α} {key : α → β}
    (h : xs.toList.map key <+: ys.toList.map key) {i : Nat} {a : α}
    (ha : xs[i]? = some a) : ∃ a', ys[i]? = some a' ∧ key a' = key a := by
  obtain ⟨rest, hrest⟩ := h
  have hrow : (ys.toList.map key)[i]? = some (key a) := by
    rw [← hrest, List.getElem?_append_left (by simp [(Array.getElem?_eq_some_iff.mp ha).1])]
    simp [ha]
  simpa using hrow

section Places

variable {α β ι : Type} [DecidableEq β] {index : ι → Nat} {list : List ι} {xs : Array α}
  {key : α → β} {b : β}

/-- A list of the places of a key has what has the key. -/
theorem mem_iff_of_places (hindex : Function.Injective index)
    (h : list.map index = (xs.toList.map key).idxsOf b) {i : ι} :
    i ∈ list ↔ ∃ a, xs[index i]? = some a ∧ key a = b := by
  rw [← List.mem_map_of_injective hindex, h]
  simp [Array.getElem?_eq_some_iff]

theorem pairwise_of_places (h : list.map index = (xs.toList.map key).idxsOf b) :
    list.Pairwise (index · < index ·) := by
  rw [← List.pairwise_map, h]
  exact List.pairwise_idxsOf

/-- The last of ascending numbers is the largest. -/
theorem getLast?_eq_some_iff_of_pairwise {l : List Nat} (h : l.Pairwise (· < ·)) {i : Nat} :
    l.getLast? = some i ↔ i ∈ l ∧ ∀ j ∈ l, j ≤ i := by
  rcases List.eq_nil_or_concat' l with rfl | ⟨first, last, rfl⟩
  · simp
  · have hfirst : ∀ j ∈ first, j < last := fun j hj =>
      (List.pairwise_append.mp h).2.2 j hj last List.mem_cons_self
    rw [List.getLast?_concat, Option.some_inj]
    constructor
    · rintro rfl
      refine ⟨List.mem_concat_self, fun j hj => ?_⟩
      rcases List.mem_append.mp hj with hj | hj
      · exact Nat.le_of_lt (hfirst j hj)
      · exact Nat.le_of_eq (List.mem_singleton.mp hj)
    · rintro ⟨hmem, hmax⟩
      have hle : last ≤ i := hmax last List.mem_concat_self
      rcases List.mem_append.mp hmem with hi | hi
      · exact absurd (hfirst i hi) (Nat.not_lt.mpr hle)
      · exact (List.mem_singleton.mp hi).symm

end Places

namespace Schema

variable {s s' : Schema}

theorem typeName_eq_ok_iff {id : TypeId} {name : String} :
    s.typeName id = .ok name ↔ ∃ t, s.types[id.index]? = some t ∧ t.name = name := by
  constructor
  · intro h
    obtain ⟨t, ht, hname⟩ := Lookup.of_bind_ok h
    cases hname
    exact ⟨t, type_eq_ok_iff.mp ht, rfl⟩
  · rintro ⟨t, ht, rfl⟩
    exact Lookup.bind_of_ok (type_eq_ok_iff.mpr ht) _

theorem mem_idxsOf_name_iff {id : TypeId} {name : String} :
    id.index ∈ (s.types.toList.map (·.name)).idxsOf name ↔ s.typeName id = .ok name := by
  simp [typeName_eq_ok_iff, Array.getElem?_eq_some_iff]

section Linked

variable (h : s.directory.Linked)

include h

theorem places_fieldsOf (owner : FieldOwner) :
    (s.fieldsOf owner).map (·.index) = (s.fields.toList.map (·.owner)).idxsOf owner := by
  simpa [directory] using h.fields owner

theorem places_functionsOf (owner : TypeId) :
    (s.functionsOf owner).map (·.index) = (s.functions.toList.map (·.owner)).idxsOf owner := by
  simpa [directory] using h.functions owner

theorem mem_fieldsOf_iff {field : FieldId} {owner : FieldOwner} :
    field ∈ s.fieldsOf owner ↔ ∃ f, s.field field = .ok f ∧ f.owner = owner := by
  simp only [field_eq_ok_iff]
  exact mem_iff_of_places (fun ⟨_⟩ ⟨_⟩ => congrArg FieldId.mk) (places_fieldsOf h owner)

theorem mem_functionsOf_iff {function : FunctionId} {owner : TypeId} :
    function ∈ s.functionsOf owner ↔ ∃ d, s.function function = .ok d ∧ d.owner = owner := by
  simp only [function_eq_ok_iff]
  exact mem_iff_of_places (fun ⟨_⟩ ⟨_⟩ => congrArg FunctionId.mk) (places_functionsOf h owner)

theorem map_findType? (name : String) : (s.findType? name).map (·.index) =
    ((s.types.toList.map (·.name)).idxsOf name).getLast? := by
  simpa [directory] using h.names name

theorem findType?_eq_some_iff {name : String} {id : TypeId} : s.findType? name = some id ↔
    s.typeName id = .ok name ∧ ∀ other, s.typeName other = .ok name → other.index ≤ id.index := by
  have hindex : Function.Injective TypeId.index := fun ⟨_⟩ ⟨_⟩ => congrArg TypeId.mk
  rw [← (Option.map_injective hindex).eq_iff, map_findType? h, Option.map_some,
    getLast?_eq_some_iff_of_pairwise List.pairwise_idxsOf]
  refine and_congr mem_idxsOf_name_iff ⟨fun hmax other hother => ?_, fun hmax j hj => ?_⟩
  · exact hmax _ (mem_idxsOf_name_iff.mpr hother)
  · exact hmax ⟨j⟩ (mem_idxsOf_name_iff.mp hj)

theorem findType?_eq_none_iff {name : String} :
    s.findType? name = none ↔ ∀ id, s.typeName id ≠ .ok name := by
  rw [← Option.map_eq_none_iff, map_findType? h, List.getLast?_eq_none_iff,
    List.eq_nil_iff_forall_not_mem]
  refine ⟨fun hnone id hid => ?_, fun hnone j hj => ?_⟩
  · exact hnone _ (mem_idxsOf_name_iff.mpr hid)
  · exact hnone ⟨j⟩ (mem_idxsOf_name_iff.mp hj)

theorem consistent_of_linked : s.Consistent where
  mem_fields id t ht field := by
    rw [← fieldsOf_type (type_eq_ok_iff.mp ht), mem_fieldsOf_iff h]
  mem_params id d hd field := by
    rw [← fieldsOf_function (function_eq_ok_iff.mp hd), mem_fieldsOf_iff h]
  mem_functions id t ht function := by
    rw [← functionsOf_type (type_eq_ok_iff.mp ht), mem_functionsOf_iff h]
  fields_ascend id t ht := by
    rw [← fieldsOf_type (type_eq_ok_iff.mp ht)]
    exact pairwise_of_places (places_fieldsOf h _)
  params_ascend id d hd := by
    rw [← fieldsOf_function (function_eq_ok_iff.mp hd)]
    exact pairwise_of_places (places_fieldsOf h _)
  functions_ascend id t ht := by
    rw [← functionsOf_type (type_eq_ok_iff.mp ht)]
    exact pairwise_of_places (places_functionsOf h _)
  field_listed field f hf := by
    refine ⟨f.owner, (mem_fieldsOf_iff h).mpr ⟨f, hf, rfl⟩, fun owner howner => ?_⟩
    obtain ⟨f', hf', rfl⟩ := (mem_fieldsOf_iff h).mp howner
    cases hf.symm.trans hf'
    rfl
  function_listed function d hd := by
    refine ⟨d.owner, (mem_functionsOf_iff h).mpr ⟨d, hd, rfl⟩, fun owner howner => ?_⟩
    obtain ⟨d', hd', rfl⟩ := (mem_functionsOf_iff h).mp howner
    cases hd.symm.trans hd'
    rfl
  findType_some _ _ := findType?_eq_some_iff h
  findType_none _ := findType?_eq_none_iff h

end Linked

theorem linked_empty : (directory {}).Linked where
  fields owner := by cases owner <;> rfl
  functions _ := rfl
  names _ := rfl

theorem kept_of_keeps (h : s.directory.Keeps s'.directory) : s.Kept s' where
  types id t ht := by
    obtain ⟨t', ht', hkey⟩ := exists_row_of_prefix h.types (type_eq_ok_iff.mp ht)
    simp only [Prod.mk.injEq] at hkey
    exact ⟨t', type_eq_ok_iff.mpr ht', hkey⟩
  fields id f hf := by
    obtain ⟨f', hf', hkey⟩ := exists_row_of_prefix h.fields (field_eq_ok_iff.mp hf)
    simp only [Prod.mk.injEq] at hkey
    exact ⟨f', field_eq_ok_iff.mpr hf', hkey⟩
  functions id d hd := by
    obtain ⟨d', hd', hkey⟩ := exists_row_of_prefix h.functions (function_eq_ok_iff.mp hd)
    simp only [Prod.mk.injEq] at hkey
    exact ⟨d', function_eq_ok_iff.mpr hd', hkey⟩

end Schema

namespace World

/-- **Ownership is consistent**: edits in range build a world, in which a list of an owner has
exactly what names that owner, in ascending order, everything is in one list, and a name finds the
latest type that has it; and what the first edits build keeps its number, name and type. -/
theorem links_consistent (before later : List Edit)
    (h : Edit.AllInRange (extent {}) (before ++ later)) :
    ∃ w₀ w, build before = .ok w₀ ∧ build (before ++ later) = .ok w ∧
      w.schema.Consistent ∧ w₀.schema.Kept w.schema := by
  obtain ⟨hbefore, hlater⟩ := Edit.allInRange_append.mp h
  obtain ⟨w₀, hw₀, h₀⟩ := (run_extends hbefore).exists_ok trivial
  obtain ⟨w, hw, h₁⟩ := (run_extends (h₀.extent ▸ hlater)).exists_ok trivial
  have hsteps : Directory.Steps (Schema.directory {}) w.schema.directory :=
    h₀.steps.trans h₁.steps
  refine ⟨w₀, w, hw₀, ?_, ?_, ?_⟩
  · rw [build, List.foldlM_append, Lookup.bind_of_ok hw₀, hw]
  · exact Schema.consistent_of_linked (Directory.Steps.linked hsteps Schema.linked_empty)
  · exact Schema.kept_of_keeps (Directory.Steps.keeps h₁.steps)

/-- Two structs of one name, with fields and parameters in between. -/
theorem links_consistent_homonyms :
    let before : List Edit := [.addStruct "Point", .addField ⟨0⟩ "X" .int, .addFunction ⟨0⟩ "Norm",
      .addParam ⟨0⟩ "Scale" .float {}]
    let later : List Edit := [.addStruct "Point", .addField ⟨1⟩ "X" .float,
      .addField ⟨0⟩ "Y" .int, .addParam ⟨0⟩ "Result" .int {}, .addCore]
    Edit.AllInRange (extent {}) (before ++ later) ∧
      ∃ w₀ w, build before = .ok w₀ ∧ build (before ++ later) = .ok w ∧
        w.schema.Consistent ∧ w₀.schema.Kept w.schema :=
  ⟨by decide, links_consistent _ _ (by decide)⟩

end World
end GraphLowering
