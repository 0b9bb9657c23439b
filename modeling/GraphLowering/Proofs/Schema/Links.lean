import GraphLowering.Proofs.Schema.Fields
import GraphLowering.Proofs.Totality.Ranges
import Mathlib.Data.List.Basic
import Mathlib.Logic.Function.Basic
import Mathlib.Logic.Relation

/-!
# Schema — links between owners and what they own

A field names its owner, and the owner lists the field; so it is with functions, and types are found
by name.  All this is the `Directory` of a schema.  An edit of a schema leaves its directory as it
is or extends it, entry by entry (`Directory.Step`), so that an invariant of directories is checked
on three kinds of entries.

* `Directory.Linked`: a list of an owner has the numbers of all that it owns, in ascending order.
* `Directory.Keeps`: what an entry says is kept.
* `Schema.Grows`, with a lemma for each way to add to a schema: additions in range succeed, and what
  they do to the directory is such steps.
-/

namespace GraphLowering

/-- What a schema tells about its owners, their lists and the names of types. -/
@[ext] structure Directory where
  /-- Name, package and kind of each type. -/
  types : List (String × String × TypeKind)
  /-- Owner, name and type of each field. -/
  fields : List (FieldOwner × String × ValueType)
  /-- Owner and name of each function. -/
  functions : List (TypeId × String)
  /-- The fields that a type lists, or the parameters that a function does. -/
  fieldsOf : FieldOwner → List FieldId
  functionsOf : TypeId → List FunctionId
  find? : String → Option TypeId

namespace Directory

/-- One more type, which hides the earlier ones of its name. -/
def addType (d : Directory) (name package : String) (kind : TypeKind) : Directory :=
  { d with
    types := d.types ++ [(name, package, kind)]
    find? := Function.update d.find? name (some ⟨d.types.length⟩) }

/-- One more field, at the end of its owner's list. -/
def addField (d : Directory) (owner : FieldOwner) (name : String) (type : ValueType) : Directory :=
  { d with
    fields := d.fields ++ [(owner, name, type)]
    fieldsOf := Function.update d.fieldsOf owner (d.fieldsOf owner ++ [⟨d.fields.length⟩]) }

/-- One more function, at the end of its owner's list. -/
def addFunction (d : Directory) (owner : TypeId) (name : String) : Directory :=
  { d with
    functions := d.functions ++ [(owner, name)]
    functionsOf := Function.update d.functionsOf owner
      (d.functionsOf owner ++ [⟨d.functions.length⟩]) }

/-- One more entry. -/
inductive Step : Directory → Directory → Prop
  | type (d : Directory) (name package : String) (kind : TypeKind) :
      Step d (d.addType name package kind)
  | field (d : Directory) (owner : FieldOwner) (name : String) (type : ValueType) :
      Step d (d.addField owner name type)
  | function (d : Directory) (owner : TypeId) (name : String) : Step d (d.addFunction owner name)

/-- More entries, one after the other. -/
abbrev Steps : Directory → Directory → Prop := Relation.ReflTransGen Step

/-! ### What entries keep -/

/-- A list holds the numbers of exactly those that name its owner, in ascending order, and a name
finds the last type that has it. -/
structure Linked (d : Directory) : Prop where
  fields : ∀ owner, (d.fieldsOf owner).map (·.index) = (d.fields.map (·.1)).idxsOf owner
  functions : ∀ owner, (d.functionsOf owner).map (·.index) = (d.functions.map (·.1)).idxsOf owner
  names : ∀ name, (d.find? name).map (·.index) = ((d.types.map (·.1)).idxsOf name).getLast?

/-- `d'` has the entries of `d` first. -/
structure Keeps (d d' : Directory) : Prop where
  types : d.types <+: d'.types
  fields : d.fields <+: d'.fields
  functions : d.functions <+: d'.functions

variable {d d' : Directory}

/-- The places of a value behind one more entry. -/
theorem idxsOf_concat {α : Type} [DecidableEq α] (owners : List α) (new owner : α) :
    (owners ++ [new]).idxsOf owner =
      if owner = new then owners.idxsOf owner ++ [owners.length] else owners.idxsOf owner := by
  by_cases h : owner = new
  · simp [h]
  · simp [h, Ne.symm h]

/-- Lists that hold the places of their owners still do with one more entry, at the end of its
owner's list. -/
theorem map_update_eq_idxsOf {α ι : Type} [DecidableEq α] {lists : α → List ι} {index : ι → Nat}
    {owners : List α} (h : ∀ owner, (lists owner).map index = owners.idxsOf owner) {new : ι}
    (hnew : index new = owners.length) (owner other : α) :
    (Function.update lists owner (lists owner ++ [new]) other).map index =
      (owners ++ [owner]).idxsOf other := by
  rw [idxsOf_concat]
  by_cases howner : other = owner
  · subst howner
    simp [h, hnew]
  · rw [if_neg howner, Function.update_of_ne howner, h]

theorem Linked.step (h : d.Linked) (hs : Step d d') : d'.Linked := by
  cases hs with
  | type name package kind =>
      refine ⟨h.fields, h.functions, fun other => ?_⟩
      simp only [addType, List.map_append, List.map_cons, List.map_nil, idxsOf_concat]
      by_cases hname : other = name
      · subst hname
        simp
      · rw [if_neg hname, Function.update_of_ne hname]
        exact h.names other
  | field owner name type =>
      refine ⟨fun other => ?_, h.functions, h.names⟩
      simp only [addField, List.map_append, List.map_cons, List.map_nil]
      exact map_update_eq_idxsOf h.fields (by simp) owner other
  | function owner name =>
      refine ⟨h.fields, fun other => ?_, h.names⟩
      simp only [addFunction, List.map_append, List.map_cons, List.map_nil]
      exact map_update_eq_idxsOf h.functions (by simp) owner other

theorem Keeps.refl (d : Directory) : d.Keeps d :=
  ⟨List.prefix_refl _, List.prefix_refl _, List.prefix_refl _⟩

theorem Keeps.step {d'' : Directory} (h : d.Keeps d') (hs : Step d' d'') : d.Keeps d'' := by
  cases hs with
  | type name package kind => exact ⟨h.types.trans (List.prefix_append _ _), h.fields, h.functions⟩
  | field owner name type => exact ⟨h.types, h.fields.trans (List.prefix_append _ _), h.functions⟩
  | function owner name => exact ⟨h.types, h.fields, h.functions.trans (List.prefix_append _ _)⟩

theorem Steps.linked (hs : Steps d d') (h : d.Linked) : d'.Linked := by
  induction hs with
  | refl => exact h
  | tail _ hstep ih => exact ih.step hstep

theorem Steps.keeps (hs : Steps d d') : d.Keeps d' := by
  induction hs with
  | refl => exact .refl d
  | tail _ hstep ih => exact ih.step hstep

end Directory

/-! ### The directory of a schema -/

namespace Schema

open Directory

/-- The fields that a type lists, or the parameters that a function does; none if there is no such
type or function. -/
def fieldsOf (s : Schema) : FieldOwner → List FieldId
  | .type id => (s.types[id.index]?.map (·.fields)).getD []
  | .function id => (s.functions[id.index]?.map (·.params)).getD []

/-- The functions that a type lists; none if there is no such type. -/
def functionsOf (s : Schema) (id : TypeId) : List FunctionId :=
  (s.types[id.index]?.map (·.functions)).getD []

def directory (s : Schema) : Directory where
  types := s.types.toList.map fun t => (t.name, t.package, t.kind)
  fields := s.fields.toList.map fun f => (f.owner, f.name, f.type)
  functions := s.functions.toList.map fun f => (f.owner, f.name)
  fieldsOf := s.fieldsOf
  functionsOf := s.functionsOf
  find? := s.findType?

variable {s s' : Schema} {id : TypeId} {t : TypeDecl}

/-- A change of an entry that keeps what is tabled of it keeps the table. -/
theorem map_setIfInBounds {α β : Type} {xs : Array α} {i : Nat} {x y : α} {f : α → β}
    (hx : xs[i]? = some x) (hf : f y = f x) :
    (xs.setIfInBounds i y).toList.map f = xs.toList.map f := by
  obtain ⟨hlt, rfl⟩ := Array.getElem?_eq_some_iff.mp hx
  refine List.ext_getElem (by simp) fun j hj _ => ?_
  have hjlt : j < xs.size := by simpa using hj
  by_cases hij : i = j
  · subst hij
    simp [hf]
  · simp [hij]

/-- A new type without lists. -/
theorem directory_addType (s : Schema) (hfields : t.fields = []) (hfunctions : t.functions = []) :
    (s.addType t).2.directory = s.directory.addType t.name t.package t.kind := by
  ext1
  · simp [directory, addType, Directory.addType]
  · rfl
  · rfl
  · funext owner
    cases owner with
    | function id => rfl
    | type id =>
        simp only [directory, addType, Directory.addType, fieldsOf, Array.getElem?_push]
        split <;> simp_all
  · funext id
    simp only [directory, addType, Directory.addType, functionsOf, Array.getElem?_push]
    split <;> simp_all
  · funext name
    simp only [directory, addType, Directory.addType, findType?, List.lookup_cons]
    by_cases hname : name = t.name
    · subst hname
      simp
    · simp [beq_false_of_ne hname, hname, findType?]

/-- A type in place of another of the same name, package and kind. -/
theorem directory_setType {t' : TypeDecl} (ht : s.types[id.index]? = some t)
    (hkey : (t'.name, t'.package, t'.kind) = (t.name, t.package, t.kind)) :
    directory { s with types := s.types.setIfInBounds id.index t' } =
      { s.directory with
        fieldsOf := Function.update s.fieldsOf (.type id) t'.fields
        functionsOf := Function.update s.functionsOf id t'.functions } := by
  have hlt : id.index < s.types.size := (Array.getElem?_eq_some_iff.mp ht).1
  have hne : ∀ other : TypeId, other ≠ id → id.index ≠ other.index :=
    fun other hother heq => hother (by cases id; cases other; simp_all)
  ext1
  · exact map_setIfInBounds ht hkey
  · rfl
  · rfl
  · funext owner
    by_cases howner : owner = .type id
    · subst howner
      simp [directory, fieldsOf, hlt]
    · cases owner with
      | function f => simp [directory, fieldsOf]
      | type other =>
          have hother := hne other fun heq => howner (heq ▸ rfl)
          simp [directory, fieldsOf, howner, hother]
  · funext other
    by_cases hother : other = id
    · subst hother
      simp [directory, functionsOf, hlt]
    · simp [directory, functionsOf, hother, hne other hother]
  · rfl

/-- A function in place of another of the same owner and name. -/
theorem directory_setFunction {f : FunctionId} {d d' : FunctionDecl}
    (hf : s.functions[f.index]? = some d) (hkey : (d'.owner, d'.name) = (d.owner, d.name)) :
    directory { s with functions := s.functions.setIfInBounds f.index d' } =
      { s.directory with fieldsOf := Function.update s.fieldsOf (.function f) d'.params } := by
  have hlt : f.index < s.functions.size := (Array.getElem?_eq_some_iff.mp hf).1
  ext1
  · rfl
  · rfl
  · exact map_setIfInBounds hf hkey
  · funext owner
    by_cases howner : owner = .function f
    · subst howner
      simp [directory, fieldsOf, hlt]
    · cases owner with
      | type id => simp [directory, fieldsOf]
      | function other =>
          have hother : f.index ≠ other.index :=
            fun heq => howner (by cases f; cases other; simp_all)
          simp [directory, fieldsOf, howner, hother]
  · rfl
  · rfl

/-- A field in place of another of the same owner, name and type. -/
theorem directory_setField {field : FieldId} {f f' : FieldDecl}
    (hf : s.fields[field.index]? = some f)
    (hkey : (f'.owner, f'.name, f'.type) = (f.owner, f.name, f.type)) :
    directory { s with fields := s.fields.setIfInBounds field.index f' } = s.directory := by
  ext1
  · rfl
  · exact map_setIfInBounds hf hkey
  all_goals rfl

/-! ### Growth -/

/-- `s'` comes from `s` by so many more types, fields and functions. -/
structure Grows (types fields functions : Nat) (s s' : Schema) : Prop where
  steps : Steps s.directory s'.directory
  types : s'.types.size = s.types.size + types
  fields : s'.fields.size = s.fields.size + fields
  functions : s'.functions.size = s.functions.size + functions

namespace Grows

theorem trans {s'' : Schema} {a b c a' b' c' : Nat} (h : Grows a b c s s')
    (h' : Grows a' b' c' s' s'') : Grows (a + a') (b + b') (c + c') s s'' where
  steps := h.steps.trans h'.steps
  types := by rw [h'.types, h.types, Nat.add_assoc]
  fields := by rw [h'.fields, h.fields, Nat.add_assoc]
  functions := by rw [h'.functions, h.functions, Nat.add_assoc]

/-- A directory tells how many entries of each sort there are. -/
theorem of_directory {d : Directory} {a b c : Nat} (h : s'.directory = d)
    (hsteps : Steps s.directory d) (ha : d.types.length = s.directory.types.length + a)
    (hb : d.fields.length = s.directory.fields.length + b)
    (hc : d.functions.length = s.directory.functions.length + c) : Grows a b c s s' := by
  subst h
  refine ⟨hsteps, ?_, ?_, ?_⟩
  · simpa [directory] using ha
  · simpa [directory] using hb
  · simpa [directory] using hc

theorem of_directory_eq (h : s'.directory = s.directory) : Grows 0 0 0 s s' :=
  of_directory h .refl rfl rfl rfl

/-- What is in range stays so. -/
theorem type_lt {a b c : Nat} (h : Grows a b c s s') (hid : id.index < s.types.size) :
    id.index < s'.types.size := by
  rw [h.types]
  exact Nat.lt_add_right a hid

theorem setPackage (s : Schema) (package : String) : Grows 0 0 0 s (s.setPackage package) :=
  of_directory_eq rfl

theorem addType (s : Schema) (hfields : t.fields = []) (hfunctions : t.functions = []) :
    Grows 1 0 0 s (s.addType t).2 :=
  of_directory (directory_addType s hfields hfunctions) (.single (.type ..))
    (by simp [Directory.addType]) rfl rfl

end Grows

/-- A type in range can be changed. -/
theorem modifyType_of_get (ht : s.types[id.index]? = some t) (change : TypeDecl → TypeDecl) :
    s.modifyType id change =
      .ok { s with types := s.types.setIfInBounds id.index (change t) } :=
  Lookup.bind_of_ok (type_eq_ok_iff.mpr ht) _

theorem modifyFunction_of_get {f : FunctionId} {d : FunctionDecl}
    (hf : s.functions[f.index]? = some d) (change : FunctionDecl → FunctionDecl) :
    s.modifyFunction f change =
      .ok { s with functions := s.functions.setIfInBounds f.index (change d) } :=
  Lookup.bind_of_ok (function_eq_ok_iff.mpr hf) _

theorem fieldsOf_type (ht : s.types[id.index]? = some t) : s.fieldsOf (.type id) = t.fields := by
  simp [fieldsOf, ht]

theorem fieldsOf_function {f : FunctionId} {d : FunctionDecl}
    (hf : s.functions[f.index]? = some d) : s.fieldsOf (.function f) = d.params := by
  simp [fieldsOf, hf]

theorem functionsOf_type (ht : s.types[id.index]? = some t) : s.functionsOf id = t.functions := by
  simp [functionsOf, ht]

variable {A : Prop}

theorem modifyType_grows {change : TypeDecl → TypeDecl} (hid : id.index < s.types.size)
    (hkey : ∀ t, ((change t).name, (change t).package, (change t).kind) =
      (t.name, t.package, t.kind))
    (hlists : ∀ t, (change t).fields = t.fields ∧ (change t).functions = t.functions) :
    Answers A (s.modifyType id change) (Grows 0 0 0 s) := by
  have hget := Array.getElem?_eq_getElem hid
  refine .of_eq (modifyType_of_get hget change) (.of_directory_eq ?_)
  rw [directory_setType hget (hkey _), (hlists _).1, (hlists _).2, ← fieldsOf_type hget,
    ← functionsOf_type hget, Function.update_eq_self, Function.update_eq_self]
  rfl

theorem modifyField_grows {field : FieldId} {change : FieldDecl → FieldDecl}
    (hid : field.index < s.fields.size)
    (hkey : ∀ f, ((change f).owner, (change f).name, (change f).type) =
      (f.owner, f.name, f.type)) :
    Answers A (s.modifyField field change) (Grows 0 0 0 s) := by
  have hget := Array.getElem?_eq_getElem hid
  exact .of_eq (Lookup.bind_of_ok (field_eq_ok_iff.mpr hget) _)
    (.of_directory_eq (directory_setField hget (hkey _)))

theorem modifyFunction_grows {f : FunctionId} {change : FunctionDecl → FunctionDecl}
    (hid : f.index < s.functions.size)
    (hkey : ∀ d, ((change d).owner, (change d).name) = (d.owner, d.name))
    (hlist : ∀ d, (change d).params = d.params) :
    Answers A (s.modifyFunction f change) (Grows 0 0 0 s) := by
  have hget := Array.getElem?_eq_getElem hid
  refine .of_eq (modifyFunction_of_get hget change) (.of_directory_eq ?_)
  rw [directory_setFunction hget (hkey _), hlist, ← fieldsOf_function hget,
    Function.update_eq_self]
  rfl

/-- A field can be added to a type in range. -/
theorem addField_grows (hid : id.index < s.types.size) (name : String) (type : ValueType) :
    Answers A (s.addField id name type) fun r =>
      r.1.index < r.2.fields.size ∧ Grows 0 1 0 s r.2 := by
  let pushed : Schema := { s with fields := s.fields.push { owner := .type id, name, type } }
  have hget : pushed.types[id.index]? = some s.types[id.index] := Array.getElem?_eq_getElem hid
  refine .of_eq (Lookup.bind_of_ok (modifyType_of_get hget _) _)
    ⟨by simp [pushed], .of_directory ?_ (.single (.field _ (.type id) name type)) rfl
      (by simp [Directory.addField]) rfl⟩
  rw [directory_setType hget (by rfl), ← fieldsOf_type hget, ← functionsOf_type hget,
    Function.update_eq_self]
  ext1 <;> simp [directory, Directory.addField, pushed] <;> rfl

/-- A function can be added to a type in range. -/
theorem addFunction_grows (hid : id.index < s.types.size) (name : String) :
    Answers A (s.addFunction id name) fun r => Grows 0 0 1 s r.2 := by
  let pushed : Schema := { s with functions := s.functions.push { owner := id, name } }
  have hget : pushed.types[id.index]? = some s.types[id.index] := Array.getElem?_eq_getElem hid
  refine .of_eq (Lookup.bind_of_ok (modifyType_of_get hget _) _) (.of_directory ?_
    (.single (.function _ id name)) rfl rfl (by simp [Directory.addFunction]))
  rw [directory_setType hget (by rfl), ← fieldsOf_type hget, ← functionsOf_type hget,
    Function.update_eq_self]
  have hfields : pushed.fieldsOf = s.fieldsOf := by
    funext owner
    cases owner with
    | type id => rfl
    | function f =>
        simp only [fieldsOf, pushed, Array.getElem?_push]
        split <;> simp_all
  ext1 <;> simp [directory, Directory.addFunction, pushed, ← hfields] <;> rfl

/-- A parameter can be added to a function in range. -/
theorem addParam_grows {f : FunctionId} (hid : f.index < s.functions.size) (name : String)
    (type : ValueType) (flags : Flags FieldFlag) :
    Answers A (s.addParam f name type flags) fun r => Grows 0 1 0 s r.2 := by
  let decl : FieldDecl := { owner := .function f, name, type, flags := flags.insert .param }
  let pushed : Schema := { s with fields := s.fields.push decl }
  have hget : pushed.functions[f.index]? = some s.functions[f.index] :=
    Array.getElem?_eq_getElem hid
  refine .of_eq (Lookup.bind_of_ok (modifyFunction_of_get hget _) _) (.of_directory ?_
    (.single (.field _ (.function f) name type)) rfl (by simp [Directory.addField]) rfl)
  rw [directory_setFunction hget (by rfl), ← fieldsOf_function hget]
  ext1 <;> simp [directory, Directory.addField, pushed, decl] <;> rfl

/-! ### The engine's types -/

/-- Members can be added in turn. -/
theorem addFields_grows (members : List (String × ValueType)) (hid : id.index < s.types.size) :
    Answers A (members.foldlM (fun s m => return (← s.addField id m.1 m.2).2) s)
      (Grows 0 members.length 0 s) := by
  induction members generalizing s with
  | nil => exact .pure (.of_directory_eq rfl)
  | cons m members ih =>
      rw [List.foldlM_cons]
      refine .bind (.bind (addField_grows hid m.1 m.2) fun _ hr => .pure hr.2) fun s₁ h₁ => ?_
      refine (ih (by rw [h₁.types]; exact hid)).imp fun s₂ h₂ => ?_
      simpa [Nat.add_comm] using h₁.trans h₂

/-- An engine struct can always be added. -/
theorem addWellKnown_grows (s : Schema) (name : String) (kind : WellKnown)
    (members : List (String × ValueType)) :
    Answers A (s.addWellKnown name kind members) fun r =>
      r.1.index < r.2.types.size ∧ Grows 1 members.length 0 s r.2 := by
  have hadd : Grows 1 0 0 s (s.addType
      { name, package := s.package, kind := .structType, flags := .single .native
        wellKnown := some kind }).2 := .addType s rfl rfl
  refine .bind (addFields_grows members (by simp)) fun s' hs' => .pure ⟨?_, ?_⟩
  · exact hs'.type_lt (by simp)
  · simpa using hadd.trans hs'

theorem addNativeClass_grows (s : Schema) (name : String) (superType : Option TypeId)
    (flags : List TypeFlag) : Grows 1 0 0 s (s.addNativeClass name superType flags).2 :=
  .addType s rfl rfl

/-- The engine's types can always be added. -/
theorem addCore_grows (s : Schema) : Answers A s.addCore (Grows 13 31 0 s) := by
  unfold addCore
  refine .bind (addWellKnown_grows ..) fun ⟨_, s₁⟩ ⟨_, h₁⟩ => ?_
  refine .bind (addWellKnown_grows ..) fun ⟨_, s₂⟩ ⟨_, h₂⟩ => ?_
  refine .bind (addWellKnown_grows ..) fun ⟨_, s₃⟩ ⟨_, h₃⟩ => ?_
  refine .bind (addWellKnown_grows ..) fun ⟨_, s₄⟩ ⟨_, h₄⟩ => ?_
  refine .bind (addWellKnown_grows ..) fun ⟨_, s₅⟩ ⟨_, h₅⟩ => ?_
  refine .bind (addWellKnown_grows ..) fun ⟨_, s₆⟩ ⟨_, h₆⟩ => ?_
  refine .bind (addWellKnown_grows ..) fun ⟨_, s₇⟩ ⟨_, h₇⟩ => ?_
  refine .bind (addWellKnown_grows ..) fun ⟨_, s₈⟩ ⟨htransform, h₈⟩ => ?_
  refine .bind (modifyType_grows htransform (fun _ => rfl) fun _ => ⟨rfl, rfl⟩) fun s₉ h₉ => ?_
  refine .bind (addWellKnown_grows ..) fun ⟨_, s₁₀⟩ ⟨hlatent, h₁₀⟩ => ?_
  refine .bind (addField_grows hlatent ..) fun ⟨_, s₁₁⟩ ⟨hlinkage, h₁₁⟩ => ?_
  refine .bind (modifyField_grows hlinkage fun _ => rfl) fun s₁₂ h₁₂ => ?_
  have hlinked := h₁₁.trans h₁₂
  refine .bind (addField_grows (hlinked.type_lt hlatent) ..) fun ⟨_, s₁₃⟩ ⟨_, h₁₃⟩ => ?_
  have hnumbered := hlinked.trans h₁₃
  refine .bind (addField_grows (hnumbered.type_lt hlatent) ..) fun ⟨_, s₁₄⟩ ⟨_, h₁₄⟩ => ?_
  have hnamed := hnumbered.trans h₁₄
  refine .bind (addField_grows (hnamed.type_lt hlatent) ..) fun ⟨_, s₁₅⟩ ⟨_, h₁₅⟩ => .pure ?_
  -- The classes and packages between the structs are added without a look-up.
  have hstructs := h₁.trans h₂ |>.trans h₃ |>.trans h₄ |>.trans h₅ |>.trans h₆ |>.trans h₇
    |>.trans h₈ |>.trans h₉
  have hlatent := h₁₀.trans (hnamed.trans h₁₅) |>.trans (.setPackage s₁₅ s.package)
  refine Grows.trans (a := 2) (b := 0) (c := 0) ?_
    (hstructs.trans (Grows.trans (a := 2) (b := 0) (c := 0) ?_ hlatent))
  · exact (Grows.setPackage s _).trans (addNativeClass_grows ..) |>.trans (.addType _ rfl rfl)
  · exact (Grows.setPackage s₉ _).trans (addNativeClass_grows ..) |>.trans
      (addNativeClass_grows ..)

end Schema
end GraphLowering
