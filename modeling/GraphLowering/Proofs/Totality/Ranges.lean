import GraphLowering.Package
import GraphLowering.Proofs.Lowering.Parts
import GraphLowering.Proofs.Schema.Fields
import GraphLowering.Proofs.Totality.Answers
import GraphLowering.Proofs.Totality.Chains
import Mathlib.Tactic.MkIffOfInductiveProp

/-!
# Totality — packages in range

A package is in range when every id that it stores is the number of something in it
(`Package.InRange`); jump targets are left out, as they are numbered and not looked up.  It is
acyclic when super types and interfaces, structs held by value, owners of objects and the terms of
each graph never lead back (`Package.Acyclic`).

* `Rooted`, `Grounded`, `Sound`: what dependencies, defaults and the emitters of a unit need of
  their context.
* `Rooted.type`, `Rooted.field`, `Rooted.function`, `Rooted.object`: what is in range is found, and
  is itself in range.
-/

namespace GraphLowering

/-! ### Ids -/

/-- How many entities of each sort there are. -/
structure Extent where
  types : Nat
  fields : Nat
  functions : Nat
  objects : Nat
  deriving DecidableEq, Repr, Inhabited

/-- The extent of a schema with live objects. -/
def Extent.of (schema : Schema) (objects : ObjectStore) : Extent :=
  ⟨schema.types.size, schema.fields.size, schema.functions.size, objects.objects.size⟩

abbrev TypeId.InRange (id : TypeId) (e : Extent) : Prop := id.index < e.types

abbrev FieldId.InRange (id : FieldId) (e : Extent) : Prop := id.index < e.fields

abbrev FunctionId.InRange (id : FunctionId) (e : Extent) : Prop := id.index < e.functions

abbrev ObjectId.InRange (id : ObjectId) (e : Extent) : Prop := id.index < e.objects

/-! ### Values and declarations -/

namespace Value

mutual

/-- Every id inside the value is in range. -/
def inRange (e : Extent) : Value → Bool
  | .struct type members => decide (type.InRange e) && allInRange e members
  | .array items => allInRange e items
  | .object o | .softObject o => o.all fun id => decide (id.InRange e)
  | .classRef t | .softClass t => t.all fun id => decide (id.InRange e)
  | .delegate target => target.all fun d => decide (d.1.InRange e)
  | .bool _ | .byte _ | .int _ | .float _ | .name _ | .string _ | .text _ => true

/-- Every id inside the values is in range. -/
def allInRange (e : Extent) : List Value → Bool
  | [] => true
  | v :: vs => inRange e v && allInRange e vs

end

theorem allInRange_iff {e : Extent} {vs : List Value} :
    allInRange e vs = true ↔ ∀ v ∈ vs, v.inRange e = true := by
  induction vs with
  | nil => simp [allInRange]
  | cons v vs ih => simp [allInRange, ih]

theorem inRange_struct {e : Extent} {type : TypeId} {members : List Value} :
    (Value.struct type members).inRange e = true ↔
      type.InRange e ∧ ∀ v ∈ members, v.inRange e = true := by
  simp [inRange, allInRange_iff]

theorem inRange_array {e : Extent} {items : List Value} :
    (Value.array items).inRange e = true ↔ ∀ v ∈ items, v.inRange e = true := by
  simp [inRange, allInRange_iff]

end Value

/-- The types and functions that a declared type refers to are in range. -/
@[mk_iff]
structure ValueType.InRange (t : ValueType) (e : Extent) : Prop where
  subType : ∀ id ∈ t.subType, id.InRange e
  signature : ∀ f ∈ t.signature, f.InRange e

@[mk_iff]
structure TypeDecl.InRange (t : TypeDecl) (e : Extent) : Prop where
  superType : ∀ id ∈ t.superType, id.InRange e
  interfaces : ∀ id ∈ t.interfaces, id.InRange e
  fields : ∀ f ∈ t.fields, f.InRange e
  functions : ∀ f ∈ t.functions, f.InRange e
  defaultObject : ∀ o ∈ t.defaultObject, o.InRange e
  ownedObjects : ∀ o ∈ t.ownedObjects, o.InRange e
  structDefaults : ∀ v ∈ t.structDefaults, v.toValue.inRange e = true

def FieldOwner.InRange (o : FieldOwner) (e : Extent) : Prop :=
  match o with
  | .type id => id.InRange e
  | .function f => f.InRange e

@[mk_iff]
structure FieldDecl.InRange (f : FieldDecl) (e : Extent) : Prop where
  owner : f.owner.InRange e
  type : f.type.InRange e

@[mk_iff]
structure FunctionDecl.InRange (f : FunctionDecl) (e : Extent) : Prop where
  owner : f.owner.InRange e
  params : ∀ p ∈ f.params, p.InRange e

def Outer.InRange (o : Outer) (e : Extent) : Prop :=
  match o with
  | .package _ => True
  | .type id => id.InRange e
  | .object id => id.InRange e

@[mk_iff]
structure ObjectRecord.InRange (o : ObjectRecord) (e : Extent) : Prop where
  cls : o.cls.InRange e
  outer : o.outer.InRange e
  values : ∀ entry ∈ o.values, entry.2.inRange e = true

@[mk_iff]
structure Schema.InRange (s : Schema) (e : Extent) : Prop where
  types : ∀ t ∈ s.types.toList, t.InRange e
  fields : ∀ f ∈ s.fields.toList, f.InRange e
  functions : ∀ f ∈ s.functions.toList, f.InRange e

def ObjectStore.InRange (s : ObjectStore) (e : Extent) : Prop :=
  ∀ o ∈ s.objects.toList, o.InRange e

/-! ### Graphs -/

abbrev TermId.InRange (id : TermId) (g : FunctionGraph) : Prop := id.index < g.terms.size

abbrev StmtId.InRange (id : StmtId) (g : FunctionGraph) : Prop := id.index < g.statements.size

def TermKind.InRange (k : TermKind) (e : Extent) (g : FunctionGraph) : Prop :=
  match k with
  | .literal v => v.inRange e = true
  | .reference field => ∀ f ∈ field, f.InRange e
  | .inline statement => statement.InRange g
  | .self => True

@[mk_iff]
structure Term.InRange (t : Term) (e : Extent) (g : FunctionGraph) : Prop where
  kind : t.kind.InRange e g
  type : t.type.InRange e
  context : ∀ c ∈ t.context, c.InRange g

/-- The operands and the callee are in range; the jump target need not be. -/
@[mk_iff]
structure Statement.InRange (s : Statement) (e : Extent) (g : FunctionGraph) : Prop where
  operands : ∀ t ∈ s.operands, t.InRange g
  function : ∀ f ∈ s.function, f.InRange e

@[mk_iff]
structure FunctionGraph.InRange (g : FunctionGraph) (e : Extent) : Prop where
  function : g.function.InRange e
  statements : ∀ s ∈ g.statements.toList, s.InRange e g
  terms : ∀ t ∈ g.terms.toList, t.InRange e g
  locals : ∀ l ∈ g.locals, l.type.InRange e
  order : ∀ id ∈ g.order, id.InRange g

@[mk_iff]
structure ScriptUnit.InRange (u : ScriptUnit) (e : Extent) : Prop where
  type : u.type.InRange e
  functions : ∀ g ∈ u.functions, g.InRange e

def Package.extent (p : Package) : Extent := .of p.schema p.objects

/-- Every id that the package stores is in range. -/
@[mk_iff]
structure Package.InRange (p : Package) : Prop where
  schema : p.schema.InRange p.extent
  objects : p.objects.InRange p.extent
  units : ∀ u ∈ p.units, u.InRange p.extent

section Decidable

variable (e : Extent) (g : FunctionGraph)

instance (t : ValueType) : Decidable (t.InRange e) :=
  decidable_of_iff' _ (ValueType.inRange_iff t e)

instance (t : TypeDecl) : Decidable (t.InRange e) :=
  decidable_of_iff' _ (TypeDecl.inRange_iff t e)

instance (o : FieldOwner) : Decidable (o.InRange e) :=
  match o with
  | .type id => inferInstanceAs (Decidable (id.InRange e))
  | .function f => inferInstanceAs (Decidable (f.InRange e))

instance (f : FieldDecl) : Decidable (f.InRange e) :=
  decidable_of_iff' _ (FieldDecl.inRange_iff f e)

instance (f : FunctionDecl) : Decidable (f.InRange e) :=
  decidable_of_iff' _ (FunctionDecl.inRange_iff f e)

instance (o : Outer) : Decidable (o.InRange e) :=
  match o with
  | .package _ => inferInstanceAs (Decidable True)
  | .type id => inferInstanceAs (Decidable (id.InRange e))
  | .object id => inferInstanceAs (Decidable (id.InRange e))

instance (o : ObjectRecord) : Decidable (o.InRange e) :=
  decidable_of_iff' _ (ObjectRecord.inRange_iff o e)

instance (s : Schema) : Decidable (s.InRange e) :=
  decidable_of_iff' _ (Schema.inRange_iff s e)

instance (s : ObjectStore) : Decidable (s.InRange e) :=
  inferInstanceAs (Decidable (∀ o ∈ s.objects.toList, o.InRange e))

instance (k : TermKind) : Decidable (k.InRange e g) :=
  match k with
  | .literal v => inferInstanceAs (Decidable (v.inRange e = true))
  | .reference field => inferInstanceAs (Decidable (∀ f ∈ field, f.InRange e))
  | .inline statement => inferInstanceAs (Decidable (statement.InRange g))
  | .self => inferInstanceAs (Decidable True)

instance (t : Term) : Decidable (t.InRange e g) :=
  decidable_of_iff' _ (Term.inRange_iff t e g)

instance (s : Statement) : Decidable (s.InRange e g) :=
  decidable_of_iff' _ (Statement.inRange_iff s e g)

instance : Decidable (g.InRange e) := decidable_of_iff' _ (FunctionGraph.inRange_iff g e)

instance (u : ScriptUnit) : Decidable (u.InRange e) :=
  decidable_of_iff' _ (ScriptUnit.inRange_iff u e)

instance (p : Package) : Decidable p.InRange := decidable_of_iff' _ (Package.inRange_iff p)

end Decidable

/-! ### Chains -/

/-- The super type of a type. -/
def Schema.supers (s : Schema) (id : TypeId) : List TypeId :=
  match s.type id with
  | .ok t => t.superType.toList
  | .error _ => []

/-- The super type and the interfaces of a type. -/
def Schema.parents (s : Schema) (id : TypeId) : List TypeId :=
  match s.type id with
  | .ok t => t.superType.toList ++ t.interfaces
  | .error _ => []

/-- The struct that a value of this type holds inside itself. -/
def ValueType.heldStruct? (t : ValueType) : Option TypeId :=
  if t.isValueType then t.subType else none

/-- The structs that a struct holds by value, in its own fields and in those of its super types. -/
def Schema.parts (s : Schema) (id : TypeId) : List TypeId :=
  match s.allFields id with
  | .ok fields => fields.filterMap fun f => (s.field f).toOption.bind (·.type.heldStruct?)
  | .error _ => []

/-- The object that owns an object. -/
def ObjectStore.owners (s : ObjectStore) (id : ObjectId) : List ObjectId :=
  match s.object id with
  | .ok ⟨_, _, .object outer, _, _⟩ => [outer]
  | _ => []

/-- The terms that a nested statement is rendered from. -/
def FunctionGraph.inlineOperands (g : FunctionGraph) (k : TermKind) : List TermId :=
  match k with
  | .inline id =>
    match g.statement id with
    | .ok s => s.rhs ++ s.context.toList
    | .error _ => []
  | .literal _ | .reference _ | .self => []

/-- The terms that a term is rendered from. -/
def FunctionGraph.subterms (g : FunctionGraph) (id : TermId) : List TermId :=
  match g.term id with
  | .ok t => t.context.toList ++ g.inlineOperands t.kind
  | .error _ => []

/-- No chain of references in the package leads back. -/
structure Package.Acyclic (p : Package) : Prop where
  parents : GraphLowering.Acyclic p.schema.parents
  parts : GraphLowering.Acyclic p.schema.parts
  owners : GraphLowering.Acyclic p.objects.owners
  subterms : ∀ u ∈ p.units, ∀ g ∈ u.functions, GraphLowering.Acyclic g.subterms

/-- A function that a type lists is owned by it. -/
def Schema.FunctionsOwned (s : Schema) : Prop :=
  ∀ i < s.types.size, ∀ t ∈ s.types[i]?, ∀ f ∈ t.functions, ∀ decl ∈ s.functions[f.index]?,
    decl.owner = ⟨i⟩

instance (s : Schema) : Decidable s.FunctionsOwned :=
  inferInstanceAs (Decidable (∀ i < s.types.size, ∀ t ∈ s.types[i]?, ∀ f ∈ t.functions,
    ∀ decl ∈ s.functions[f.index]?, decl.owner = ⟨i⟩))

/-! ### Contexts -/

def Context.extent (cx : Context) : Extent := .of cx.schema cx.objects

/-- Every id is in range, and under `A` the chains of owners end. -/
structure Rooted (A : Prop) (cx : Context) : Prop where
  schema : cx.schema.InRange cx.extent
  objects : cx.objects.InRange cx.extent
  unit : cx.unit.InRange cx.extent
  owners : A → Acyclic cx.objects.owners

/-- Under `A` the chains of super types and of structs held by value end as well. -/
structure Grounded (A : Prop) (cx : Context) : Prop extends Rooted A cx where
  supers : A → Acyclic cx.schema.supers
  parts : A → Acyclic cx.schema.parts

/-- Under `A` the chains through interfaces end as well, and a function is owned by the type that
lists it. -/
structure Sound (A : Prop) (cx : Context) : Prop extends Grounded A cx where
  parents : A → Acyclic cx.schema.parents
  functionsOwned : A → cx.schema.FunctionsOwned

/-! ### Look-ups -/

theorem Schema.mem_types {s : Schema} {id : TypeId} {t : TypeDecl} (h : s.type id = .ok t) :
    t ∈ s.types.toList :=
  Array.mem_toList_iff.mpr (Array.mem_of_getElem? (Schema.type_eq_ok_iff.mp h))

theorem Schema.mem_fields {s : Schema} {id : FieldId} {f : FieldDecl} (h : s.field id = .ok f) :
    f ∈ s.fields.toList :=
  Array.mem_toList_iff.mpr (Array.mem_of_getElem? (Schema.field_eq_ok_iff.mp h))

theorem Schema.function_eq_ok_iff {s : Schema} {id : FunctionId} {f : FunctionDecl} :
    s.function id = .ok f ↔ s.functions[id.index]? = some f := by
  unfold Schema.function
  split <;> simp [*]

theorem Schema.index_lt_of_function {s : Schema} {id : FunctionId} {f : FunctionDecl}
    (h : s.function id = .ok f) : id.index < s.functions.size :=
  (Array.getElem?_eq_some_iff.mp (Schema.function_eq_ok_iff.mp h)).1

theorem Schema.mem_functions {s : Schema} {id : FunctionId} {f : FunctionDecl}
    (h : s.function id = .ok f) : f ∈ s.functions.toList :=
  Array.mem_toList_iff.mpr (Array.mem_of_getElem? (Schema.function_eq_ok_iff.mp h))

theorem ObjectStore.object_eq_ok_iff {s : ObjectStore} {id : ObjectId} {o : ObjectRecord} :
    s.object id = .ok o ↔ s.objects[id.index]? = some o := by
  unfold ObjectStore.object
  split <;> simp [*]

theorem ObjectStore.index_lt {s : ObjectStore} {id : ObjectId} {o : ObjectRecord}
    (h : s.object id = .ok o) : id.index < s.objects.size :=
  (Array.getElem?_eq_some_iff.mp (ObjectStore.object_eq_ok_iff.mp h)).1

theorem ObjectStore.mem_objects {s : ObjectStore} {id : ObjectId} {o : ObjectRecord}
    (h : s.object id = .ok o) : o ∈ s.objects.toList :=
  Array.mem_toList_iff.mpr (Array.mem_of_getElem? (ObjectStore.object_eq_ok_iff.mp h))

theorem FunctionGraph.term_eq_ok_iff {g : FunctionGraph} {id : TermId} {t : Term} :
    g.term id = .ok t ↔ g.terms[id.index]? = some t := by
  unfold FunctionGraph.term
  split <;> simp [*]

theorem FunctionGraph.mem_terms {g : FunctionGraph} {id : TermId} {t : Term}
    (h : g.term id = .ok t) : t ∈ g.terms.toList :=
  Array.mem_toList_iff.mpr (Array.mem_of_getElem? (FunctionGraph.term_eq_ok_iff.mp h))

theorem FunctionGraph.statement_eq_ok_iff {g : FunctionGraph} {id : StmtId} {s : Statement} :
    g.statement id = .ok s ↔ g.statements[id.index]? = some s := by
  unfold FunctionGraph.statement
  split <;> simp [*]

theorem FunctionGraph.mem_statements {g : FunctionGraph} {id : StmtId} {s : Statement}
    (h : g.statement id = .ok s) : s ∈ g.statements.toList :=
  Array.mem_toList_iff.mpr (Array.mem_of_getElem? (FunctionGraph.statement_eq_ok_iff.mp h))

theorem Schema.FunctionsOwned.owner_eq {s : Schema} (h : s.FunctionsOwned) {id : TypeId}
    {t : TypeDecl} (ht : s.type id = .ok t) {f : FunctionId} (hf : f ∈ t.functions)
    {decl : FunctionDecl} (hdecl : s.function f = .ok decl) : decl.owner = id := by
  have hget := Schema.type_eq_ok_iff.mp ht
  obtain ⟨hlt, -⟩ := Array.getElem?_eq_some_iff.mp hget
  exact h id.index hlt t hget f hf decl (Schema.function_eq_ok_iff.mp hdecl)

theorem Schema.supers_subset_parents (s : Schema) (id : TypeId) : s.supers id ⊆ s.parents id := by
  unfold Schema.supers Schema.parents
  split
  · exact List.subset_append_left _ _
  · exact List.nil_subset _

/-- The parents of a type are in range. -/
theorem Schema.InRange.parents {s : Schema} {e : Extent} (h : s.InRange e) {id p : TypeId}
    (hp : p ∈ s.parents id) : p.InRange e := by
  unfold Schema.parents at hp
  split at hp
  · rename_i decl hdecl
    have hrange := h.types decl (Schema.mem_types hdecl)
    rcases List.mem_append.mp hp with hp | hp
    · exact hrange.superType p (Option.mem_toList.mp hp)
    · exact hrange.interfaces p hp
  · cases hp

/-! ### Checks -/

theorem Schema.parents_eq_nil {s : Schema} {id : TypeId} (h : s.types.size ≤ id.index) :
    s.parents id = [] := by
  unfold Schema.parents
  split
  · rename_i ht
    obtain ⟨hlt, -⟩ := Array.getElem?_eq_some_iff.mp (Schema.type_eq_ok_iff.mp ht)
    exact absurd hlt (Nat.not_lt_of_le h)
  · rfl

theorem Schema.supers_eq_nil {s : Schema} {id : TypeId} (h : s.types.size ≤ id.index) :
    s.supers id = [] :=
  List.subset_nil.mp (Schema.parents_eq_nil h ▸ s.supers_subset_parents id)

theorem Schema.parts_eq_nil {s : Schema} {id : TypeId} (h : s.types.size ≤ id.index) :
    s.parts id = [] := by
  unfold Schema.parts
  split
  · rename_i hfields
    -- The fields of a type start with a look-up of the type.
    obtain ⟨_, hlineage, -⟩ := Lookup.of_bind_ok hfields
    obtain ⟨_, ht, -⟩ := Lookup.of_bind_ok hlineage
    obtain ⟨hlt, -⟩ := Array.getElem?_eq_some_iff.mp (Schema.type_eq_ok_iff.mp ht)
    exact absurd hlt (Nat.not_lt_of_le h)
  · rfl

theorem ObjectStore.owners_eq_nil {s : ObjectStore} {id : ObjectId}
    (h : s.objects.size ≤ id.index) : s.owners id = [] := by
  unfold ObjectStore.owners
  split
  · rename_i ho
    exact absurd (ObjectStore.index_lt ho) (Nat.not_lt_of_le h)
  · rfl

theorem FunctionGraph.subterms_eq_nil {g : FunctionGraph} {id : TermId}
    (h : g.terms.size ≤ id.index) : g.subterms id = [] := by
  unfold FunctionGraph.subterms
  split
  · rename_i ht
    obtain ⟨hlt, -⟩ := Array.getElem?_eq_some_iff.mp (FunctionGraph.term_eq_ok_iff.mp ht)
    exact absurd hlt (Nat.not_lt_of_le h)
  · rfl

section

variable {n : Nat}

theorem Schema.acyclic_supers {s : Schema} (h : ∀ i < s.types.size, Within s.supers n ⟨i⟩) :
    Acyclic s.supers :=
  .of_within (fun _ => rfl) (fun _ => Schema.supers_eq_nil) h

theorem Schema.acyclic_parents {s : Schema} (h : ∀ i < s.types.size, Within s.parents n ⟨i⟩) :
    Acyclic s.parents :=
  .of_within (fun _ => rfl) (fun _ => Schema.parents_eq_nil) h

theorem Schema.acyclic_parts {s : Schema} (h : ∀ i < s.types.size, Within s.parts n ⟨i⟩) :
    Acyclic s.parts :=
  .of_within (fun _ => rfl) (fun _ => Schema.parts_eq_nil) h

theorem ObjectStore.acyclic_owners {s : ObjectStore}
    (h : ∀ i < s.objects.size, Within s.owners n ⟨i⟩) : Acyclic s.owners :=
  .of_within (fun _ => rfl) (fun _ => ObjectStore.owners_eq_nil) h

theorem FunctionGraph.acyclic_subterms {g : FunctionGraph}
    (h : ∀ i < g.terms.size, Within g.subterms n ⟨i⟩) : Acyclic g.subterms :=
  .of_within (fun _ => rfl) (fun _ => FunctionGraph.subterms_eq_nil) h

end

/-- That a package is acyclic can be checked, one entity after the other. -/
theorem Package.Acyclic.of_within {p : Package}
    (hparents : ∀ i < p.schema.types.size, Within p.schema.parents p.schema.types.size ⟨i⟩)
    (hparts : ∀ i < p.schema.types.size, Within p.schema.parts p.schema.types.size ⟨i⟩)
    (howners : ∀ i < p.objects.objects.size, Within p.objects.owners p.objects.objects.size ⟨i⟩)
    (hsubterms : ∀ u ∈ p.units, ∀ g ∈ u.functions, ∀ i < g.terms.size,
      Within g.subterms g.terms.size ⟨i⟩) : p.Acyclic where
  parents := Schema.acyclic_parents hparents
  parts := Schema.acyclic_parts hparts
  owners := ObjectStore.acyclic_owners howners
  subterms := fun u hu g hg => FunctionGraph.acyclic_subterms (hsubterms u hu g hg)

namespace Rooted

variable {A : Prop} {cx : Context}

/-- A type in range is there, and what it refers to is in range. -/
theorem exists_type (h : Rooted A cx) {id : TypeId} (hid : id.InRange cx.extent) :
    ∃ t, cx.schema.type id = .ok t ∧ t.InRange cx.extent :=
  Answers.exists_lookup (fun _ => Schema.type_eq_ok_iff) hid h.schema.types

theorem exists_field (h : Rooted A cx) {id : FieldId} (hid : id.InRange cx.extent) :
    ∃ f, cx.schema.field id = .ok f ∧ f.InRange cx.extent :=
  Answers.exists_lookup (fun _ => Schema.field_eq_ok_iff) hid h.schema.fields

theorem exists_function (h : Rooted A cx) {id : FunctionId} (hid : id.InRange cx.extent) :
    ∃ f, cx.schema.function id = .ok f ∧ f.InRange cx.extent :=
  Answers.exists_lookup (fun _ => Schema.function_eq_ok_iff) hid h.schema.functions

theorem exists_object (h : Rooted A cx) {id : ObjectId} (hid : id.InRange cx.extent) :
    ∃ o, cx.objects.object id = .ok o ∧ o.InRange cx.extent :=
  Answers.exists_lookup (fun _ => ObjectStore.object_eq_ok_iff) hid h.objects

theorem type (h : Rooted A cx) {id : TypeId} (hid : id.InRange cx.extent) :
    Answers A (cx.schema.type id) fun t => cx.schema.type id = .ok t ∧ t.InRange cx.extent :=
  .lookup (fun _ => Schema.type_eq_ok_iff) hid h.schema.types

theorem field (h : Rooted A cx) {id : FieldId} (hid : id.InRange cx.extent) :
    Answers A (cx.schema.field id) fun f => cx.schema.field id = .ok f ∧ f.InRange cx.extent :=
  .lookup (fun _ => Schema.field_eq_ok_iff) hid h.schema.fields

theorem function (h : Rooted A cx) {id : FunctionId} (hid : id.InRange cx.extent) :
    Answers A (cx.schema.function id) fun f =>
      cx.schema.function id = .ok f ∧ f.InRange cx.extent :=
  .lookup (fun _ => Schema.function_eq_ok_iff) hid h.schema.functions

theorem object (h : Rooted A cx) {id : ObjectId} (hid : id.InRange cx.extent) :
    Answers A (cx.objects.object id) fun o =>
      cx.objects.object id = .ok o ∧ o.InRange cx.extent :=
  .lookup (fun _ => ObjectStore.object_eq_ok_iff) hid h.objects

end Rooted

end GraphLowering
