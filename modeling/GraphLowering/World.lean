import GraphLowering.Context
import GraphLowering.Schema.Build

/-!
# Worlds

A schema and the live objects of its classes, built by edits in turn.
-/

namespace GraphLowering

/-- A schema with live objects. -/
structure World where
  schema : Schema := {}
  objects : ObjectStore := {}
  deriving Repr, Inhabited

/-- A change of one part of a type. -/
inductive TypeChange
  | flags (flags : Flags TypeFlag)
  | superType (type : Option TypeId)
  | interfaces (types : List TypeId)
  | wellKnown (kind : Option WellKnown)
  | defaultObject (object : Option ObjectId)
  | ownedObjects (objects : List ObjectId)
  | structDefaults (value : Option StructValue)
  | metadata (metadata : Metadata)
  | doc (text : Option String)
  /-- The display names of the first entries of an enum. -/
  | displayNames (names : List (Option String))
  deriving Repr, Inhabited

namespace TypeChange

/-- Give display names to the entries they belong to. -/
def renameEntries : List EnumEntry → List (Option String) → List EnumEntry
  | e :: entries, name :: names => { e with displayName := name } :: renameEntries entries names
  | entries, _ => entries

def apply (t : TypeDecl) : TypeChange → TypeDecl
  | .flags new => { t with flags := new }
  | .superType new => { t with superType := new }
  | .interfaces new => { t with interfaces := new }
  | .wellKnown new => { t with wellKnown := new }
  | .defaultObject new => { t with defaultObject := new }
  | .ownedObjects new => { t with ownedObjects := new }
  | .structDefaults new => { t with structDefaults := new }
  | .metadata new => { t with metadata := new }
  | .doc new => { t with doc := new }
  | .displayNames names => { t with enumEntries := renameEntries t.enumEntries names }

end TypeChange

/-- A change of one part of a field. -/
inductive FieldChange
  | flags (flags : Flags FieldFlag)
  | arrayDim (dim : Nat)
  | metadata (metadata : Metadata)
  | repNotify (function : String)
  deriving Repr, Inhabited

namespace FieldChange

def apply (f : FieldDecl) : FieldChange → FieldDecl
  | .flags new => { f with flags := new }
  | .arrayDim new => { f with arrayDim := new }
  | .metadata new => { f with metadata := new }
  | .repNotify function => { f with repNotify := some function }

end FieldChange

/-- A change of one part of a function. -/
inductive FunctionChange
  | flags (flags : Flags FunctionFlag)
  | metadata (metadata : Metadata)
  deriving Repr, Inhabited

namespace FunctionChange

def apply (f : FunctionDecl) : FunctionChange → FunctionDecl
  | .flags new => { f with flags := new }
  | .metadata new => { f with metadata := new }

end FunctionChange

/-- A step in the building of a world. -/
inductive Edit
  | addCore
  | setPackage (package : String)
  | addClass (name : String) (superType : Option TypeId)
  | addInterface (name : String)
  | addStruct (name : String)
  | addEnum (name : String) (entries : List String)
  | addType (name package : String) (kind : TypeKind)
  | changeType (id : TypeId) (changes : List TypeChange)
  | addField (owner : TypeId) (name : String) (type : ValueType)
  | changeField (id : FieldId) (changes : List FieldChange)
  | addFunction (owner : TypeId) (name : String)
  | changeFunction (id : FunctionId) (changes : List FunctionChange)
  | addParam (owner : FunctionId) (name : String) (type : ValueType) (flags : Flags FieldFlag)
  | addObject (name : String) (cls : TypeId) (outer : Outer)
  | setObjectFlags (id : ObjectId) (flags : Flags ObjectFlag)
  | setValue (id : ObjectId) (field : FieldId) (value : Value)
  deriving Repr, Inhabited

namespace World

def withSchema (w : World) (schema : Schema) : World := { w with schema }

/-- The world after one edit. -/
def apply (w : World) : Edit → Except Fault World
  | .addCore => return w.withSchema (← w.schema.addCore)
  | .setPackage package => return w.withSchema (w.schema.setPackage package)
  | .addClass name superType => return w.withSchema (w.schema.addClass name superType).2
  | .addInterface name => return w.withSchema (w.schema.addInterface name).2
  | .addStruct name => return w.withSchema (w.schema.addStruct name).2
  | .addEnum name entries => return w.withSchema (w.schema.addEnum name entries).2
  | .addType name package kind => return w.withSchema (w.schema.addType { name, package, kind }).2
  | .changeType id changes =>
    return w.withSchema (← w.schema.modifyType id (changes.foldl TypeChange.apply))
  | .addField owner name type => return w.withSchema (← w.schema.addField owner name type).2
  | .changeField id changes =>
    return w.withSchema (← w.schema.modifyField id (changes.foldl FieldChange.apply))
  | .addFunction owner name => return w.withSchema (← w.schema.addFunction owner name).2
  | .changeFunction id changes =>
    return w.withSchema (← w.schema.modifyFunction id (changes.foldl FunctionChange.apply))
  | .addParam owner name type flags =>
    return w.withSchema (← w.schema.addParam owner name type flags).2
  | .addObject name cls outer => return { w with objects := (w.objects.add name cls outer).2 }
  | .setObjectFlags id flags =>
    return { w with objects := ← w.objects.modify id fun o => { o with flags } }
  | .setValue id field value =>
    return { w with objects := ← w.objects.set id field value }

/-- The world that edits build from nothing. -/
def build (edits : List Edit) : Except Fault World := edits.foldlM apply {}

/-- The context of a unit in this world. -/
def context (w : World) (unit : TypeId) : Context := ⟨w.schema, w.objects, unit⟩

end World
end GraphLowering
