import GraphLowering.Fault
import GraphLowering.Schema.Flags
import GraphLowering.Schema.Metadata
import GraphLowering.Value

/-!
# Schema

The types, fields and functions of a package, each numbered in the order of its creation, and
their plain look-ups.  A parameter is a field that its function owns.
-/

namespace GraphLowering

inductive TypeKind
  | classType | interfaceType | structType | enumType
  deriving DecidableEq, Repr, Inhabited

namespace TypeKind

def all : List TypeKind := [classType, interfaceType, structType, enumType]

/-- The name of the kind in a written schema. -/
def label : TypeKind → String
  | classType => "Class"
  | interfaceType => "Interface"
  | structType => "Struct"
  | enumType => "Enum"

end TypeKind

/-- Engine structs with a literal of their own. -/
inductive WellKnown
  | vector | vector2D | rotator | quat | transform | linearColor | color | guid
  | latentActionInfo
  deriving DecidableEq, Repr, Inhabited

namespace WellKnown

def all : List WellKnown :=
  [vector, vector2D, rotator, quat, transform, linearColor, color, guid, latentActionInfo]

/-- The name of the struct in a written schema. -/
def label : WellKnown → String
  | vector => "Vector"
  | vector2D => "Vector2D"
  | rotator => "Rotator"
  | quat => "Quat"
  | transform => "Transform"
  | linearColor => "LinearColor"
  | color => "Color"
  | guid => "Guid"
  | latentActionInfo => "LatentActionInfo"

end WellKnown

structure EnumEntry where
  name : String
  displayName : Option String := none
  deriving DecidableEq, Repr, Inhabited

/-- A class, interface, struct or enum. -/
structure TypeDecl where
  name : String
  /-- The path of its package, such as `/Game/Heroes`. -/
  package : String
  kind : TypeKind
  flags : Flags TypeFlag := {}
  superType : Option TypeId := none
  interfaces : List TypeId := []
  /-- Own fields in the order of declaration. -/
  fields : List FieldId := []
  functions : List FunctionId := []
  enumEntries : List EnumEntry := []
  wellKnown : Option WellKnown := none
  /-- The object that holds a class's defaults. -/
  defaultObject : Option ObjectId := none
  /-- Objects owned by the class itself and not by an instance. -/
  ownedObjects : List ObjectId := []
  /-- Default members of a struct, in the order of all its fields. -/
  structDefaults : Option StructValue := none
  metadata : Metadata := {}
  doc : Option String := none
  deriving Repr, Inhabited

inductive FieldOwner
  | type (id : TypeId)
  | function (id : FunctionId)
  deriving DecidableEq, Repr, Inhabited

/-- A field of a type, or a parameter of a function. -/
structure FieldDecl where
  owner : FieldOwner
  name : String
  type : ValueType
  flags : Flags FieldFlag := {}
  /-- The size of a static array; at most 1 for a single value. -/
  arrayDim : Nat := 1
  /-- The function called when the field is replicated. -/
  repNotify : Option String := none
  metadata : Metadata := {}
  deriving Repr, Inhabited

namespace FieldDecl

/-- The return value of its function. -/
def isReturn (f : FieldDecl) : Bool := f.flags.has .returnParam

/-- Written by the callee, and not the return value. -/
def isOut (f : FieldDecl) : Bool := f.flags.has .outParam && !f.isReturn

end FieldDecl

structure FunctionDecl where
  owner : TypeId
  name : String
  /-- Parameters in the order of declaration, the return value among them. -/
  params : List FieldId := []
  flags : Flags FunctionFlag := {}
  metadata : Metadata := {}
  deriving Repr, Inhabited

/-- The types, fields and functions of a package. -/
structure Schema where
  types : Array TypeDecl := #[]
  fields : Array FieldDecl := #[]
  functions : Array FunctionDecl := #[]
  /-- The types by name, the latest first: of types with one name it is the one that is found. -/
  byName : List (String × TypeId) := []
  /-- The package of the types added from now on. -/
  package : String := "/Game"
  deriving Repr, Inhabited

namespace Schema

def type (s : Schema) (id : TypeId) : Except Fault TypeDecl :=
  match s.types[id.index]? with
  | some t => .ok t
  | none => .error (.noType id)

def field (s : Schema) (id : FieldId) : Except Fault FieldDecl :=
  match s.fields[id.index]? with
  | some f => .ok f
  | none => .error (.noField id)

def function (s : Schema) (id : FunctionId) : Except Fault FunctionDecl :=
  match s.functions[id.index]? with
  | some f => .ok f
  | none => .error (.noFunction id)

/-- A chain of distinct types of the schema, and one more step that leaves it, is no longer
than this. -/
def height (s : Schema) : Nat := s.types.size + 1

def typeName (s : Schema) (id : TypeId) : Except Fault String := return (← s.type id).name

def fieldName (s : Schema) (id : FieldId) : Except Fault String := return (← s.field id).name

def functionName (s : Schema) (id : FunctionId) : Except Fault String :=
  return (← s.function id).name

def typeIds (s : Schema) : List TypeId := (List.range s.types.size).map TypeId.mk

/-- The latest type with a given name. -/
def findType? (s : Schema) (name : String) : Option TypeId := s.byName.lookup name

end Schema
end GraphLowering
