import GraphLowering.Schema.Query

/-!
# Live objects

The objects whose values generated code reconstructs: class defaults, the sub-objects they own,
objects owned by a class and the assets that literals point at.  Owners are followed upwards; the
walks are bounded by the number of objects, and a circle is answered by `Fault.endless`.
-/

namespace GraphLowering

/-- The owner of an object. -/
inductive Outer
  /-- A top-level object of a package. -/
  | package (name : String)
  | type (id : TypeId)
  | object (id : ObjectId)
  deriving DecidableEq, Repr, Inhabited

structure ObjectRecord where
  name : String
  cls : TypeId
  outer : Outer
  /-- The fields set so far; any other field holds its default. -/
  values : List (FieldId × Value) := []
  flags : Flags ObjectFlag := {}
  deriving Repr, Inhabited

namespace ObjectRecord

/-- Give `field` a new value where it stands, or put it at the end. -/
def setIn (field : FieldId) (value : Value) : List (FieldId × Value) → List (FieldId × Value)
  | [] => [(field, value)]
  | (f, v) :: rest => if f = field then (f, value) :: rest else (f, v) :: setIn field value rest

/-- The record with one field set. -/
def set (o : ObjectRecord) (field : FieldId) (value : Value) : ObjectRecord :=
  { o with values := setIn field value o.values }

end ObjectRecord

/-- The live objects, numbered in the order of their creation. -/
structure ObjectStore where
  objects : Array ObjectRecord := #[]
  deriving Repr, Inhabited

namespace ObjectStore

def object (s : ObjectStore) (id : ObjectId) : Except Fault ObjectRecord :=
  match s.objects[id.index]? with
  | some o => .ok o
  | none => .error (.noObject id)

/-- A chain of distinct objects of the store, and one more step that leaves it, is no longer
than this. -/
def height (s : ObjectStore) : Nat := s.objects.size + 1

def size (s : ObjectStore) : Nat := s.objects.size

def isEmpty (s : ObjectStore) : Bool := s.objects.isEmpty

def ids (s : ObjectStore) : List ObjectId := (List.range s.objects.size).map ObjectId.mk

/-- Add an object with no field set. -/
def add (s : ObjectStore) (name : String) (cls : TypeId) (outer : Outer) :
    ObjectId × ObjectStore :=
  (⟨s.objects.size⟩, ⟨s.objects.push { name, cls, outer }⟩)

/-- Change one object. -/
def modify (s : ObjectStore) (id : ObjectId) (change : ObjectRecord → ObjectRecord) :
    Except Fault ObjectStore := do
  let o ← s.object id
  return ⟨s.objects.setIfInBounds id.index (change o)⟩

/-- Set a field of an object. -/
def set (s : ObjectStore) (id : ObjectId) (field : FieldId) (value : Value) :
    Except Fault ObjectStore :=
  s.modify id (·.set field value)

/-- What an object holds in a field. -/
def fieldValue (s : ObjectStore) (schema : Schema) (id : ObjectId) (field : FieldId) :
    Except Fault Value := do
  match (← s.object id).values.lookup field with
  | some value => return value
  | none => schema.fieldDefault field

/-- Whether `ancestor` is on the chain of owners that starts at `id`, among its first `n`
objects. -/
def isInFrom (s : ObjectStore) (ancestor : ObjectId) : Nat → ObjectId → Except Fault Bool
  | 0, _ => throw .endless
  | n + 1, id => do
    if id = ancestor then return true
    else match (← s.object id).outer with
      | .object outer => isInFrom s ancestor n outer
      | .package _ | .type _ => return false

/-- Whether `id` is `ancestor` or owned by it, directly or not. -/
def isIn (s : ObjectStore) (id ancestor : ObjectId) : Except Fault Bool :=
  s.isInFrom ancestor s.height id

/-- The first object owned by `outer` with the given name and class. -/
def findSubobject? (s : ObjectStore) (outer : ObjectId) (name : String) (cls : TypeId) :
    Option ObjectId :=
  (s.objects.toList.findIdx? fun o => o.outer = .object outer ∧ o.name = name ∧ o.cls = cls).map
    ObjectId.mk

/-- The full path of an object whose owners are at most `n` objects. -/
def pathNameFrom (s : ObjectStore) (schema : Schema) : Nat → ObjectId → Except Fault String
  | 0, _ => throw .endless
  | n + 1, id => do
    let o ← s.object id
    match o.outer with
    | .package package => return package ++ "." ++ o.name
    | .type t =>
      let t ← schema.type t
      return t.package ++ "." ++ t.name ++ ":" ++ o.name
    | .object outer => return (← pathNameFrom s schema n outer) ++ ":" ++ o.name

/-- The full path: `Package.Name` for a top-level object, `Package.Type:Name` for one that a
class owns, `Outer:Name` for a sub-object. -/
def pathName (s : ObjectStore) (schema : Schema) (id : ObjectId) : Except Fault String :=
  s.pathNameFrom schema s.height id

end ObjectStore
end GraphLowering
