/-!
# Schema — value types

The numbers of the entities of a package, and the declared type of a field, parameter or
term: a category, the struct, enum, interface or class it refers to, the signature of a
delegate, and whether it is an array or the running instance itself.
-/

namespace GraphLowering

/-- A type of the schema. -/
structure TypeId where
  index : Nat
  deriving DecidableEq, Repr, Inhabited

/-- A field of the schema; parameters are fields. -/
structure FieldId where
  index : Nat
  deriving DecidableEq, Repr, Inhabited

/-- A function of the schema. -/
structure FunctionId where
  index : Nat
  deriving DecidableEq, Repr, Inhabited

/-- A live object. -/
structure ObjectId where
  index : Nat
  deriving DecidableEq, Repr, Inhabited

/-- A statement of a function graph. -/
structure StmtId where
  index : Nat
  deriving DecidableEq, Repr, Inhabited

/-- A term of a function graph. -/
structure TermId where
  index : Nat
  deriving DecidableEq, Repr, Inhabited

/-- What sort of values a declared type holds. -/
inductive Category
  | bool
  /-- A raw byte, or an enum when the type refers to one. -/
  | byte
  | int | float | name | string | text | struct | object
  /-- A reference to a class below a bound. -/
  | classRef
  | interface | softObject | softClass | delegate | multicastDelegate
  deriving DecidableEq, Repr, Inhabited

namespace Category

def all : List Category :=
  [bool, byte, int, float, name, string, text, struct, object, classRef, interface, softObject,
    softClass, delegate, multicastDelegate]

/-- The name of the category in a written schema. -/
def label : Category → String
  | bool => "Bool"
  | byte => "Byte"
  | int => "Int"
  | float => "Float"
  | name => "Name"
  | string => "String"
  | text => "Text"
  | struct => "Struct"
  | object => "Object"
  | classRef => "Class"
  | interface => "Interface"
  | softObject => "SoftObject"
  | softClass => "SoftClass"
  | delegate => "Delegate"
  | multicastDelegate => "MulticastDelegate"

end Category

/-- The declared type of a field, parameter or term. -/
structure ValueType where
  category : Category
  /-- The struct, enum, interface, object class or class bound. -/
  subType : Option TypeId := none
  /-- The signature of a delegate. -/
  signature : Option FunctionId := none
  isArray : Bool := false
  /-- The instance that the code runs on. -/
  isSelf : Bool := false
  deriving DecidableEq, Repr, Inhabited

namespace ValueType

def bool : ValueType := { category := .bool }
def byte : ValueType := { category := .byte }
def int : ValueType := { category := .int }
def float : ValueType := { category := .float }
def name : ValueType := { category := .name }
def string : ValueType := { category := .string }
def text : ValueType := { category := .text }
def enumeration (t : TypeId) : ValueType := { category := .byte, subType := some t }
def struct (t : TypeId) : ValueType := { category := .struct, subType := some t }
def object (t : TypeId) : ValueType := { category := .object, subType := some t }
def classRef (t : TypeId) : ValueType := { category := .classRef, subType := some t }
def interface (t : TypeId) : ValueType := { category := .interface, subType := some t }
def softObject (t : TypeId) : ValueType := { category := .softObject, subType := some t }
def softClass (t : TypeId) : ValueType := { category := .softClass, subType := some t }
def delegate (f : FunctionId) : ValueType := { category := .delegate, signature := some f }

def multicastDelegate (f : FunctionId) : ValueType :=
  { category := .multicastDelegate, signature := some f }

/-- The type of the running instance of a class. -/
def self (t : TypeId) : ValueType := { category := .object, subType := some t, isSelf := true }

/-- Arrays of this type. -/
def array (t : ValueType) : ValueType := { t with isArray := true }

/-- The type of an array's elements; any other type is its own. -/
def element (t : ValueType) : ValueType := { t with isArray := false }

/-- Members are reached with a dot. -/
def isValueType (t : ValueType) : Bool := t.category = .struct ∧ !t.isArray

/-- A byte that refers to a type. -/
def isEnum (t : ValueType) : Bool := t.category = .byte ∧ t.subType.isSome ∧ !t.isArray

/-- A byte that refers to nothing. -/
def isPlainByte (t : ValueType) : Bool := t.category = .byte ∧ t.subType.isNone ∧ !t.isArray

end ValueType
end GraphLowering
