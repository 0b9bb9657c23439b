import GraphLowering.Binary32
import GraphLowering.Schema.ValueType

/-!
# Values

What a field of a live object, a struct member or a literal holds.  Two values are identical
when they agree in every part; numbers of single precision agree when their bit patterns do.
-/

namespace GraphLowering

/-- A value of a field, a struct member or a literal. -/
inductive Value
  | bool (b : Bool)
  /-- A raw byte, or the value of an enum. -/
  | byte (n : UInt8)
  | int (n : Int32)
  | float (f : Binary32)
  | name (s : String)
  | string (s : String)
  | text (s : String)
  /-- The members stand in the order of all fields of the struct. -/
  | struct (type : TypeId) (members : List Value)
  | array (items : List Value)
  | object (o : Option ObjectId)
  | classRef (t : Option TypeId)
  | softObject (o : Option ObjectId)
  | softClass (t : Option TypeId)
  /-- The bound object and the name of its function. -/
  | delegate (target : Option (ObjectId × String))
  deriving Repr, Inhabited

/-- A value of a struct, with its members in the order of all fields of the struct. -/
structure StructValue where
  type : TypeId
  members : List Value
  deriving Repr, Inhabited

namespace Value

mutual

/-- The two values agree in every part. -/
def identical : Value → Value → Bool
  | .bool a, .bool b => a == b
  | .byte a, .byte b => a == b
  | .int a, .int b => a == b
  | .float a, .float b => a.bits == b.bits
  | .name a, .name b => a == b
  | .string a, .string b => a == b
  | .text a, .text b => a == b
  | .struct s as, .struct t bs => s == t && allIdentical as bs
  | .array as, .array bs => allIdentical as bs
  | .object a, .object b => a == b
  | .classRef a, .classRef b => a == b
  | .softObject a, .softObject b => a == b
  | .softClass a, .softClass b => a == b
  | .delegate a, .delegate b => a == b
  | _, _ => false

/-- The two lists have the same length and agree place by place. -/
def allIdentical : List Value → List Value → Bool
  | [], [] => true
  | a :: as, b :: bs => identical a b && allIdentical as bs
  | _, _ => false

end

mutual

/-- How deeply structs and arrays nest in a value; a plain value has depth 1. -/
def depth : Value → Nat
  | .struct _ members => maxDepth members + 1
  | .array items => maxDepth items + 1
  | _ => 1

/-- The greatest depth in a list, 0 for the empty one. -/
def maxDepth : List Value → Nat
  | [] => 0
  | v :: vs => max (depth v) (maxDepth vs)

end

/-- The object that a non-null object reference refers to. -/
def asObject : Value → Option ObjectId
  | .object o => o
  | _ => none

/-- Element `i` of a static array; a value that is no array is its own element 0. -/
def staticElement (v : Value) (i : Nat) : Option Value :=
  match v with
  | .array items => items[i]?
  | v => if i = 0 then some v else none

end Value

namespace StructValue

def toValue (s : StructValue) : Value := .struct s.type s.members

def identical (a b : StructValue) : Bool := a.toValue.identical b.toValue

end StructValue
end GraphLowering
