import GraphLowering.Objects
import GraphLowering.Schema.Spelling

/-!
# Contexts

What every emitter reads: the schema, the live objects and the type that the unit is compiled
for.
-/

namespace GraphLowering

/-- What the emitters of a unit read. -/
structure Context where
  schema : Schema
  objects : ObjectStore
  /-- The type that the unit is compiled for. -/
  unit : TypeId
  deriving Repr, Inhabited

namespace Context

def unitCppName (cx : Context) : Except Fault String := cx.schema.cppName cx.unit

/-- The full path of a live object. -/
def pathName (cx : Context) (id : ObjectId) : Except Fault String :=
  cx.objects.pathName cx.schema id

/-- What a live object holds in a field. -/
def fieldValue (cx : Context) (id : ObjectId) (field : FieldId) : Except Fault Value :=
  cx.objects.fieldValue cx.schema id field

end Context
end GraphLowering
