import GraphLowering.Schema.ValueType

/-!
# Faults

Why a computation over a package has no answer: it looked up an entity that is not there, or it
followed a chain of references that never ends.  An id that is never looked up does no harm.
-/

namespace GraphLowering

/-- Why a computation over a package has no answer. -/
inductive Fault
  | noType (id : TypeId)
  | noField (id : FieldId)
  | noFunction (id : FunctionId)
  | noObject (id : ObjectId)
  | noStatement (id : StmtId)
  | noTerm (id : TermId)
  /-- A chain of references runs in a circle. -/
  | endless
  deriving DecidableEq, Repr, Inhabited

end GraphLowering
