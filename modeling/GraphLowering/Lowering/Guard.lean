import GraphLowering.Code.Tree
import GraphLowering.Lowering.Monad

/-!
# Lowering — null checks

A value read through an object reference that may be null is guarded by a check of every object
on the path to it, the base first: `IsValid(A) && IsValid(A->B)`.  An interface is checked
through the object it wraps.  Struct members and the running instance need no check, and nothing
beyond a literal or an inline statement is checked.
-/

namespace GraphLowering.Lowering

/-- The value of a reference of this type can be null. -/
def isNullable (t : ValueType) : Bool :=
  (t.category = .object || t.category = .interface) && !t.isArray

/-- The references that can be null on the first `n` terms of a context chain, the base first. -/
def guardLinksFrom (g : FunctionGraph) : Nat → Option TermId → Except Fault (List TermId)
  | _, none => return []
  | 0, some _ => throw .endless
  | n + 1, some id => do
    let term ← g.term id
    match term.kind with
    | .reference _ =>
      let base ← guardLinksFrom g n term.context
      return if isNullable term.type then base ++ [id] else base
    | .self | .literal _ | .inline _ => return []

/-- The references that can be null on the context chain from `start`, the base first. -/
def guardLinks (g : FunctionGraph) (start : Option TermId) : Except Fault (List TermId) :=
  guardLinksFrom g g.height start

/-- The check of one reference. -/
def checkText (env : Env) (r : Renderer) (link : TermId) : Lower String := do
  let path ← r.bare link
  let term ← env.term link
  return if term.type.category = .interface then "IsValid(" ++ path ++ ".GetObject())"
    else "IsValid(" ++ path ++ ")"

/-- The checks of a context chain, the base first. -/
def guardChecks (env : Env) (r : Renderer) (start : Option TermId) : Lower (List String) := do
  (← guardLinks env.graph start).mapM (checkText env r)

/-- The code that `body` gives, inside the checks of a context chain. -/
def guarded (env : Env) (r : Renderer) (context : Option TermId) (body : Lower (List Code)) :
    Lower (List Code) := do
  let checks ← guardChecks env r context
  let code ← body
  return if checks.isEmpty then code else [.guarded checks code]

end GraphLowering.Lowering
