import GraphLowering.Graph.Basic
import GraphLowering.Schema.Basic

/-!
# Graph — outlines

An outline lists the parts of a function graph; `FunctionOutline.build` looks up the names and
types that it leaves out and puts the graph together: first the locals, then the terms, then the
statements.  The outline of a unit lists those of its functions.
-/

namespace GraphLowering

/-- A term to be added to a graph. -/
inductive TermOutline
  | literal (type : ValueType) (value : Value)
  /-- A field under its declared name; its declared type unless another is given. -/
  | field (id : FieldId) (type : Option ValueType) (context : Option TermId)
  | localRef (name : String) (type : ValueType)
  | self (cls : TypeId)
  | inline (statement : StmtId) (type : ValueType)
  | raw (term : Term)
  deriving Repr, Inhabited

namespace TermOutline

/-- Add the term to a graph. -/
def addTo (t : TermOutline) (schema : Schema) (g : FunctionGraph) :
    Except Fault FunctionGraph := do
  match t with
  | literal type value => return g.addLiteral type value
  | field id type context =>
    let decl ← schema.field id
    return g.addFieldRef id decl.name (type.getD decl.type) context
  | localRef name type => return g.addLocalRef name type
  | self cls => return g.addSelf cls
  | inline statement type => return g.addInline statement type
  | raw term => return g.addTerm term

end TermOutline

/-- The parts of a function graph. -/
structure FunctionOutline where
  function : FunctionId
  /-- The declared name of the function, unless another is given. -/
  name : Option String := none
  isEventGraph : Bool := false
  locals : List LocalDecl := []
  terms : List TermOutline := []
  statements : List Statement := []
  /-- The scheduled nodes; when there are none given, each statement is a node of its own. -/
  nodes : Option (List (List StmtId)) := none
  deriving Repr, Inhabited

namespace FunctionOutline

/-- Put the graph together. -/
def build (o : FunctionOutline) (schema : Schema) : Except Fault FunctionGraph := do
  let name ← match o.name with
    | some name => pure name
    | none => schema.functionName o.function
  let g : FunctionGraph :=
    { name, function := o.function, isEventGraph := o.isEventGraph, locals := o.locals }
  let g ← o.terms.foldlM (fun g t => t.addTo schema g) g
  match o.nodes with
  | none => return o.statements.foldl (·.pushStatement ·) g
  | some nodes => return nodes.foldl (·.schedule ·) (o.statements.foldl (·.addStatement ·) g)

end FunctionOutline

/-- The parts of a unit. -/
structure UnitOutline where
  type : TypeId
  functions : List FunctionOutline := []
  deriving Repr, Inhabited

/-- Put the graphs of a unit together. -/
def UnitOutline.build (o : UnitOutline) (schema : Schema) : Except Fault ScriptUnit :=
  return ⟨o.type, ← o.functions.mapM (·.build schema)⟩

end GraphLowering
