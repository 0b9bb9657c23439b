import GraphLowering.Fault
import GraphLowering.Graph.Statement
import GraphLowering.Value

/-!
# Graph

A function graph owns statements and terms.  The order of execution is a list of nodes, each a
group of statements.  A unit is a type with the graphs of its functions; at most one of these is
meant as its event graph, into which the other functions resume.
-/

namespace GraphLowering

inductive TermKind
  | literal (value : Value)
  /-- A field, or a local variable when there is no field. -/
  | reference (field : Option FieldId)
  /-- The value of a nested statement. -/
  | inline (statement : StmtId)
  | self
  deriving Repr, Inhabited

/-- An operand of a statement. -/
structure Term where
  kind : TermKind
  type : ValueType
  /-- The emitted name of the field or local. -/
  name : String := ""
  /-- The object or struct that a reference is read from. -/
  context : Option TermId := none
  deriving Repr, Inhabited

namespace Term

def isSelf (t : Term) : Bool :=
  match t.kind with
  | .self => true
  | _ => false

end Term

/-- A local variable. -/
structure LocalDecl where
  name : String
  type : ValueType
  deriving DecidableEq, Repr, Inhabited

structure FunctionGraph where
  name : String
  /-- The declared function. -/
  function : FunctionId
  isEventGraph : Bool := false
  statements : Array Statement := #[]
  terms : Array Term := #[]
  locals : List LocalDecl := []
  /-- The statements of each node, the nodes in the order of execution. -/
  nodes : List (List StmtId) := []
  deriving Repr, Inhabited

namespace FunctionGraph

def statement (g : FunctionGraph) (id : StmtId) : Except Fault Statement :=
  match g.statements[id.index]? with
  | some s => .ok s
  | none => .error (.noStatement id)

def term (g : FunctionGraph) (id : TermId) : Except Fault Term :=
  match g.terms[id.index]? with
  | some t => .ok t
  | none => .error (.noTerm id)

/-- A chain of distinct terms of the graph, and one more step that leaves it, is no longer than
this. -/
def height (g : FunctionGraph) : Nat := g.terms.size + 1

/-- The scheduled statements in the order of execution. -/
def order (g : FunctionGraph) : List StmtId := g.nodes.flatten

/-! ### Building -/

/-- Add a statement without scheduling it. -/
def addStatement (g : FunctionGraph) (s : Statement) : FunctionGraph :=
  { g with statements := g.statements.push s }

/-- Schedule the statements of a node last. -/
def schedule (g : FunctionGraph) (node : List StmtId) : FunctionGraph :=
  { g with nodes := g.nodes ++ [node] }

/-- Add a statement and schedule it as a node of its own. -/
def pushStatement (g : FunctionGraph) (s : Statement) : FunctionGraph :=
  (g.addStatement s).schedule [⟨g.statements.size⟩]

def addTerm (g : FunctionGraph) (t : Term) : FunctionGraph :=
  { g with terms := g.terms.push t }

/-- Declare a local, whether or not there is one of that name. -/
def addLocal (g : FunctionGraph) (l : LocalDecl) : FunctionGraph :=
  { g with locals := g.locals ++ [l] }

def addLiteral (g : FunctionGraph) (type : ValueType) (value : Value) : FunctionGraph :=
  g.addTerm { kind := .literal value, type }

/-- Add a reference to a local, which is declared unless there is one of that name. -/
def addLocalRef (g : FunctionGraph) (name : String) (type : ValueType) : FunctionGraph :=
  let g := if g.locals.any (·.name = name) then g else g.addLocal ⟨name, type⟩
  g.addTerm { kind := .reference none, type, name }

def addFieldRef (g : FunctionGraph) (field : FieldId) (name : String) (type : ValueType)
    (context : Option TermId) : FunctionGraph :=
  g.addTerm { kind := .reference (some field), type, name, context }

def addSelf (g : FunctionGraph) (cls : TypeId) : FunctionGraph :=
  g.addTerm { kind := .self, type := .self cls }

def addInline (g : FunctionGraph) (statement : StmtId) (type : ValueType) : FunctionGraph :=
  g.addTerm { kind := .inline statement, type }

/-! ### Control flow -/

/-- Some scheduled statement is a jump or a jump target, so that the dispatch loop is needed.
The search stops at the first one. -/
def needsDispatch (g : FunctionGraph) : Except Fault Bool :=
  g.order.anyM fun id => do
    let s ← g.statement id
    return s.isJumpTarget || s.kind.isJump

/-- Some scheduled statement uses the stack of states.  The search stops at the first one. -/
def needsFlowStack (g : FunctionGraph) : Except Fault Bool :=
  g.order.anyM fun id => return (← g.statement id).kind.usesFlowStack

end FunctionGraph

/-- A type and the graphs compiled for it. -/
structure ScriptUnit where
  type : TypeId
  functions : List FunctionGraph := []
  deriving Repr, Inhabited

namespace ScriptUnit

/-- The first event graph. -/
def eventGraph? (u : ScriptUnit) : Option FunctionGraph := u.functions.find? (·.isEventGraph)

end ScriptUnit
end GraphLowering
