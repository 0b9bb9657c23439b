import GraphLowering.Code.Tree
import GraphLowering.Dispatch.Frame

/-!
# Dispatch — bodies

The body of a lowered function: one chunk for each scheduled statement, in the order of
execution, written either straight or inside a dispatch loop, where a chunk may open a case.
A chunk is plain code, a push on the stack of states, or a jump.
-/

namespace GraphLowering.Dispatch

/-- Where a jump leads. -/
inductive Jump
  | toState (state : Int)
  /-- To the state that an expression gives. -/
  | computed (expression : String)
  /-- To the state on top of the stack, or to the exit when the stack is empty. -/
  | pop
  deriving DecidableEq, Repr, Inhabited

namespace Jump

/-- Out of the loop. -/
def exit : Jump := .toState exitState

/-- The assignment of the next state. -/
def assignment : Jump → String
  | toState state => "CurrentState = " ++ toString state ++ ";"
  | computed expression => "CurrentState = " ++ expression ++ ";"
  | pop =>
    "CurrentState = (StateStack.Num() > 0) ? StateStack.Pop(/*bAllowShrinking=*/ false) : -1;"

/-- Set the next state and leave the `switch`. -/
def code (j : Jump) : List Code := [.line j.assignment, .line "break;"]

end Jump

/-- The code of one statement. -/
inductive Action
  | plain (code : List Code)
  /-- Push a state. -/
  | push (state : Int)
  | jump (target : Jump)
  /-- Jump when the condition does not hold. -/
  | jumpUnless (condition : String) (target : Jump)
  deriving Repr, Inhabited

namespace Action

def code : Action → List Code
  | plain code => code
  | push state => [.line ("StateStack.Push(" ++ toString state ++ ");")]
  | jump target => target.code
  | jumpUnless condition target =>
    .line (Code.ifLine ("!" ++ condition)) :: Code.braces target.code

end Action

/-- The code of one scheduled statement, and the case that it opens. -/
structure Chunk where
  statement : StmtId
  label : Option Int
  action : Action
  deriving Repr, Inhabited

namespace Chunk

/-- The opening of the chunk's case, then its code. -/
def marks (c : Chunk) : List Mark :=
  (match c.label with
    | some state => beginCase state
    | none => []) ++
  Code.marksAll c.action.code

end Chunk

/-- The body of a function. -/
structure Body where
  /-- The chunks are the cases of a dispatch loop. -/
  isLoop : Bool
  usesFlowStack : Bool
  chunks : List Chunk
  deriving Repr, Inhabited

namespace Body

/-- The chunks, inside the dispatch loop if there is one. -/
def marks (b : Body) : List Mark :=
  let chunks := b.chunks.flatMap Chunk.marks
  if b.isLoop then openLoop b.usesFlowStack ++ chunks ++ closeLoop b.usesFlowStack else chunks

/-- The text of a body. -/
def render (indentUnit : String) (b : Body) : String := Mark.render indentUnit b.marks

end Body
end GraphLowering.Dispatch
