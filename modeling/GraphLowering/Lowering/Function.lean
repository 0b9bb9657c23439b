import GraphLowering.Lowering.Statement

/-!
# Lowering — functions

A function's body has one chunk for each scheduled statement.  When some scheduled statement is a
jump or a jump target the chunks are the cases of a dispatch loop, and each jump target opens the
case of its state.
-/

namespace GraphLowering

open Dispatch (Body Chunk)

/-- The lowered body of a function, with the states of its dispatch loop and its calls. -/
structure LoweredFunction where
  body : Body
  states : StateMap
  calls : List LoweredCall
  deriving Repr, Inhabited

namespace Lowering

/-- Move the sink to a statement, or behind the last one. -/
def atStatement (id : Option StmtId) : Lower Unit :=
  modify fun s => { s with sink := s.sink.enterStatement (id.map (·.index)) }

/-- The state of the case that a statement opens. -/
def caseLabel (env : Env) (isLoop : Bool) (id : StmtId) : Lower (Option Int) := do
  if isLoop then
    if (← env.statement id).isJumpTarget then return some (← localState id) else return none
  else return none

/-- The chunk of a scheduled statement. -/
def lowerChunk (comments : CommentOptions) (env : Env) (isLoop : Bool) (id : StmtId) :
    Lower Chunk := do
  let label ← caseLabel env isLoop id
  atStatement (some id)
  return ⟨id, label, ← lowerStatement comments env id⟩

/-- The body of a function. -/
def lowerBody (comments : CommentOptions) (env : Env) : Lower LoweredFunction := do
  let usesFlowStack ← env.graph.needsFlowStack
  let isLoop ← env.graph.needsDispatch
  let chunks ← env.graph.order.mapM (lowerChunk comments env isLoop)
  atStatement none
  let s ← get
  return ⟨⟨isLoop, usesFlowStack, chunks⟩, s.states, s.calls⟩

end Lowering

/-- Lower the body of a function.  `resumeStates` are the states of the event graph that its calls
resume in; the event graph itself is lowered without them.  The states and the sink come back
also after a fault. -/
def lowerFunction (comments : CommentOptions) (cx : Context) (graph : FunctionGraph)
    (resumeStates : Option StateMap) (sink : Sink) :
    Except Fault LoweredFunction × Lowering.State :=
  (Lowering.lowerBody comments ⟨cx, graph⟩).run
    { sink := sink.enterFunction (some graph.name), resumeStates }

/-! ### Definitions -/

/-- The declaration of a variable with its default. -/
def variableLine (schema : Schema) (type : ValueType) (name : String) : Except Fault Code :=
  return .line ((← schema.cppType type) ++ " " ++ name ++ "\x7b\x7d;")

/-- The definition of a function: its signature, the variables, the body and the return. -/
def definitionCode (cx : Context) (graph : FunctionGraph) (lowered : LoweredFunction) :
    Except Fault (List Code) := do
  let schema := cx.schema
  let signature ← schema.signature graph.function (some (← cx.unitCppName))
  let returned ← (← schema.returnField graph.function).toList.mapM schema.field
  let results ← returned.mapM fun f => variableLine schema f.type f.name
  let locals ← graph.locals.mapM fun l => variableLine schema l.type l.name
  let body := Code.relined lowered.body.marks
  let returns := returned.map fun f => Code.line ("return " ++ f.name ++ ";")
  return .line signature :: Code.braces (results ++ locals ++ [body] ++ returns)

end GraphLowering
