import GraphLowering.Context
import GraphLowering.Diagnostic
import GraphLowering.Dispatch.StateMap
import GraphLowering.Graph.Basic

/-!
# Lowering — effects

Lowering a function numbers the states of its dispatch loop, may number states of the event graph
in which its calls resume, keeps the calls it meets and the nested statements it renders, and
reports problems.  A fault ends the work, but what was numbered, kept and reported before it stays.
-/

namespace GraphLowering

/-- A call in a lowered body, as a statement or inside an expression. -/
structure LoweredCall where
  statement : Statement
  /-- The texts of its arguments, in the order of declaration. -/
  arguments : List String
  deriving DecidableEq, Repr, Inhabited

namespace Lowering

/-- What lowering changes. -/
structure State where
  sink : Sink
  /-- The states of the function's own loop. -/
  states : StateMap := {}
  /-- The states of the event graph; none when the function is its own event graph. -/
  resumeStates : Option StateMap := none
  /-- The calls lowered so far. -/
  calls : List LoweredCall := []
  /-- The nested statements rendered so far, one entry for each time. -/
  inlined : List StmtId := []
  deriving DecidableEq, Repr, Inhabited

/-- A step of lowering. -/
abbrev Lower := ExceptT Fault (StateM State)

/-- What lowering reads. -/
structure Env where
  cx : Context
  graph : FunctionGraph
  deriving Repr, Inhabited

def Env.schema (env : Env) : Schema := env.cx.schema

def Env.term (env : Env) (id : TermId) : Except Fault Term := env.graph.term id

def Env.statement (env : Env) (id : StmtId) : Except Fault Statement := env.graph.statement id

/-- Report a problem where the sink stands. -/
def report (p : Problem) : Lower Unit := modify fun s => { s with sink := s.sink.report p }

/-- Keep a call with the texts of its arguments. -/
def recordCall (c : LoweredCall) : Lower Unit := modify fun s => { s with calls := s.calls ++ [c] }

/-- Keep a nested statement, each time it is rendered. -/
def recordInline (id : StmtId) : Lower Unit := modify fun s => { s with inlined := s.inlined ++ [id] }

/-- The state of a jump target of this function. -/
def localState (target : StmtId) : Lower Int := do
  let s ← get
  let (state, states) := s.states.stateOf target
  set { s with states }
  return state

/-- The state of a label of the event graph. -/
def resumeState (label : StmtId) : Lower Int := do
  let s ← get
  match s.resumeStates with
  | none => localState label
  | some map =>
    let (state, map) := map.stateOf label
    set { s with resumeStates := some map }
    return state

/-- Renders terms as expressions. -/
structure Renderer where
  /-- A reference whose context can be null is checked first. -/
  guarded : TermId → Lower String
  /-- No checks: for destinations, and for the checks themselves. -/
  bare : TermId → Lower String

end Lowering
end GraphLowering
