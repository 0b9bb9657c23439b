import GraphLowering.Proofs.Dispatch.Cases

/-!
# Dispatch — two machines

What a function does, read in two ways: by running the dispatch loop of its lowered body, a
`switch` inside a `do`/`while` with fall-through between the cases (`Body.step`), and by walking
through its graph, where a jump moves to the place of its target in the order of execution
(`FunctionGraph.step`).  Both keep a stack, of states or of statements, and the statements
executed so far.

What neither finds in the code, the truth of the conditions and the values of the computed states,
comes from an `Oracle`.
-/

namespace GraphLowering

/-- The truth of each condition and the value of each computed state, by the number of statements
executed before and the statement that asks. -/
structure Oracle where
  holds : Nat → StmtId → Bool
  value : Nat → StmtId → Int

/-! ### The dispatch loop -/

namespace Dispatch

/-- Where the control of a dispatch loop stands. -/
inductive Control
  /-- Before the `switch`. -/
  | head
  /-- Before the code of a chunk. -/
  | chunk (i : Nat)
  /-- Before the condition of the loop. -/
  | test
  /-- Behind the loop. -/
  | out
  /-- In the check that refuses an invalid state. -/
  | failed
  deriving DecidableEq, Repr

/-- The state of a dispatch loop. -/
structure LoopState where
  control : Control := .head
  current : Int := entryState
  stack : List Int := []
  executed : List StmtId := []
  deriving DecidableEq, Repr

/-- Set the next state and leave the `switch`. -/
def Jump.take (o : Oracle) (id : StmtId) (l : LoopState) : Jump → LoopState
  | .toState k => { l with control := .test, current := k }
  | .computed _ => { l with control := .test, current := o.value l.executed.length id }
  | .pop =>
    match l.stack with
    | k :: rest => { l with control := .test, current := k, stack := rest }
    | [] => { l with control := .test, current := exitState }

/-- The code of a statement at place `i`. -/
def Action.exec (o : Oracle) (id : StmtId) (i : Nat) (l : LoopState) : Action → LoopState
  | .plain _ => { l with control := .chunk (i + 1) }
  | .push k => { l with control := .chunk (i + 1), stack := k :: l.stack }
  | .jump j => j.take o id l
  | .jumpUnless _ j =>
    if o.holds l.executed.length id then { l with control := .chunk (i + 1) } else j.take o id l

namespace Body

/-- The chunk that the case of a state starts with. -/
def caseAt? (b : Body) (k : Int) : Option Nat :=
  if k = entryState then some 0 else b.chunks.findIdx? (·.label = some k)

/-- What comes after the default case, which only a loop with a stack refuses. -/
def defaultCase (b : Body) : Control := if b.usesFlowStack then .failed else .test

/-- One step of the loop.  Behind the last chunk comes the default case. -/
def step (o : Oracle) (b : Body) (l : LoopState) : LoopState :=
  match l.control with
  | .head =>
    match b.caseAt? l.current with
    | some i => { l with control := .chunk i }
    | none => { l with control := b.defaultCase }
  | .chunk i =>
    match b.chunks[i]? with
    | some c => { c.action.exec o c.statement i l with executed := l.executed ++ [c.statement] }
    | none => { l with control := b.defaultCase }
  | .test => { l with control := if l.current = exitState then .out else .head }
  | .out | .failed => l

/-- The loop after a number of steps. -/
def run (o : Oracle) (b : Body) : Nat → LoopState
  | 0 => {}
  | n + 1 => b.step o (b.run o n)

end Body
end Dispatch

/-! ### The walk through the graph -/

/-- Where a walk through a graph stands. -/
inductive Point
  /-- Before the statement at a place of the order of execution. -/
  | place (p : Nat)
  | stopped
  /-- At a state that no scheduled jump target has. -/
  | nowhere
  deriving DecidableEq, Repr

/-- The state of a walk. -/
structure WalkState where
  point : Point := .place 0
  stack : List StmtId := []
  executed : List StmtId := []
  deriving DecidableEq, Repr

namespace FunctionGraph

/-- The place of a statement. -/
def pointOf (g : FunctionGraph) (t : StmtId) : Point :=
  match g.order.idxOf? t with
  | some p => .place p
  | none => .nowhere

/-- Where a computed state leads: to the start, to the end, or to the jump target that `m` numbers
so. -/
def pointOfState (g : FunctionGraph) (m : StateMap) (k : Int) : Point :=
  if k = entryState then .place 0
  else if k = exitState then .stopped
  else
    match g.order.findIdx? (fun id => g.entryNumber m id = some k) with
    | some p => .place p
    | none => .nowhere

/-- Move to the target of a statement. -/
def goTo (g : FunctionGraph) (stmt : Statement) (w : WalkState) : WalkState :=
  { w with point := (stmt.target.map g.pointOf).getD .stopped }

/-- Move to the statement on top of the stack, or stop when the stack is empty. -/
def popTo (g : FunctionGraph) (w : WalkState) : WalkState :=
  match w.stack with
  | t :: rest => { w with point := g.pointOf t, stack := rest }
  | [] => { w with point := .stopped }

/-- What a statement at place `p` does. -/
def exec (g : FunctionGraph) (m : StateMap) (o : Oracle) (id : StmtId) (stmt : Statement) (p : Nat)
    (w : WalkState) : WalkState :=
  let next : WalkState := { w with point := .place (p + 1) }
  let holds := o.holds w.executed.length id
  match stmt.kind with
  | .unconditionalGoto => g.goTo stmt w
  | .gotoIfNot => if holds then next else g.goTo stmt w
  | .computedGoto => { w with point := g.pointOfState m (o.value w.executed.length id) }
  | .gotoReturn => { w with point := .stopped }
  | .gotoReturnIfNot => if holds then next else { w with point := .stopped }
  | .endOfThread => g.popTo w
  | .endOfThreadIfNot => if holds then next else g.popTo w
  | .pushState => { next with stack := stmt.target.toList ++ w.stack }
  | _ => next

/-- One step of the walk; behind the last statement it stops. -/
def step (g : FunctionGraph) (m : StateMap) (o : Oracle) (w : WalkState) : WalkState :=
  match w.point with
  | .place p =>
    match g.order[p]? with
    | some id =>
      match g.statement id with
      | .ok stmt => { g.exec m o id stmt p w with executed := w.executed ++ [id] }
      | .error _ => { w with point := .nowhere }
    | none => { w with point := .stopped }
  | .stopped | .nowhere => w

/-- The walk after a number of steps. -/
def walk (g : FunctionGraph) (m : StateMap) (o : Oracle) : Nat → WalkState
  | 0 => {}
  | n + 1 => g.step m o (g.walk m o n)

/-! ### Graphs whose jumps can be followed -/

/-- Jumps and pushes name scheduled jump targets, conditional and computed jumps have their
operand, and control never runs off the end. -/
structure JumpsResolve (g : FunctionGraph) : Prop where
  target : ∀ id ∈ g.order, ∀ stmt ∈ (g.statement id).toOption,
    stmt.kind ∈ [.unconditionalGoto, .gotoIfNot, .pushState] →
    ∃ t ∈ stmt.target, g.order.count t = 1 ∧ g.isEntry t = true
  once : ∀ id ∈ g.order, g.isEntry id = true → g.order.count id = 1
  operand : ∀ id ∈ g.order, ∀ stmt ∈ (g.statement id).toOption,
    stmt.kind ∈ [.gotoIfNot, .gotoReturnIfNot, .endOfThreadIfNot, .computedGoto] → stmt.lhs ≠ none
  last : ∃ id ∈ g.order.getLast?, ∃ stmt ∈ (g.statement id).toOption,
    stmt.kind ∈ [.unconditionalGoto, .computedGoto, .gotoReturn, .endOfThread]

theorem mem_toOption_statement {g : FunctionGraph} {id : StmtId} {stmt : Statement} :
    stmt ∈ (g.statement id).toOption ↔ g.statement id = .ok stmt := by
  cases h : g.statement id <;> simp [Except.toOption]

end FunctionGraph
end GraphLowering
