import GraphLowering.Code.Mark
import GraphLowering.Dispatch.StateMap

/-!
# Dispatch — the frame

What stands around the cases of a dispatch loop, a `switch` inside a `do`/`while`.  A case body
falls through to the next one unless it leaves the `switch`.
-/

namespace GraphLowering.Dispatch

/-- The label of a case, and the opening of its body. -/
def openCase (state : Int) : List Mark :=
  [.line ("case " ++ toString state ++ ":"), .indent, .line "\x7b", .indent]

/-- The end of the body of a case. -/
def closeCase : List Mark := [.dedent, .line "\x7d", .dedent]

/-- The loop up to the opening of the entry case. -/
def openLoop (usesFlowStack : Bool) : List Mark :=
  (if usesFlowStack then
    [.line "TArray< int32, TInlineAllocator<8> > StateStack;", .line ""]
  else []) ++
  [.line ("int32 CurrentState = " ++ toString entryState ++ ";"), .line "do", .line "\x7b",
    .indent, .line "switch( CurrentState )", .line "\x7b"] ++
  openCase entryState

/-- Close the case that is open and open the case of a state. -/
def beginCase (state : Int) : List Mark := closeCase ++ openCase state

/-- Close the last case and the loop. -/
def closeLoop (usesFlowStack : Bool) : List Mark :=
  closeCase ++ [.line "default:", .indent] ++
  (if usesFlowStack then [.line "check(false); // Invalid state"] else []) ++
  [.line "break;", .dedent, .line "\x7d", .dedent,
    .line ("\x7d while( CurrentState != " ++ toString exitState ++ " );")]

end GraphLowering.Dispatch
