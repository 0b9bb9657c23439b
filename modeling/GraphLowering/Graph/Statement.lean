import GraphLowering.Schema.ValueType

/-!
# Graph — statements

The statements of a function graph.  A statement names its operands, its jump target and its
callee by number only.
-/

namespace GraphLowering

inductive StatementKind
  | nop | call | callDelegate | assign | assignOnPersistentFrame
  | compileError (message : String)
  | pushState | returnStatement | endOfThread | endOfThreadIfNot
  | unconditionalGoto | gotoIfNot | computedGoto | gotoReturn | gotoReturnIfNot
  | dynamicCast | metaCast | objectToInterface | interfaceToObject | interfaceToInterface
  | objectToBool
  | addMulticastDelegate | removeMulticastDelegate | clearMulticastDelegate | bindDelegate
  | createContainer | switchOnValue
  | comment (text : String)
  | debugSite | wireTraceSite
  deriving DecidableEq, Repr, Inhabited

namespace StatementKind

/-- The name of the kind in diagnostics. -/
def label : StatementKind → String
  | nop => "Nop"
  | call => "Call"
  | callDelegate => "CallDelegate"
  | assign => "Assign"
  | assignOnPersistentFrame => "AssignOnPersistentFrame"
  | compileError _ => "CompileError"
  | pushState => "PushState"
  | returnStatement => "Return"
  | endOfThread => "EndOfThread"
  | endOfThreadIfNot => "EndOfThreadIfNot"
  | unconditionalGoto => "UnconditionalGoto"
  | gotoIfNot => "GotoIfNot"
  | computedGoto => "ComputedGoto"
  | gotoReturn => "GotoReturn"
  | gotoReturnIfNot => "GotoReturnIfNot"
  | dynamicCast => "DynamicCast"
  | metaCast => "MetaCast"
  | objectToInterface => "ObjectToInterface"
  | interfaceToObject => "InterfaceToObject"
  | interfaceToInterface => "InterfaceToInterface"
  | objectToBool => "ObjectToBool"
  | addMulticastDelegate => "AddMulticastDelegate"
  | removeMulticastDelegate => "RemoveMulticastDelegate"
  | clearMulticastDelegate => "ClearMulticastDelegate"
  | bindDelegate => "BindDelegate"
  | createContainer => "CreateContainer"
  | switchOnValue => "SwitchOnValue"
  | comment _ => "Comment"
  | debugSite => "DebugSite"
  | wireTraceSite => "WireTraceSite"

/-- Every kind, with the text that a comment or an error carries. -/
def all (text : String) : List StatementKind :=
  [nop, call, callDelegate, assign, assignOnPersistentFrame, compileError text, pushState,
    returnStatement, endOfThread, endOfThreadIfNot, unconditionalGoto, gotoIfNot, computedGoto,
    gotoReturn, gotoReturnIfNot, dynamicCast, metaCast, objectToInterface, interfaceToObject,
    interfaceToInterface, objectToBool, addMulticastDelegate, removeMulticastDelegate,
    clearMulticastDelegate, bindDelegate, createContainer, switchOnValue, comment text, debugSite,
    wireTraceSite]

/-- The kind with a given name. -/
def ofLabel? (name text : String) : Option StatementKind := (all text).find? (·.label = name)

/-- Control may go somewhere other than to the next statement. -/
def isJump : StatementKind → Bool
  | unconditionalGoto | gotoIfNot | computedGoto | gotoReturn | gotoReturnIfNot
  | pushState | endOfThread | endOfThreadIfNot => true
  | _ => false

/-- The explicit stack of states is needed. -/
def usesFlowStack : StatementKind → Bool
  | pushState | endOfThread | endOfThreadIfNot => true
  | _ => false

end StatementKind

structure Statement where
  kind : StatementKind
  lhs : Option TermId := none
  rhs : List TermId := []
  /-- The object that a call is made on, or the delegate that is broadcast. -/
  context : Option TermId := none
  function : Option FunctionId := none
  /-- The jump target in the same function; for a call into the event graph, its entry there. -/
  target : Option StmtId := none
  isJumpTarget : Bool := false
  isParentCall : Bool := false
  /-- The argument of a call that receives the resume state. -/
  resumeArgument : Option Nat := none
  deriving DecidableEq, Repr, Inhabited

end GraphLowering
