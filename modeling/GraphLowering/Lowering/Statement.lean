import GraphLowering.Dispatch.Body
import GraphLowering.Lowering.Expression

/-!
# Lowering — statements

The code of one statement.  A statement that lacks an operand is reported and leaves a comment in
its place.
-/

namespace GraphLowering

/-- Which comments are written. -/
structure CommentOptions where
  /-- The comments of the graph. -/
  emitComments : Bool := true
  /-- Marks for debugging. -/
  emitDebugSites : Bool := false
  deriving DecidableEq, Repr, Inhabited

namespace Lowering

open Dispatch (Action Jump)

/-- The expression of a term, behind its checks. -/
def Env.text (env : Env) (id : TermId) : Lower String := env.renderer.guarded id

/-- The access path of a term, without checks. -/
def Env.path (env : Env) (id : TermId) : Lower String := env.renderer.bare id

/-- An operand is missing. -/
def malformed (stmt : Statement) : Lower (List Code) := do
  report (.unsupportedStatementKind stmt.kind.label)
  return [.line ("// Warning: Ignoring malformed " ++ stmt.kind.label ++ " statement")]

/-- The code that `body` gives for the path of `lhs`, inside the checks of its context. -/
def storing (env : Env) (lhs : TermId) (body : String → List Code) : Lower (List Code) := do
  let context := (← env.term lhs).context
  guarded env env.renderer context do
    let target ← env.path lhs
    return body target

/-- The line `lhs = value;` inside the checks of the destination's context. -/
def assignTo (env : Env) (lhs : TermId) (value : String) : Lower (List Code) :=
  storing env lhs fun target => [.line (target ++ " = " ++ value ++ ";")]

/-! ### Assignments -/

/-- The value of a term, converted to the type of its destination. -/
def convertedText (env : Env) (target : ValueType) (rhs : TermId) : Lower String := do
  let conversion ← conversion? env.schema target (← env.term rhs).type
  return convert conversion (← env.text rhs)

/-- The line `lhs = rhs;`, where a raw byte literal stored in an enum names the entry. -/
def lowerAssign (env : Env) (stmt : Statement) : Lower (List Code) := do
  match stmt.lhs, stmt.rhs with
  | some lhs, rhs :: _ =>
    let target := (← env.term lhs).type
    let source ← env.term rhs
    let value ← match source.kind with
      | .literal v =>
        if target.isEnum ∧ source.type.isPlainByte then literalText env target v
        else convertedText env target rhs
      | _ => convertedText env target rhs
    assignTo env lhs value
  | _, _ => malformed stmt

def lowerObjectToBool (env : Env) (stmt : Statement) : Lower (List Code) := do
  match stmt.lhs, stmt.rhs with
  | some lhs, rhs :: _ =>
    let value ← env.text rhs
    assignTo env lhs ("(nullptr != " ++ value ++ ")")
  | _, _ => malformed stmt

/-- The elements of a container from number `i` on. -/
def containerElements (env : Env) (array : String) :
    Nat → List TermId → Lower (List Code)
  | _, [] => return []
  | i, element :: rest => do
    let value ← env.text element
    let line := Code.line (array ++ "[" ++ toString i ++ "] = " ++ value ++ ";")
    return line :: (← containerElements env array (i + 1) rest)

def lowerCreateContainer (env : Env) (stmt : Statement) : Lower (List Code) := do
  match stmt.lhs with
  | some lhs =>
    let array ← env.path lhs
    let resize := Code.line (array ++ ".SetNum(" ++ toString stmt.rhs.length ++ ", true);")
    return resize :: (← containerElements env array 0 stmt.rhs)
  | none => malformed stmt

/-! ### Calls -/

/-- The destination of a call's result, with the result as it is stored there. -/
def callResult (env : Env) (stmt : Statement) (f : FunctionId) (returns : List FieldId)
    (call : String) : Lower (Option (TermId × String)) := do
  match returns, stmt.lhs with
  | ret :: _, some lhs =>
    let target ← env.term lhs
    let source ← env.schema.field ret
    let conversion ← conversion? env.schema target.type source.type
    return some (lhs, convert conversion call)
  | _ :: _, none =>
    report (.missingReturnProperty (← env.schema.functionName f))
    return none
  | [], _ => return none

def lowerCall (env : Env) (stmt : Statement) : Lower (List Code) := do
  match stmt.function with
  | none => malformed stmt
  | some f =>
    let returns ← env.schema.returnFields f
    if returns.length > 1 then
      report (.duplicateReturnProperty (← env.schema.functionName f))
    let call ← callText env env.renderer stmt
    let result ← callResult env stmt f returns call
    let isStatic := (← env.schema.function f).flags.has .isStatic
    let context := if isStatic then none else stmt.context
    guarded env env.renderer context do
      match result with
      | some (lhs, value) =>
        let target ← env.path lhs
        return [.line (target ++ " = " ++ value ++ ";")]
      | none => return [.line (call ++ ";")]

def lowerCallDelegate (env : Env) (stmt : Statement) : Lower (List Code) := do
  match stmt.context with
  | none => malformed stmt
  | some delegate =>
    let args ← stmt.rhs.mapM env.text
    storing env delegate fun target =>
      [.line (target ++ ".Broadcast(" ++ ", ".intercalate args ++ ");")]

/-! ### Casts -/

/-- The class that a cast leads to: that of its destination. -/
def castClass (env : Env) (lhs : TermId) : Except Fault String := do
  env.schema.cppNameOr "UObject" (← env.term lhs).type.subType

def lowerDynamicCast (env : Env) (stmt : Statement) : Lower (List Code) := do
  match stmt.lhs, stmt.rhs.getLast? with
  | some lhs, some source =>
    let cls ← castClass env lhs
    let value ← env.text source
    assignTo env lhs ("Cast<" ++ cls ++ ">(" ++ value ++ ")")
  | _, _ => malformed stmt

def lowerMetaCast (env : Env) (stmt : Statement) : Lower (List Code) := do
  match stmt.lhs, stmt.rhs with
  | some lhs, [cls, source] =>
    let cls ← env.text cls
    let value ← env.text source
    assignTo env lhs ("DynamicMetaCast(" ++ cls ++ ", " ++ value ++ ")")
  | _, _ => malformed stmt

def lowerInterfaceToObject (env : Env) (stmt : Statement) : Lower (List Code) := do
  match stmt.lhs, stmt.rhs.getLast? with
  | some lhs, some source =>
    let cls ← castClass env lhs
    let value ← env.text source
    assignTo env lhs ("Cast<" ++ cls ++ ">(" ++ value ++ ".GetObjectRef())")
  | _, _ => malformed stmt

/-- The local that holds the source object of an interface cast. -/
def castSource : String := "CastSource__"

/-- The term is the running instance or a variable of its own. -/
def isPlainSource (t : Term) : Bool :=
  match t.kind with
  | .self => true
  | .reference _ => t.context.isNone
  | .literal _ | .inline _ => false

/-- The checked conversion of `object` into an interface value at `target`, whose failure clears
the destination. -/
def interfaceStore (object cls target : String) : List Code :=
  .line ("if ( IsValid(" ++ object ++ ") && " ++ object ++ "->GetClass()->ImplementsInterface(" ++
      cls ++ ") )") ::
    Code.braces
      [.line (target ++ ".SetObject(" ++ object ++ ");"),
        .line ("void* IAddress = " ++ object ++ "->GetInterfaceAddress(" ++ cls ++ ");"),
        .line (target ++ ".SetInterface(IAddress);")] ++
    .line "else" :: Code.braces [.line (target ++ ".SetObject(nullptr);")]

/-- The checked conversion of an expression that is evaluated once, into a local. -/
def boundInterfaceStore (source cls target : String) : List Code :=
  Code.braces (.line ("UObject* " ++ castSource ++ " = " ++ source ++ ";") ::
    interfaceStore castSource cls target)

/-- Conversion into an interface value.  The operands are the class of the interface and the
source; a source that is no plain variable is evaluated once, into a local. -/
def lowerInterfaceCast (env : Env) (stmt : Statement) : Lower (List Code) := do
  match stmt.lhs, stmt.rhs with
  | some lhs, [cls, source] =>
    let cls ← env.text cls
    let sourceText ← env.text source
    let plain := isPlainSource (← env.term source)
    storing env lhs fun target =>
      if stmt.kind = .interfaceToInterface then
        boundInterfaceStore (sourceText ++ ".GetObjectRef()") cls target
      else if plain then interfaceStore sourceText cls target
      else boundInterfaceStore sourceText cls target
  | _, _ => malformed stmt

/-! ### Delegates -/

/-- The edit of a delegate, `none` when its operands do not fit. -/
def delegateEdit? (env : Env) (stmt : Statement) : Lower (Option String) := do
  match stmt.kind, stmt.rhs with
  | .addMulticastDelegate, [handler] => return some ("Add(" ++ (← env.text handler) ++ ")")
  | .removeMulticastDelegate, [handler] =>
    return some ("Remove(" ++ (← env.text handler) ++ ")")
  | .clearMulticastDelegate, _ => return some "Clear()"
  | .bindDelegate, [name, object] =>
    let object ← env.text object
    let name ← env.text name
    return some ("BindUFunction(" ++ object ++ ", " ++ name ++ ")")
  | _, _ => return none

def lowerDelegateEdit (env : Env) (stmt : Statement) : Lower (List Code) := do
  match stmt.lhs with
  | none => malformed stmt
  | some lhs =>
    match ← delegateEdit? env stmt with
    | none => malformed stmt
    | some edit => storing env lhs fun target => [.line (target ++ "." ++ edit ++ ";")]

/-! ### Jumps -/

/-- The jump to a statement's target; a missing target is reported, and the jump leads out. -/
def targetJump (stmt : Statement) : Lower Jump := do
  match stmt.target with
  | some target => return .toState (← localState target)
  | none =>
    report (.unresolvedJumpTarget stmt.kind.label)
    return .exit

/-- A jump that is taken when the condition, the left operand, does not hold. -/
def jumpUnless (env : Env) (stmt : Statement) (target : Jump) : Lower Action := do
  match stmt.lhs with
  | some condition => return .jumpUnless (← env.text condition) target
  | none => return .plain (← malformed stmt)

def lowerComputedGoto (env : Env) (stmt : Statement) : Lower Action := do
  match stmt.lhs with
  | some state => return .jump (.computed (← env.text state))
  | none => return .plain (← malformed stmt)

def lowerPushState (stmt : Statement) : Lower Action := do
  match stmt.target with
  | some target => return .push (← localState target)
  | none =>
    report (.unresolvedJumpTarget stmt.kind.label)
    return .plain []

/-! ### All statements -/

def lowerCompileError (message : String) : Lower (List Code) := do
  report (.compileErrorMarker message)
  return [.line ("static_assert(false, " ++ Text.quote message ++ "); // CompileError")]

/-- A statement that has no code here. -/
def unsupported (stmt : Statement) (comment : String) : Lower (List Code) := do
  report (.unsupportedStatementKind stmt.kind.label)
  return [.line comment]

/-- A comment, when comments of its kind are wanted. -/
def commentLine (wanted : Bool) (text : String) : List Code :=
  if wanted then [.line ("// " ++ text)] else []

/-- The code of one statement. -/
def lowerStatement (comments : CommentOptions) (env : Env) (id : StmtId) : Lower Action := do
  let stmt ← env.statement id
  match stmt.kind with
  | .nop => return .plain [.line "//No operation."]
  | .call => return .plain (← lowerCall env stmt)
  | .callDelegate => return .plain (← lowerCallDelegate env stmt)
  | .assign => return .plain (← lowerAssign env stmt)
  | .compileError message => return .plain (← lowerCompileError message)
  | .pushState => lowerPushState stmt
  | .returnStatement => return .plain (← unsupported stmt "// Return statement.")
  | .unconditionalGoto => return .jump (← targetJump stmt)
  | .computedGoto => lowerComputedGoto env stmt
  | .gotoIfNot => jumpUnless env stmt (← targetJump stmt)
  | .gotoReturn => return .jump .exit
  | .gotoReturnIfNot => jumpUnless env stmt .exit
  | .endOfThread => return .jump .pop
  | .endOfThreadIfNot => jumpUnless env stmt .pop
  | .dynamicCast => return .plain (← lowerDynamicCast env stmt)
  | .metaCast => return .plain (← lowerMetaCast env stmt)
  | .objectToInterface | .interfaceToInterface => return .plain (← lowerInterfaceCast env stmt)
  | .interfaceToObject => return .plain (← lowerInterfaceToObject env stmt)
  | .objectToBool => return .plain (← lowerObjectToBool env stmt)
  | .addMulticastDelegate | .removeMulticastDelegate | .clearMulticastDelegate
  | .bindDelegate => return .plain (← lowerDelegateEdit env stmt)
  | .createContainer => return .plain (← lowerCreateContainer env stmt)
  | .comment text => return .plain (commentLine comments.emitComments text)
  | .debugSite | .wireTraceSite =>
    return .plain (commentLine comments.emitDebugSites stmt.kind.label)
  | .switchOnValue | .assignOnPersistentFrame =>
    return .plain (← unsupported stmt "// Warning: Ignoring unsupported statement")

end Lowering
end GraphLowering
