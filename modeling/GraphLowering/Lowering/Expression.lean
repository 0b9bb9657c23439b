import GraphLowering.Literal
import GraphLowering.Lowering.Guard
import GraphLowering.Signature

/-!
# Lowering — expressions

The parts of an expression, given how to render its terms: literals, access paths, calls and
value switches.
-/

namespace GraphLowering.Lowering

/-- The literal of a value; one without a literal form is reported and the default of its type
stands in. -/
def literalText (env : Env) (t : ValueType) (v : Value) : Lower String := do
  match ← (Literal.render env.cx t v).run with
  | .ok text => return text
  | .error problem =>
    report problem
    Literal.defaultText env.cx t

/-! ### Access paths -/

/-- The class through which a class default is read: the owner of the field, else the bound of
the class reference. -/
def defaultOwner (env : Env) (field : Option FieldId) (context : Term) :
    Except Fault (Option TypeId) := do
  match field with
  | none => return context.type.subType
  | some f =>
    match (← env.schema.field f).owner with
    | .type owner => return some owner
    | .function _ => return context.type.subType

/-- The name of the field or local that a reference stands for. -/
def referenceName (env : Env) (term : Term) (field : Option FieldId) : Except Fault String :=
  match field with
  | some f => env.schema.fieldName f
  | none => return term.name

/-- The access path of a reference: the context, then `.Name`, `->Name` or the read of a class
default. -/
def referencePath (env : Env) (r : Renderer) (term : Term) (field : Option FieldId) :
    Lower String := do
  let name ← referenceName env term field
  match term.context with
  | none => return name
  | some contextId =>
    let context ← env.term contextId
    if context.isSelf then return name
    else
      let path ← r.bare contextId
      if context.type.isValueType then return path ++ "." ++ name
      else if context.type.category = .classRef ∧ !context.type.isArray then
        match ← defaultOwner env field context with
        | some owner =>
          let owner ← env.schema.cppName owner
          return "GetDefaultValueSafe<" ++ owner ++ ">(" ++ path ++ ")->" ++ name
        | none => return path ++ "->" ++ name
      else return path ++ "->" ++ name

/-! ### Conversions -/

/-- The conversion that a value of type `source` needs to be stored at type `target`: between raw
bytes and enums, and from an object class to one below it. -/
def conversion? (schema : Schema) (target source : ValueType) :
    Except Fault (Option String) := do
  if target.isEnum ∧ source.isPlainByte then
    return some ("static_cast<" ++ (← schema.cppType target) ++ ">")
  else if target.isPlainByte ∧ source.isEnum then
    return some "static_cast<uint8>"
  else if target.category = .object ∧ source.category = .object ∧ !target.isArray then
    match target.subType, source.subType with
    | some narrow, some wide =>
      if ← schema.isStrictChildOf narrow wide then
        return some ("Cast<" ++ (← schema.cppName narrow) ++ ">")
      else return none
    | _, _ => return none
  else return none

/-- Apply a conversion. -/
def convert (conversion : Option String) (text : String) : String :=
  match conversion with
  | some c => c ++ "(" ++ text ++ ")"
  | none => text

/-! ### Calls -/

/-- Called through hand-written thunk templates. -/
def isCustomThunk (f : FunctionDecl) : Bool :=
  f.flags.has .customThunk ||
    ["CustomThunk", "CustomStructureParam", "ArrayParm"].any f.metadata.contains

/-- Put a state into the member of a latent action that receives it. -/
def patchLatentInfo (schema : Schema) (info : StructValue) (state : Int) :
    Except Fault StructValue := do
  let flags ← (← schema.allFields info.type).mapM fun f => return (← schema.field f).flags
  match flags.findIdx? (·.has .needsLatentFixup) with
  | some slot => return { info with members := info.members.set slot (.int (.ofInt state)) }
  | none => return info

/-- The argument for a latent action that resumes in a state. -/
def latentInfoText (env : Env) (r : Renderer) (arg : TermId) (state : Int) : Lower String := do
  let term ← env.term arg
  match term.kind with
  | .literal (.struct type members) =>
    let info ← patchLatentInfo env.schema ⟨type, members⟩ state
    literalText env term.type info.toValue
  | _ => r.guarded arg

/-- The parameter takes a latent action. -/
def isLatentInfo (schema : Schema) (param : FieldDecl) : Except Fault Bool := do
  match param.type.subType with
  | some t => return (← schema.type t).wellKnown = some .latentActionInfo
  | none => return false

/-- The text of one argument. -/
def argumentText (env : Env) (r : Renderer) (resume : Option StmtId) (param : FieldDecl)
    (arg : TermId) : Lower String := do
  match resume with
  | some label =>
    let state ← resumeState label
    if ← isLatentInfo env.schema param then latentInfoText env r arg state
    else return toString state
  | none =>
    if param.flags.has .outParam then return "/*out*/ " ++ (← r.bare arg)
    else
      let conversion ← conversion? env.schema param.type (← env.term arg).type
      return convert conversion (← r.guarded arg)

/-- The texts of the arguments from number `i` on. -/
def argumentTexts (env : Env) (r : Renderer) (stmt : Statement) :
    Nat → List (FieldDecl × TermId) → Lower (List String)
  | _, [] => return []
  | i, (param, arg) :: rest => do
    let resume := if stmt.resumeArgument = some i then stmt.target else none
    let text ← argumentText env r resume param arg
    return text :: (← argumentTexts env r stmt (i + 1) rest)

/-- The arguments of a call in the order of declaration, the return value left out. -/
def callArguments (env : Env) (r : Renderer) (stmt : Statement) (f : FunctionId) :
    Lower String := do
  let params ← env.schema.inputFields f
  let texts ← argumentTexts env r stmt 0 (params.zip stmt.rhs)
  recordCall ⟨stmt, texts⟩
  return ", ".intercalate texts

/-- The object that a call is made on, unless it is the running instance. -/
def callTarget? (env : Env) (stmt : Statement) : Except Fault (Option TermId) := do
  match stmt.context with
  | none => return none
  | some c => return if (← env.term c).isSelf then none else some c

/-- A call, without the semicolon. -/
def callText (env : Env) (r : Renderer) (stmt : Statement) : Lower String := do
  match stmt.function with
  | none =>
    report (.unsupportedInlineStatement stmt.kind.label)
    return ""
  | some f =>
    let schema := env.schema
    let decl ← schema.function f
    let args ← callArguments env r stmt f
    if stmt.isParentCall then
      let suffix := if ← schema.isNativeEvent f then "_Implementation" else ""
      return "Super::" ++ decl.name ++ suffix ++ "(" ++ args ++ ")"
    else if decl.flags.has .isStatic then
      let owner ← if isCustomThunk decl then pure "FCustomThunkTemplates"
        else schema.cppName decl.owner
      return owner ++ "::" ++ decl.name ++ "(" ++ args ++ ")"
    else
      let target ← callTarget? env stmt
      if (← schema.type decl.owner).kind = .interfaceType then
        let object ← match target with
          | some c => pure ((← r.bare c) ++ ".GetObject()")
          | none => pure "this"
        let separator := if args.isEmpty then "" else ", "
        return (← schema.interfaceCppName decl.owner) ++ "::Execute_" ++ decl.name ++
          "(" ++ object ++ separator ++ args ++ ")"
      else
        match target with
        | some c => return (← r.bare c) ++ "->" ++ decl.name ++ "(" ++ args ++ ")"
        | none => return decl.name ++ "(" ++ args ++ ")"

/-! ### Value switches -/

/-- Neighbours taken two by two; an odd one out is dropped. -/
def pairs {α : Type} : List α → List (α × α)
  | a :: b :: rest => (a, b) :: pairs rest
  | _ => []

/-- The switch `TSwitchValue(index, default, N, TSwitchPair<I, V>(key, value), ...)`.  The
operands are the index, the keys with their values, and the default. -/
def switchText (env : Env) (r : Renderer) (stmt : Statement) : Lower String := do
  match stmt.rhs with
  | index :: next :: rest =>
    let default := (next :: rest).getLastD next
    let cases := pairs (next :: rest).dropLast
    let indexType ← env.schema.cppType (← env.term index).type
    let valueType ← env.schema.cppType (← env.term default).type
    let indexText ← r.guarded index
    let defaultText ← r.guarded default
    let caseTexts ← cases.mapM fun (key, value) => do
      let key ← r.guarded key
      let value ← r.guarded value
      return ", TSwitchPair<" ++ indexType ++ ", " ++ valueType ++ ">(" ++ key ++ ", " ++
        value ++ ")"
    return "TSwitchValue(" ++ indexText ++ ", " ++ defaultText ++ ", " ++
      toString cases.length ++ String.join caseTexts ++ ")"
  | _ =>
    report (.unsupportedInlineStatement stmt.kind.label)
    return ""

/-- The value of a statement: only switches and calls have one. -/
def valueText (env : Env) (r : Renderer) (stmt : Statement) : Lower String := do
  match stmt.kind with
  | .switchOnValue => switchText env r stmt
  | .call => callText env r stmt
  | other =>
    report (.unsupportedInlineStatement other.label)
    return ""

/-- The value of a nested statement. -/
def inlineText (env : Env) (r : Renderer) (id : StmtId) : Lower String := do
  let stmt ← env.statement id
  recordInline id
  valueText env r stmt

/-! ### Terms -/

/-- A reference behind its checks: `((checks) ? (path) : (default))`. -/
def checkedPath (env : Env) (r : Renderer) (term : Term) (path : String) : Lower String := do
  let checks ← guardChecks env r term.context
  if checks.isEmpty then return path
  else
    let default ← Literal.defaultText env.cx term.type
    return "((" ++ Code.conjunction checks ++ ") ? (" ++ path ++ ") : (" ++ default ++ "))"

/-- The expression of a term, given how to render the terms it is built from. -/
def termText (env : Env) (r : Renderer) (checked : Bool) (id : TermId) : Lower String := do
  let term ← env.term id
  match term.kind with
  | .self => return "this"
  | .literal value => literalText env term.type value
  | .inline stmt => inlineText env r stmt
  | .reference field =>
    let path ← referencePath env r term field
    if checked then checkedPath env r term path else return path

/-- Renders terms nested at most `n` deep. -/
def rendererFrom (env : Env) : Nat → Renderer
  | 0 => ⟨fun _ => throw .endless, fun _ => throw .endless⟩
  | n + 1 => ⟨termText env (rendererFrom env n) true, termText env (rendererFrom env n) false⟩

/-- Renders the terms of a graph. -/
def Env.renderer (env : Env) : Renderer := rendererFrom env env.graph.height

end GraphLowering.Lowering
