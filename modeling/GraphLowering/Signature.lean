import GraphLowering.Schema.Spelling

/-!
# Signatures

The names and signatures under which functions are declared and defined.  A function that
overrides a native event is defined under its name with `_Implementation`.
-/

namespace GraphLowering.Schema

/-- The base of `f` is a native event, or is declared by an interface authored as a graph. -/
def isNativeEvent (s : Schema) (f : FunctionId) : Except Fault Bool := do
  let base ← s.function (← s.baseFunction f)
  let owner ← s.type base.owner
  return base.flags.hasAll [.native, .event, .blueprintEvent] ||
    (owner.kind = .interfaceType && owner.flags.has .userDefined)

/-- The name under which a function is declared and defined. -/
def emittedName (s : Schema) (f : FunctionId) : Except Fault String := do
  let name ← s.functionName f
  let overrides := (← s.baseFunction f) ≠ f
  return if (← s.isNativeEvent f) && overrides then name ++ "_Implementation" else name

/-- A parameter as it is declared. -/
def parameterText (s : Schema) (p : FieldDecl) : Except Fault String := do
  let type ← s.cppType p.type
  return type ++ (if p.flags.has .outParam then "& " else " ") ++ p.name

/-- The type that a function returns. -/
def returnTypeText (s : Schema) (f : FunctionId) : Except Fault String := do
  match ← s.returnField f with
  | some ret => s.cppType (← s.field ret).type
  | none => return "void"

/-- The signature `Ret Owner::Name(params)`, unqualified when there is no owner. -/
def signature (s : Schema) (f : FunctionId) (owner : Option String) : Except Fault String := do
  let returnType ← s.returnTypeText f
  let params ← (← s.inputFields f).mapM s.parameterText
  let qualifier := match owner with
    | some owner => owner ++ "::"
    | none => ""
  return returnType ++ " " ++ qualifier ++ (← s.emittedName f) ++
    "(" ++ ", ".intercalate params ++ ")"

end GraphLowering.Schema
