import GraphLowering.Declaration
import GraphLowering.Defaults.Constructor
import GraphLowering.Defaults.StructFactory
import GraphLowering.Dependency
import GraphLowering.Lowering.Function

/-!
# Units

The source of one class, struct, enum or interface.  A class has a declaration and an
implementation, the other kinds only a declaration.  The event graph is lowered before the other
functions, so that calls that resume in it find its states numbered.
-/

namespace GraphLowering

/-- The source generated for a unit, before it is written out. -/
structure UnitSource where
  name : String
  declaration : List Code
  implementation : Option (List Code)
  dependencies : Dependencies
  deriving Repr, Inhabited

/-- The text generated for a unit. -/
structure UnitOutput where
  /-- The stem of the names of its files. -/
  name : String
  declaration : String
  implementation : Option String
  dependencies : Dependencies
  deriving DecidableEq, Repr, Inhabited

/-- Write the source of a unit out. -/
def UnitSource.render (s : UnitSource) (indentUnit : String) : UnitOutput :=
  { name := s.name
    declaration := Code.render indentUnit s.declaration
    implementation := s.implementation.map (Code.render indentUnit)
    dependencies := s.dependencies }

namespace ScriptUnit

/-! ### Bodies -/

/-- Lower functions in turn, each resuming in the same event graph.  The second part is what the
functions leave behind. -/
def lowerAll (comments : CommentOptions) (cx : Context) :
    List FunctionGraph → Option StateMap → Sink →
      Except Fault (List LoweredFunction × Option StateMap × Sink)
  | [], resumeStates, sink => return ([], resumeStates, sink)
  | g :: rest, resumeStates, sink => do
    let (result, s) := lowerFunction comments cx g resumeStates sink
    let lowered ← result
    let (others, resumeStates, sink) ← lowerAll comments cx rest s.resumeStates s.sink
    return (lowered :: others, resumeStates, sink)

/-- Cut a list at the first element with a property. -/
def splitAtFirst {α : Type} (p : α → Bool) (xs : List α) : List α × List α :=
  (xs.takeWhile (!p ·), xs.dropWhile (!p ·))

/-- Lower the functions of a unit, the event graph before all others; the results stand in the
order of the functions. -/
def lowerBodies (comments : CommentOptions) (cx : Context) (u : ScriptUnit) (sink : Sink) :
    Except Fault (List LoweredFunction × Sink) := do
  let (before, rest) := splitAtFirst (·.isEventGraph) u.functions
  match rest with
  | [] =>
    let (lowered, _, sink) ← lowerAll comments cx before none sink
    return (lowered, sink)
  | event :: after =>
    let (result, s) := lowerFunction comments cx event none sink
    let event ← result
    let (first, resumeStates, sink) ← lowerAll comments cx before (some event.states) s.sink
    let (last, resumeStates, sink) ← lowerAll comments cx after resumeStates sink
    let event := { event with states := resumeStates.getD event.states }
    return (first ++ event :: last, sink)

/-! ### Parts of declarations -/

/-- The head of a header: its includes, and that of the generated code. -/
def headerPrologue (cx : Context) (includes : List String) : Except Fault (List Code) := do
  let generated := "#include \"" ++ (← cx.schema.typeName cx.unit) ++ ".generated.h\""
  return [.line "#pragma once", Code.blank] ++ includes.map Code.line ++
    [.line generated, Code.blank]

/-- The documentation of a type, on one line. -/
def docComment (t : TypeDecl) : List Code :=
  t.doc.toList.map fun doc => .line ("/** " ++ Text.replaceChar '\n' [' '] doc ++ " */")

/-- The decoration of a type, with its metadata. -/
def typeLine (name : String) (tags : List String) (t : TypeDecl) : Code :=
  .line (decoration name (tags ++ (metadataTag? t.metadata false).toList))

/-- The declaration of a function.  One that overrides a native event is a plain virtual
function. -/
def functionDeclaration (cx : Context) (f : FunctionId) : Except Fault (List Code) := do
  let signature ← cx.schema.signature f none
  if (← cx.schema.emittedName f) ≠ (← cx.schema.functionName f) then
    return [.line ("virtual " ++ signature ++ " override;")]
  else return [.line (← cx.schema.functionLine f), .line (signature ++ ";")]

/-- The declarations of the unit's own fields. -/
def fieldDeclarations (cx : Context) : Except Fault (List Code) := do
  let lines ← (← cx.schema.ownFields cx.unit).mapM fun f => do
    return [Code.line (← cx.schema.propertyLine f), .line (← cx.schema.fieldLine f)]
  return lines.flatten

/-! ### Classes -/

/-- The super type and the interfaces of a class, as bases. -/
def baseList (cx : Context) (t : TypeDecl) : Except Fault String := do
  let parent ← cx.schema.cppNameOr "UObject" t.superType
  let interfaces ← t.interfaces.mapM cx.schema.interfaceCppName
  return ", ".intercalate ((parent :: interfaces).map ("public " ++ ·))

def classDeclaration (cx : Context) (u : ScriptUnit) (deps : Dependencies) :
    Except Fault (List Code) := do
  let schema := cx.schema
  let t ← schema.type cx.unit
  let cls ← cx.unitCppName
  let prologue ← headerPrologue cx (← deps.headerIncludes cx)
  let delegates ← schema.delegateDeclarations cx.unit
  let delegateCode := if delegates.isEmpty then [] else delegates.map Code.line ++ [Code.blank]
  let bases ← baseList cx t
  let fields ← fieldDeclarations cx
  let constructor := cls ++
    "(const FObjectInitializer& ObjectInitializer = FObjectInitializer::Get());"
  let replication ← schema.replicationDeclaration? cx.unit
  let functions ← u.functions.mapM fun g => functionDeclaration cx g.function
  return prologue ++ delegateCode ++ docComment t ++
    [typeLine "UCLASS" ["Blueprintable", "BlueprintType"] t,
      .line ("class " ++ cls ++ " : " ++ bases),
      .line "\x7b",
      .nested [.line "GENERATED_BODY()"],
      .line "public:",
      .nested (fields ++ [Code.blank, .line constructor] ++ replication.toList.map Code.line ++
        functions.flatten),
      .line "\x7d;"]

/-- The definitions of the functions of a class, each after an empty line. -/
def definitions (cx : Context) (functions : List (FunctionGraph × LoweredFunction)) :
    Except Fault (List Code) := do
  let texts ← functions.mapM fun (g, lowered) => do
    return [Code.blank, Code.asText (← definitionCode cx g lowered)]
  return texts.flatten

def classImplementation (cx : Context) (u : ScriptUnit) (deps : Dependencies)
    (bodies : List LoweredFunction) (sink : Sink) : Except Fault (List Code × Sink) := do
  let header := "#include \"" ++ (← cx.schema.typeName cx.unit) ++ ".h\""
  let includes ← deps.implementationIncludes cx
  let (constructor, sink) ← Defaults.constructorCode cx (sink.enterFunction none)
  let replication ← cx.schema.replicationCode? cx.unit
  let replicationCode := replication.toList.flatMap fun code => [Code.blank, Code.asText code]
  let functions ← definitions cx (u.functions.zip bodies)
  let code := .line header :: includes.map Code.line ++
    [Code.blank, Code.asText constructor] ++ replicationCode ++
    functions
  return (code, sink)

/-! ### Structs, enums and interfaces -/

def structDeclaration (cx : Context) (deps : Dependencies) (sink : Sink) :
    Except Fault (List Code × Sink) := do
  let t ← cx.schema.type cx.unit
  let includes := (← deps.headerIncludes cx) ++ (← deps.implementationIncludes cx)
  let prologue ← headerPrologue cx includes
  let name ← cx.unitCppName
  let fields ← fieldDeclarations cx
  let (factory, sink) ← Defaults.structFactoryCode cx cx.unit sink
  let code := prologue ++ docComment t ++
    [typeLine "USTRUCT" ["BlueprintType"] t,
      .line ("struct " ++ name),
      .line "\x7b",
      .line "public:",
      .nested ([.line "GENERATED_BODY()"] ++ fields ++
        [Code.blank, Code.asText factory]),
      .line "\x7d;"]
  return (code, sink)

/-- The declaration of an enum's entry. -/
def enumEntryLine (e : EnumEntry) : Code :=
  match e.displayName with
  | some display => .line (e.name ++ " UMETA(DisplayName=" ++ Text.quote display ++ "),")
  | none => .line (e.name ++ ",")

def enumDeclaration (cx : Context) (deps : Dependencies) : Except Fault (List Code) := do
  let t ← cx.schema.type cx.unit
  let prologue ← headerPrologue cx (← deps.headerIncludes cx)
  let name ← cx.unitCppName
  return prologue ++ docComment t ++
    [typeLine "UENUM" ["BlueprintType"] t,
      .line ("enum class " ++ name ++ " : uint8"),
      .line "\x7b",
      .nested (t.enumEntries.map enumEntryLine),
      .line "\x7d;"]

/-- The declarations of an interface's functions, signatures of delegates left out. -/
def interfaceFunctions (cx : Context) (functions : List FunctionId) :
    Except Fault (List Code) := do
  let lines ← functions.mapM fun f => do
    if (← cx.schema.function f).flags.has .delegate then return []
    else
      return [Code.line (← cx.schema.functionLine f),
        .line ((← cx.schema.signature f none) ++ ";")]
  return lines.flatten

def interfaceDeclaration (cx : Context) (deps : Dependencies) : Except Fault (List Code) := do
  let t ← cx.schema.type cx.unit
  let prologue ← headerPrologue cx (← deps.headerIncludes cx)
  let name ← cx.unitCppName
  let nativeSide ← cx.schema.interfaceCppName cx.unit
  let functions ← interfaceFunctions cx t.functions
  return prologue ++ docComment t ++
    [typeLine "UINTERFACE" ["Blueprintable"] t,
      .line ("class " ++ name ++ " : public UInterface"),
      .line "\x7b",
      .nested [.line "GENERATED_BODY()"],
      .line "\x7d;",
      Code.blank,
      .line ("class " ++ nativeSide),
      .line "\x7b",
      .nested [.line "GENERATED_BODY()"],
      .line "public:",
      .nested functions,
      .line "\x7d;"]

/-! ### All units -/

/-- The declaration of a unit and, for a class, its implementation, with the sink after them. -/
def sourceCode (comments : CommentOptions) (cx : Context) (u : ScriptUnit)
    (deps : Dependencies) (kind : TypeKind) (sink : Sink) :
    Except Fault (List Code × Option (List Code) × Sink) := do
  match kind with
  | .classType =>
    let (bodies, sink) ← u.lowerBodies comments cx sink
    let declaration ← classDeclaration cx u deps
    let (implementation, sink) ← classImplementation cx u deps bodies sink
    return (declaration, some implementation, sink)
  | .structType =>
    let (declaration, sink) ← structDeclaration cx deps sink
    return (declaration, none, sink)
  | .enumType => return (← enumDeclaration cx deps, none, sink)
  | .interfaceType => return (← interfaceDeclaration cx deps, none, sink)

/-- Generate the source of a unit. -/
def emit (comments : CommentOptions) (cx : Context) (u : ScriptUnit) (sink : Sink) :
    Except Fault (UnitSource × Sink) := do
  let t ← cx.schema.type u.type
  let deps ← gather cx u
  let (declaration, implementation, sink) ←
    u.sourceCode comments cx deps t.kind (sink.enterUnit t.name)
  return (⟨t.name, declaration, implementation, deps⟩, sink.enterFunction none)

end ScriptUnit
end GraphLowering
