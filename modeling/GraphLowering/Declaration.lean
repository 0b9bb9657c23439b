import GraphLowering.Code.Tree
import GraphLowering.Signature
import GraphLowering.Text.Substitute

/-!
# Declarations

The decorations of declared fields and functions, the signatures of delegates, and the
registration of replicated fields.
-/

namespace GraphLowering

/-! ### Specifiers -/

/-- The specifier for where a field can be seen and edited. -/
def visibilityTag? (flags : Flags FieldFlag) : Option String :=
  let edit (extra : List FieldFlag) := flags.hasAll (.edit :: extra)
  if edit [.editConst, .disableEditOnInstance] then some "VisibleDefaultsOnly"
  else if edit [.editConst, .disableEditOnTemplate] then some "VisibleInstanceOnly"
  else if edit [.editConst] then some "VisibleAnywhere"
  else if edit [.disableEditOnInstance] then some "EditDefaultsOnly"
  else if edit [.disableEditOnTemplate] then some "EditInstanceOnly"
  else if edit [] then some "EditAnywhere"
  else none

/-- The specifier for access from graphs. -/
def graphAccessTag? (flags : Flags FieldFlag) : Option String :=
  if flags.hasAll [.blueprintVisible, .blueprintReadOnly] then some "BlueprintReadOnly"
  else if flags.has .blueprintVisible then some "BlueprintReadWrite"
  else none

/-- The specifier for values kept in configuration files. -/
def configTag? (flags : Flags FieldFlag) : Option String :=
  if flags.hasAll [.globalConfig, .config] then some "GlobalConfig"
  else if flags.has .config then some "Config"
  else none

/-- Specifiers of a field, each with the flags it needs. -/
def simpleFieldTags : List (String × List FieldFlag) :=
  [("Transient", [.transient]),
    ("DuplicateTransient", [.duplicateTransient]),
    ("TextExportTransient", [.textExportTransient]),
    ("NonPIEDuplicateTransient", [.nonPieDuplicateTransient]),
    ("Export", [.exportObject]),
    ("NoClear", [.noClear]),
    ("EditFixedSize", [.editFixedSize]),
    ("NotReplicated", [.repSkip]),
    ("Interp", [.edit, .blueprintVisible, .interp]),
    ("NonTransactional", [.nonTransactional]),
    ("BlueprintAssignable", [.blueprintAssignable]),
    ("BlueprintCallable", [.blueprintCallable]),
    ("BlueprintAuthorityOnly", [.blueprintAuthorityOnly]),
    ("AssetRegistrySearchable", [.assetRegistrySearchable]),
    ("SimpleDisplay", [.simpleDisplay]),
    ("AdvancedDisplay", [.advancedDisplay]),
    ("SaveGame", [.saveGame])]

/-- Specifiers of a function, each with the flags it needs. -/
def simpleFunctionTags : List (String × List FunctionFlag) :=
  [("Exec", [.exec]),
    ("Server", [.net, .netServer]),
    ("Client", [.net, .netClient]),
    ("NetMulticast", [.net, .netMulticast]),
    ("Reliable", [.netReliable]),
    ("BlueprintCallable", [.blueprintCallable]),
    ("BlueprintPure", [.blueprintCallable, .blueprintPure]),
    ("BlueprintAuthorityOnly", [.blueprintAuthorityOnly]),
    ("BlueprintCosmetic", [.blueprintCosmetic]),
    ("WithValidation", [.netValidate])]

/-- The specifiers whose flags are all there. -/
def presentTags {α : Type} [DecidableEq α] (flags : Flags α) (tags : List (String × List α)) :
    List String :=
  (tags.filter fun t => flags.hasAll t.2).map (·.1)

/-- The specifiers of a field's flags, in the order in which they are declared. -/
def propertyTags (flags : Flags FieldFlag) : List String :=
  (visibilityTag? flags).toList ++ (graphAccessTag? flags).toList ++ (configTag? flags).toList ++
    presentTags flags simpleFieldTags

/-- Metadata that exists only in the editor. -/
def isEditorOnlyKey (key : String) : Bool := key = "ModuleRelativePath"

/-- One entry of metadata: the key alone, or the key with its value on one line. -/
def metadataEntry (key value : String) : String :=
  if value.isEmpty then key
  else key ++ "=\"" ++ Text.replaceChar '\n' [] value ++ "\""

/-- The specifier `meta=(Key="Value", Flag)`, if there is anything to write.  A bare `Category`
is added when one is wanted and none is there. -/
def metadataTag? (metadata : Metadata) (addCategory : Bool) : Option String :=
  let entries := (metadata.entries.filter fun e => !isEditorOnlyKey e.1).map fun e =>
    metadataEntry e.1 e.2
  let category := if addCategory && !metadata.contains "Category" then ["Category"] else []
  match entries ++ category with
  | [] => none
  | all => some ("meta=(" ++ ", ".intercalate all ++ ")")

/-- The specifier for replication. -/
def replicationTag? (f : FieldDecl) : Option String :=
  if f.flags.has .net then
    match f.repNotify with
    | some notify =>
      if f.flags.has .repNotify then some ("ReplicatedUsing=" ++ notify) else some "Replicated"
    | none => some "Replicated"
  else none

/-- A decoration with its specifiers. -/
def decoration (name : String) (tags : List String) : String :=
  name ++ "(" ++ ", ".intercalate tags ++ ")"

namespace Schema

/-! ### Fields and functions -/

/-- The decoration of a field. -/
def propertyLine (s : Schema) (id : FieldId) : Except Fault String := do
  let f ← s.field id
  let needsCategory := f.flags.hasAny [.edit, .blueprintVisible]
  return decoration "UPROPERTY" (propertyTags f.flags ++ (replicationTag? f).toList ++
    (metadataTag? f.metadata needsCategory).toList)

/-- The declaration of a field: `Type Name;`, or `Type Name[N];` for a static array. -/
def fieldLine (s : Schema) (id : FieldId) : Except Fault String := do
  let f ← s.field id
  let type ← s.cppType f.type
  let dim := if f.arrayDim > 1 then "[" ++ toString f.arrayDim ++ "]" else ""
  return type ++ " " ++ f.name ++ dim ++ ";"

/-- The decoration of a function. -/
def functionLine (s : Schema) (id : FunctionId) : Except Fault String := do
  let f ← s.function id
  let event := if (← s.type f.owner).kind = .interfaceType then ["BlueprintNativeEvent"] else []
  let needsCategory := f.flags.hasAny [.blueprintCallable, .blueprintPure]
  return decoration "UFUNCTION" (presentTags f.flags simpleFunctionTags ++ event ++
    (metadataTag? f.metadata needsCategory).toList)

/-! ### Delegates -/

/-- The ending of a delegate declaration that tells its number of parameters. -/
def paramCountSuffix : Nat → String
  | 0 => ""
  | 1 => "_OneParam"
  | 2 => "_TwoParams"
  | 3 => "_ThreeParams"
  | 4 => "_FourParams"
  | 5 => "_FiveParams"
  | 6 => "_SixParams"
  | 7 => "_SevenParams"
  | 8 => "_EightParams"
  | _ => "_TooMany"

/-- The declaration of a delegate of one category. -/
def delegateDeclarer? : Category → Option String
  | .delegate => some "DECLARE_DYNAMIC_DELEGATE"
  | .multicastDelegate => some "DECLARE_DYNAMIC_MULTICAST_DELEGATE"
  | _ => none

/-- A parameter of a delegate declaration. -/
def delegateParam (s : Schema) (p : FieldDecl) : Except Fault String := do
  let type ← s.cppType p.type
  return ", " ++ type ++ (if p.isOut then "&" else "") ++ ", " ++ p.name

/-- The declaration of the signature of a field that is a delegate. -/
def delegateDeclaration? (s : Schema) (id : FieldId) : Except Fault (Option String) := do
  let t := (← s.field id).type
  match t.signature, delegateDeclarer? t.category with
  | some signature, some declarer =>
    let params ← (← s.inputFields signature).mapM s.delegateParam
    return some (declarer ++ paramCountSuffix params.length ++ "(" ++ (← s.delegateTypeName t) ++
      String.join params ++ ")")
  | _, _ => return none

/-- The texts without repetition, each at its first place. -/
def distinct (texts : List String) : List String :=
  texts.foldl (fun seen t => if seen.contains t then seen else seen ++ [t]) []

/-- The signatures of the delegates among a type's own fields, each declared once. -/
def delegateDeclarations (s : Schema) (unit : TypeId) : Except Fault (List String) := do
  let declarations ← (← s.ownFields unit).mapM s.delegateDeclaration?
  return distinct (declarations.filterMap id)

/-! ### Replication -/

/-- The own fields of a type that are replicated. -/
def replicatedFields (s : Schema) (unit : TypeId) : Except Fault (List FieldDecl) := do
  return (← (← s.ownFields unit).mapM s.field).filter (·.flags.has .net)

/-- The declaration of the function that registers replicated fields, if there are any. -/
def replicationDeclaration? (s : Schema) (unit : TypeId) : Except Fault (Option String) := do
  if (← s.replicatedFields unit).isEmpty then return none
  else
    return some ("virtual void GetLifetimeReplicatedProps" ++
      "(TArray< FLifetimeProperty > & OutLifetimeProps) const override;")

/-- The function that registers replicated fields, if there are any. -/
def replicationCode? (s : Schema) (unit : TypeId) : Except Fault (Option (List Code)) := do
  let fields ← s.replicatedFields unit
  if fields.isEmpty then return none
  else
    let cls ← s.cppName unit
    let registrations := fields.map fun f =>
      Code.line ("DOREPLIFETIME( " ++ cls ++ ", " ++ f.name ++ ");")
    return some (.line ("void " ++ cls ++ "::GetLifetimeReplicatedProps" ++
        "(TArray< FLifetimeProperty > & OutLifetimeProps) const") ::
      Code.braces (.line "Super::GetLifetimeReplicatedProps(OutLifetimeProps);" ::
        registrations))

end Schema
end GraphLowering
