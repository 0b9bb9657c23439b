/-!
# Schema — flags

The marks that types, fields, functions and objects carry, and finite sets of them.  Each kind
of flag lists its members in one fixed order (`all`) and names them (`label`).
-/

namespace GraphLowering

/-- A set of flags, given by its members. -/
structure Flags (α : Type) where
  members : List α := []
  deriving Repr, Inhabited

namespace Flags

variable {α : Type} [DecidableEq α]

/-- The set with one member. -/
def single (a : α) : Flags α := ⟨[a]⟩

def has (s : Flags α) (a : α) : Bool := s.members.contains a

/-- Every listed flag is in the set. -/
def hasAll (s : Flags α) (as : List α) : Bool := as.all s.has

/-- Some listed flag is in the set. -/
def hasAny (s : Flags α) (as : List α) : Bool := as.any s.has

/-- The set with `a` added. -/
def insert (s : Flags α) (a : α) : Flags α := if s.has a then s else ⟨s.members ++ [a]⟩

end Flags

/-- Marks of a class, struct, enum or interface. -/
inductive TypeFlag
  /-- A world entity, spelled with an `A` in front. -/
  | actor
  /-- Implemented by hand. -/
  | native
  /-- Authored as a graph. -/
  | userDefined
  | component
  deriving DecidableEq, Repr, Inhabited

namespace TypeFlag

def all : List TypeFlag := [actor, native, userDefined, component]

/-- The name of the flag in a written schema. -/
def label : TypeFlag → String
  | actor => "ACTOR"
  | native => "NATIVE"
  | userDefined => "USER_DEFINED"
  | component => "COMPONENT"

end TypeFlag

/-- Marks of a field or parameter. -/
inductive FieldFlag
  | edit | editConst | disableEditOnInstance | disableEditOnTemplate
  | blueprintVisible | blueprintReadOnly
  | config | globalConfig
  | transient | duplicateTransient | textExportTransient | nonPieDuplicateTransient
  | exportObject | noClear | editFixedSize | saveGame
  | net | repNotify | repSkip
  | interp | nonTransactional
  | blueprintAssignable | blueprintCallable | blueprintAuthorityOnly
  | assetRegistrySearchable | simpleDisplay | advancedDisplay
  /-- Never written by generated code. -/
  | editorOnly
  | isPrivate | isProtected
  | param
  /-- Written by the callee. -/
  | outParam
  | returnParam
  /-- Holds a sub-object that is re-created for every owner. -/
  | instanced
  /-- Receives the resume state of a latent call. -/
  | needsLatentFixup
  deriving DecidableEq, Repr, Inhabited

namespace FieldFlag

def all : List FieldFlag :=
  [edit, editConst, disableEditOnInstance, disableEditOnTemplate, blueprintVisible,
    blueprintReadOnly, config, globalConfig, transient, duplicateTransient, textExportTransient,
    nonPieDuplicateTransient, exportObject, noClear, editFixedSize, saveGame, net, repNotify,
    repSkip, interp, nonTransactional, blueprintAssignable, blueprintCallable,
    blueprintAuthorityOnly, assetRegistrySearchable, simpleDisplay, advancedDisplay, editorOnly,
    isPrivate, isProtected, param, outParam, returnParam, instanced, needsLatentFixup]

/-- The name of the flag in a written schema. -/
def label : FieldFlag → String
  | edit => "EDIT"
  | editConst => "EDIT_CONST"
  | disableEditOnInstance => "DISABLE_EDIT_ON_INSTANCE"
  | disableEditOnTemplate => "DISABLE_EDIT_ON_TEMPLATE"
  | blueprintVisible => "BLUEPRINT_VISIBLE"
  | blueprintReadOnly => "BLUEPRINT_READ_ONLY"
  | config => "CONFIG"
  | globalConfig => "GLOBAL_CONFIG"
  | transient => "TRANSIENT"
  | duplicateTransient => "DUPLICATE_TRANSIENT"
  | textExportTransient => "TEXT_EXPORT_TRANSIENT"
  | nonPieDuplicateTransient => "NON_PIE_DUPLICATE_TRANSIENT"
  | exportObject => "EXPORT_OBJECT"
  | noClear => "NO_CLEAR"
  | editFixedSize => "EDIT_FIXED_SIZE"
  | saveGame => "SAVE_GAME"
  | net => "NET"
  | repNotify => "REP_NOTIFY"
  | repSkip => "REP_SKIP"
  | interp => "INTERP"
  | nonTransactional => "NON_TRANSACTIONAL"
  | blueprintAssignable => "BLUEPRINT_ASSIGNABLE"
  | blueprintCallable => "BLUEPRINT_CALLABLE"
  | blueprintAuthorityOnly => "BLUEPRINT_AUTHORITY_ONLY"
  | assetRegistrySearchable => "ASSET_REGISTRY_SEARCHABLE"
  | simpleDisplay => "SIMPLE_DISPLAY"
  | advancedDisplay => "ADVANCED_DISPLAY"
  | editorOnly => "EDITOR_ONLY"
  | isPrivate => "PRIVATE"
  | isProtected => "PROTECTED"
  | param => "PARAM"
  | outParam => "OUT_PARAM"
  | returnParam => "RETURN_PARAM"
  | instanced => "INSTANCED"
  | needsLatentFixup => "NEEDS_LATENT_FIXUP"

end FieldFlag

/-- Marks of a function or delegate signature. -/
inductive FunctionFlag
  | isStatic | native | event | blueprintEvent | exec
  | net | netServer | netClient | netMulticast | netReliable | netValidate
  | blueprintCallable | blueprintPure | blueprintAuthorityOnly | blueprintCosmetic
  /-- Called through hand-written thunk templates instead of its owner. -/
  | customThunk
  | delegate | multicastDelegate
  deriving DecidableEq, Repr, Inhabited

namespace FunctionFlag

def all : List FunctionFlag :=
  [isStatic, native, event, blueprintEvent, exec, net, netServer, netClient, netMulticast,
    netReliable, netValidate, blueprintCallable, blueprintPure, blueprintAuthorityOnly,
    blueprintCosmetic, customThunk, delegate, multicastDelegate]

/-- The name of the flag in a written schema. -/
def label : FunctionFlag → String
  | isStatic => "STATIC"
  | native => "NATIVE"
  | event => "EVENT"
  | blueprintEvent => "BLUEPRINT_EVENT"
  | exec => "EXEC"
  | net => "NET"
  | netServer => "NET_SERVER"
  | netClient => "NET_CLIENT"
  | netMulticast => "NET_MULTICAST"
  | netReliable => "NET_RELIABLE"
  | netValidate => "NET_VALIDATE"
  | blueprintCallable => "BLUEPRINT_CALLABLE"
  | blueprintPure => "BLUEPRINT_PURE"
  | blueprintAuthorityOnly => "BLUEPRINT_AUTHORITY_ONLY"
  | blueprintCosmetic => "BLUEPRINT_COSMETIC"
  | customThunk => "CUSTOM_THUNK"
  | delegate => "DELEGATE"
  | multicastDelegate => "MULTICAST_DELEGATE"

end FunctionFlag

/-- Marks of a live object. -/
inductive ObjectFlag
  | classDefault | asset | transient
  deriving DecidableEq, Repr, Inhabited

namespace ObjectFlag

def all : List ObjectFlag := [classDefault, asset, transient]

/-- The name of the flag in a written schema. -/
def label : ObjectFlag → String
  | classDefault => "CLASS_DEFAULT"
  | asset => "ASSET"
  | transient => "TRANSIENT"

end ObjectFlag
end GraphLowering
