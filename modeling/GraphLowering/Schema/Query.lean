import GraphLowering.Schema.Basic

/-!
# Schema — derived facts

Inheritance, overriding and default values, all read off the declarations.  The walks over super
types, interfaces and by-value members are bounded by the height of the schema; only a circle
reaches the bound, and it is answered by `Fault.endless`.
-/

namespace GraphLowering.Schema

/-! ### Super types -/

/-- Visit `start` and its super types in turn, up to the first one that `visit` answers. -/
def climb {α : Type} (s : Schema) (visit : TypeId → Except Fault (Option α)) :
    Nat → Option TypeId → Except Fault (Option α)
  | _, none => return none
  | 0, some _ => throw .endless
  | n + 1, some t => do
    match ← visit t with
    | some a => return some a
    | none => climb s visit n (← s.type t).superType

/-- A type followed by its super types. -/
def lineageFrom (s : Schema) : Nat → TypeId → Except Fault (List TypeDecl)
  | 0, _ => throw .endless
  | n + 1, id => do
    let t ← s.type id
    match t.superType with
    | none => return [t]
    | some parent => return t :: (← lineageFrom s n parent)

/-- A type followed by its super types. -/
def lineage (s : Schema) (id : TypeId) : Except Fault (List TypeDecl) :=
  s.lineageFrom s.height id

def ownFields (s : Schema) (id : TypeId) : Except Fault (List FieldId) :=
  return (← s.type id).fields

/-- Every field of a type, those of its super types first. -/
def allFields (s : Schema) (id : TypeId) : Except Fault (List FieldId) :=
  return (← s.lineage id).reverse.flatMap (·.fields)

/-- Whether `id` is `base` or derives from it. -/
def isChildOf (s : Schema) (id base : TypeId) : Except Fault Bool := do
  let found ← s.climb (fun t => return if t = base then some () else none) s.height (some id)
  return found.isSome

/-- Whether `id` derives from `base` and is not `base`. -/
def isStrictChildOf (s : Schema) (id base : TypeId) : Except Fault Bool := do
  if id = base then return false else s.isChildOf id base

/-- The type or one of its super types carries every listed flag. -/
def hasTypeFlag (s : Schema) (id : TypeId) (flags : List TypeFlag) : Except Fault Bool := do
  let visit (t : TypeId) : Except Fault (Option Unit) :=
    return if (← s.type t).flags.hasAll flags then some () else none
  return (← s.climb visit s.height (some id)).isSome

/-! ### Functions -/

/-- The first listed function with a given name. -/
def findAmong (s : Schema) (functions : List FunctionId) (name : String) :
    Except Fault (Option FunctionId) :=
  functions.findM? fun f => return (← s.function f).name == name

/-- The nearest function with a given name: own functions, then interfaces, then the super
type. -/
def findFunctionFrom (s : Schema) (name : String) :
    Nat → TypeId → Except Fault (Option FunctionId)
  | 0, _ => throw .endless
  | n + 1, id => do
    let t ← s.type id
    match ← s.findAmong t.functions name with
    | some f => return some f
    | none =>
      match ← t.interfaces.findSomeM? (findFunctionFrom s name n) with
      | some f => return some f
      | none =>
        match t.superType with
        | some parent => findFunctionFrom s name n parent
        | none => return none

/-- The nearest function with a given name: own functions, then interfaces, then the super
type. -/
def findFunction (s : Schema) (id : TypeId) (name : String) :
    Except Fault (Option FunctionId) :=
  s.findFunctionFrom name s.height id

/-- The declaration that `f` overrides: one of an interface of its owner, else that of the
nearest super type that has one, followed upwards. -/
def baseFunctionFrom (s : Schema) : Nat → FunctionId → Except Fault FunctionId
  | 0, _ => throw .endless
  | n + 1, f => do
    let decl ← s.function f
    let owner ← s.type decl.owner
    match ← owner.interfaces.findSomeM? (s.findFunction · decl.name) with
    | some found => return found
    | none =>
      match ← s.climb (s.findFunction · decl.name) s.height owner.superType with
      | some found => baseFunctionFrom s n found
      | none => return f

/-- The topmost declaration that `f` overrides, `f` itself if there is none. -/
def baseFunction (s : Schema) (f : FunctionId) : Except Fault FunctionId :=
  s.baseFunctionFrom s.height f

/-- The parameters of a function that are return values. -/
def returnFields (s : Schema) (f : FunctionId) : Except Fault (List FieldId) := do
  (← s.function f).params.filterM fun p => return (← s.field p).isReturn

/-- The return value of a function. -/
def returnField (s : Schema) (f : FunctionId) : Except Fault (Option FieldId) :=
  return (← s.returnFields f).head?

/-- The parameters of a function other than its return values. -/
def inputFields (s : Schema) (f : FunctionId) : Except Fault (List FieldDecl) := do
  let params ← (← s.function f).params.mapM s.field
  return params.filter (!·.isReturn)

/-! ### Enums and default values -/

/-- The name of an enum's value.  A value past the last entry has the name of that entry when
it ends in `_MAX`, and none otherwise. -/
def enumEntryName (s : Schema) (id : TypeId) (raw : Nat) : Except Fault (Option String) := do
  let entries := (← s.type id).enumEntries
  match entries[raw]? with
  | some entry => return some entry.name
  | none =>
    return (entries.getLast?.map (·.name)).filter fun name =>
      "_MAX".toList.isSuffixOf name.toList

/-- The default of a struct, given the default of its members' types. -/
def structDefaultWith (s : Schema) (defaultOf : ValueType → Except Fault Value) (id : TypeId) :
    Except Fault StructValue := do
  match (← s.type id).structDefaults with
  | some defaults => return defaults
  | none =>
    let members ← (← s.allFields id).mapM fun f => do defaultOf (← s.field f).type
    return ⟨id, members⟩

/-- The default of a declared type, with structs nested at most `n` deep. -/
def defaultValueFrom (s : Schema) : Nat → ValueType → Except Fault Value
  | 0, _ => throw .endless
  | n + 1, t =>
    if t.isArray then return .array []
    else match t.category with
    | .bool => return .bool false
    | .byte => return .byte 0
    | .int => return .int 0
    | .float => return .float ⟨0⟩
    | .name => return .name ""
    | .string => return .string ""
    | .text => return .text ""
    | .struct =>
      match t.subType with
      | some id => return (← s.structDefaultWith (defaultValueFrom s n) id).toValue
      | none => return .object none
    | .object | .interface => return .object none
    | .classRef => return .classRef none
    | .softObject => return .softObject none
    | .softClass => return .softClass none
    | .delegate | .multicastDelegate => return .delegate none

/-- The default of a declared type. -/
def defaultValue (s : Schema) (t : ValueType) : Except Fault Value :=
  s.defaultValueFrom (s.height + 1) t

/-- The default of a struct. -/
def structDefault (s : Schema) (id : TypeId) : Except Fault StructValue :=
  s.structDefaultWith s.defaultValue id

/-- What a new owner holds in a field; a static array repeats the default of its element. -/
def fieldDefault (s : Schema) (id : FieldId) : Except Fault Value := do
  let f ← s.field id
  let single ← s.defaultValue f.type
  return if f.arrayDim > 1 then .array (List.replicate f.arrayDim single) else single

end GraphLowering.Schema
