import GraphLowering.Schema.Query

/-!
# Schema — spelling

How types are spelled in the generated source.
-/

namespace GraphLowering.Schema

/-- A type's name in generated source: an enum stands as it is, a struct takes `F`, an interface
`U`, a class `A` when it is an actor and `U` otherwise. -/
def cppName (s : Schema) (id : TypeId) : Except Fault String := do
  let t ← s.type id
  match t.kind with
  | .enumType => return t.name
  | .structType => return "F" ++ t.name
  | .interfaceType => return "U" ++ t.name
  | .classType => return (if ← s.hasTypeFlag id [.actor] then "A" else "U") ++ t.name

/-- The native side of an interface. -/
def interfaceCppName (s : Schema) (id : TypeId) : Except Fault String :=
  return "I" ++ (← s.typeName id)

/-- The spelling of an optional type. -/
def cppNameOr (s : Schema) (fallback : String) : Option TypeId → Except Fault String
  | some id => s.cppName id
  | none => return fallback

/-- The type that declares a delegate's signature. -/
def delegateTypeName (s : Schema) (t : ValueType) : Except Fault String :=
  match t.signature with
  | some f => return "F" ++ (← s.functionName f)
  | none =>
    return if t.category = .multicastDelegate then "FMulticastScriptDelegate"
      else "FScriptDelegate"

/-- The spelling of a type that is no array. -/
def cppElementType (s : Schema) (t : ValueType) : Except Fault String := do
  match t.category with
  | .bool => return "bool"
  | .byte =>
    match t.subType with
    | some id => if (← s.type id).kind = .enumType then s.cppName id else return "uint8"
    | none => return "uint8"
  | .int => return "int32"
  | .float => return "float"
  | .name => return "FName"
  | .string => return "FString"
  | .text => return "FText"
  | .struct => s.cppNameOr "FStruct" t.subType
  | .object => return (← s.cppNameOr "UObject" t.subType) ++ "*"
  | .classRef => return "TSubclassOf<" ++ (← s.cppNameOr "UObject" t.subType) ++ ">"
  | .interface =>
    match t.subType with
    | some id => return "TScriptInterface<" ++ (← s.interfaceCppName id) ++ ">"
    | none => return "FScriptInterface"
  | .softObject => return "TAssetPtr<" ++ (← s.cppNameOr "UObject" t.subType) ++ ">"
  | .softClass => return "TAssetSubclassOf<" ++ (← s.cppNameOr "UObject" t.subType) ++ ">"
  | .delegate | .multicastDelegate => s.delegateTypeName t

/-- The spelling of a declared type. -/
def cppType (s : Schema) (t : ValueType) : Except Fault String := do
  let element ← s.cppElementType t
  return if t.isArray then "TArray<" ++ element ++ ">" else element

end GraphLowering.Schema
