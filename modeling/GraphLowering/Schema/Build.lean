import GraphLowering.Schema.Basic

/-!
# Schema — building

Adding types, fields, functions and parameters.  An owner lists what it owns in the order of
addition.  `addCore` adds the engine's base classes and the structs with literals of their own.
-/

namespace GraphLowering.Schema

/-- Set the package of the types added from now on. -/
def setPackage (s : Schema) (package : String) : Schema := { s with package }

/-- Change one type. -/
def modifyType (s : Schema) (id : TypeId) (change : TypeDecl → TypeDecl) :
    Except Fault Schema := do
  let t ← s.type id
  return { s with types := s.types.setIfInBounds id.index (change t) }

/-- Change one field. -/
def modifyField (s : Schema) (id : FieldId) (change : FieldDecl → FieldDecl) :
    Except Fault Schema := do
  let f ← s.field id
  return { s with fields := s.fields.setIfInBounds id.index (change f) }

/-- Change one function. -/
def modifyFunction (s : Schema) (id : FunctionId) (change : FunctionDecl → FunctionDecl) :
    Except Fault Schema := do
  let f ← s.function id
  return { s with functions := s.functions.setIfInBounds id.index (change f) }

/-- Add a type as it is. -/
def addType (s : Schema) (t : TypeDecl) : TypeId × Schema :=
  let id : TypeId := ⟨s.types.size⟩
  (id, { s with types := s.types.push t, byName := (t.name, id) :: s.byName })

/-- Add a class authored as a graph. -/
def addClass (s : Schema) (name : String) (superType : Option TypeId) : TypeId × Schema :=
  s.addType
    { name, package := s.package, kind := .classType, superType, flags := .single .userDefined }

/-- Add an interface authored as a graph. -/
def addInterface (s : Schema) (name : String) : TypeId × Schema :=
  s.addType { name, package := s.package, kind := .interfaceType, flags := .single .userDefined }

/-- Add a struct authored as a graph. -/
def addStruct (s : Schema) (name : String) : TypeId × Schema :=
  s.addType { name, package := s.package, kind := .structType, flags := .single .userDefined }

/-- Add an enum authored as a graph. -/
def addEnum (s : Schema) (name : String) (entries : List String) : TypeId × Schema :=
  s.addType
    { name, package := s.package, kind := .enumType, flags := .single .userDefined
      enumEntries := entries.map fun e => { name := e } }

/-- Add a field to a type. -/
def addField (s : Schema) (owner : TypeId) (name : String) (type : ValueType) :
    Except Fault (FieldId × Schema) := do
  let id : FieldId := ⟨s.fields.size⟩
  let s := { s with fields := s.fields.push { owner := .type owner, name, type } }
  let s ← s.modifyType owner fun t => { t with fields := t.fields ++ [id] }
  return (id, s)

/-- Add a function to a type. -/
def addFunction (s : Schema) (owner : TypeId) (name : String) :
    Except Fault (FunctionId × Schema) := do
  let id : FunctionId := ⟨s.functions.size⟩
  let s := { s with functions := s.functions.push { owner, name } }
  let s ← s.modifyType owner fun t => { t with functions := t.functions ++ [id] }
  return (id, s)

/-- Add a parameter to a function. -/
def addParam (s : Schema) (owner : FunctionId) (name : String) (type : ValueType)
    (flags : Flags FieldFlag) : Except Fault (FieldId × Schema) := do
  let id : FieldId := ⟨s.fields.size⟩
  let decl : FieldDecl :=
    { owner := .function owner, name, type, flags := flags.insert .param }
  let s := { s with fields := s.fields.push decl }
  let s ← s.modifyFunction owner fun f => { f with params := f.params ++ [id] }
  return (id, s)

/-- Add a class implemented by hand. -/
def addNativeClass (s : Schema) (name : String) (superType : Option TypeId)
    (flags : List TypeFlag) : TypeId × Schema :=
  s.addType
    { name, package := s.package, kind := .classType, superType, flags := ⟨flags ++ [.native]⟩ }

/-- Add an engine struct with the given members. -/
def addWellKnown (s : Schema) (name : String) (kind : WellKnown)
    (members : List (String × ValueType)) : Except Fault (TypeId × Schema) := do
  let (id, s) := s.addType
    { name, package := s.package, kind := .structType, flags := .single .native
      wellKnown := some kind }
  let s ← members.foldlM (fun s m => return (← s.addField id m.1 m.2).2) s
  return (id, s)

/-- Members of one type each. -/
def membersOf (type : ValueType) (names : List String) : List (String × ValueType) :=
  names.map (·, type)

/-- A struct of single-precision numbers, given by their bit patterns. -/
def floatStruct (type : TypeId) (bits : List UInt32) : Value :=
  .struct type (bits.map fun b => .float ⟨b⟩)

/-- Add the engine's base classes and well-known structs. -/
def addCore (s : Schema) : Except Fault Schema := do
  let previous := s.package
  let s := s.setPackage "/Script/CoreUObject"
  let (object, s) := s.addNativeClass "Object" none []
  let (_, s) := s.addType
    { name := "Interface", package := s.package, kind := .interfaceType
      flags := .single .native }
  let (vector, s) ← s.addWellKnown "Vector" .vector (membersOf .float ["X", "Y", "Z"])
  let (_, s) ← s.addWellKnown "Vector2D" .vector2D (membersOf .float ["X", "Y"])
  let (_, s) ← s.addWellKnown "Rotator" .rotator (membersOf .float ["Pitch", "Yaw", "Roll"])
  let (quat, s) ← s.addWellKnown "Quat" .quat (membersOf .float ["X", "Y", "Z", "W"])
  let (_, s) ← s.addWellKnown "LinearColor" .linearColor (membersOf .float ["R", "G", "B", "A"])
  let (_, s) ← s.addWellKnown "Color" .color (membersOf .byte ["R", "G", "B", "A"])
  let (_, s) ← s.addWellKnown "Guid" .guid (membersOf .int ["A", "B", "C", "D"])
  let (transform, s) ← s.addWellKnown "Transform" .transform
    [("Rotation", .struct quat), ("Translation", .struct vector), ("Scale3D", .struct vector)]
  let one : UInt32 := 0x3F800000
  let identity : StructValue :=
    ⟨transform, [floatStruct quat [0, 0, 0, one], floatStruct vector [0, 0, 0],
      floatStruct vector [one, one, one]]⟩
  let s ← s.modifyType transform fun t => { t with structDefaults := some identity }
  let s := s.setPackage "/Script/Engine"
  let (_, s) := s.addNativeClass "Actor" (some object) [.actor]
  let (_, s) := s.addNativeClass "ActorComponent" (some object) [.component]
  let (latent, s) ← s.addWellKnown "LatentActionInfo" .latentActionInfo []
  let (linkage, s) ← s.addField latent "Linkage" .int
  let s ← s.modifyField linkage fun f => { f with flags := f.flags.insert .needsLatentFixup }
  let (_, s) ← s.addField latent "UUID" .int
  let (_, s) ← s.addField latent "ExecutionFunction" .name
  let (_, s) ← s.addField latent "CallbackTarget" (.object object)
  return s.setPackage previous

end GraphLowering.Schema
