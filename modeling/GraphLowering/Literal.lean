import GraphLowering.Context
import GraphLowering.Diagnostic
import GraphLowering.Text.Quoted

/-!
# Literals

The source text of a value at its declared type.  A value that does not fit its type, or a
struct other than an engine struct whose members differ from its default, has no literal form;
its type's default then stands in (`defaultText`).
-/

namespace GraphLowering.Literal

/-- Rendering can fail because a value has no literal form, or because of a fault. -/
abbrev Render := ExceptT Problem (Except Fault)

/-- The value has no literal form at its type. -/
def unrenderable {α : Type} (cx : Context) (t : ValueType) : Render α := do
  throw (.unrenderableLiteral (← cx.schema.cppType t))

/-- A text as a string literal of the engine. -/
def engineText (s : String) : String := "TEXT(" ++ Text.quote s ++ ")"

/-- A 32-bit word in hexadecimal. -/
def hexWord (n : Int32) : String := "0x" ++ String.ofList (Text.hexDigits 8 n.toUInt32.toNat)

/-- The members of a struct of `n` single-precision numbers. -/
def floats? (n : Nat) (members : List Value) : Option (List Binary32) :=
  if members.length = n then
    members.mapM fun
      | .float f => some f
      | _ => none
  else none

/-- A constructor applied to `n` single-precision numbers. -/
def floatsText? (constructor : String) (n : Nat) (members : List Value) : Option String :=
  (floats? n members).map fun fs =>
    constructor ++ "(" ++ ",".intercalate (fs.map Binary32.literal) ++ ")"

/-- The literal of an engine struct, if its members have the right form. -/
def wellKnownText? (kind : WellKnown) (members : List Value) : Option String :=
  match kind with
  | .vector => floatsText? "FVector" 3 members
  | .vector2D => floatsText? "FVector2D" 2 members
  | .rotator => floatsText? "FRotator" 3 members
  | .quat => floatsText? "FQuat" 4 members
  | .linearColor => floatsText? "FLinearColor" 4 members
  | .transform =>
    match members with
    | [.struct _ rotation, .struct _ position, .struct _ scale] => do
      let rotation ← floatsText? "FQuat" 4 rotation
      let position ← floatsText? "FVector" 3 position
      let scale ← floatsText? "FVector" 3 scale
      return "FTransform( " ++ rotation ++ ", " ++ position ++ ", " ++ scale ++ " )"
    | _ => none
  | .color =>
    match members with
    | [.byte r, .byte g, .byte b, .byte a] =>
      some ("FColor(" ++ ",".intercalate ([r, g, b, a].map fun c => toString c.toNat) ++ ")")
    | _ => none
  | .guid =>
    match members with
    | [.int a, .int b, .int c, .int d] =>
      some ("FGuid(" ++ ", ".intercalate ([a, b, c, d].map hexWord) ++ ")")
    | _ => none
  | .latentActionInfo =>
    match members with
    | [.int linkage, .int uuid, .name function, _] =>
      some ("FLatentActionInfo(" ++ toString linkage.toInt ++ ", " ++ toString uuid.toInt ++
        ", " ++ engineText function ++ ", this)")
    | _ => none

/-- The literal of a struct: an engine struct by its members, any other only when it is its own
default. -/
def renderStruct (cx : Context) (v : StructValue) : Render String := do
  let decl ← cx.schema.type v.type
  match decl.wellKnown with
  | some kind =>
    match wellKnownText? kind v.members with
    | some text => return text
    | none => unrenderable cx (.struct v.type)
  | none =>
    if v.identical (← cx.schema.structDefault v.type) then
      let name ← cx.schema.cppName v.type
      return if decl.flags.has .userDefined then name ++ "::GetDefaultValue()"
        else name ++ "\x7b\x7d"
    else unrenderable cx (.struct v.type)

/-- The path of a type: `Package.Name`. -/
def classPath (cx : Context) (id : TypeId) : Except Fault String := do
  let t ← cx.schema.type id
  return t.package ++ "." ++ t.name

/-- The literal of a byte, which names the entry of an enum. -/
def renderByte (cx : Context) (t : ValueType) (n : UInt8) : Render String := do
  match t.subType with
  | none => return toString n.toNat
  | some enum =>
    if (← cx.schema.type enum).kind = .enumType then
      match ← cx.schema.enumEntryName enum n.toNat with
      | some entry => return (← cx.schema.cppName enum) ++ "::" ++ entry
      | none => unrenderable cx t
    else return toString n.toNat

/-- A reference to an asset that is not loaded. -/
def assetReference (path : String) : String :=
  "FStringAssetReference(" ++ engineText path ++ ")"

/-- The literal of a value at a type that is no array. -/
def renderElement (cx : Context) (t : ValueType) (v : Value) : Render String := do
  match t.category, v with
  | .bool, .bool b => return if b then "true" else "false"
  | .int, .int n => return toString n.toInt
  | .float, .float f => return f.literal
  | .byte, .byte n => renderByte cx t n
  | .string, .string s => return engineText s
  | .text, .text s => return "FText::FromString(" ++ engineText s ++ ")"
  | .name, .name s =>
    return if s = "" ∨ s = "None" then "FName()" else "FName(" ++ engineText s ++ ")"
  | .struct, .struct type members => renderStruct cx ⟨type, members⟩
  | .classRef, .classRef none => return "nullptr"
  | .classRef, .classRef (some c) => return (← cx.schema.cppName c) ++ "::StaticClass()"
  | .object, .object none => return "nullptr"
  | .object, .object (some o) =>
    let cls ← cx.schema.cppName (← cx.objects.object o).cls
    return "LoadObject<" ++ cls ++ ">(nullptr, " ++ engineText (← cx.pathName o) ++ ")"
  | .interface, .object none => return "nullptr"
  | .softObject, .softObject none => return "nullptr"
  | .softObject, .softObject (some o) => return assetReference (← cx.pathName o)
  | .softClass, .softClass none => return "nullptr"
  | .softClass, .softClass (some c) => return assetReference (← classPath cx c)
  | _, _ => unrenderable cx t

/-- The literal of a value at its declared type. -/
def render (cx : Context) (t : ValueType) (v : Value) : Render String := do
  if t.isSelf then return "this"
  else if t.isArray then
    match v with
    | .array [] => return (← cx.schema.cppType t) ++ "()"
    | .array items =>
      let texts ← items.mapM (renderElement cx t.element)
      return (← cx.schema.cppType t) ++ "\x7b" ++ ", ".intercalate texts ++ "\x7d"
    | _ => unrenderable cx t
  else renderElement cx t v

/-- The literal of a type's default; when it has none, the type's own constructor. -/
def defaultText (cx : Context) (t : ValueType) : Except Fault String := do
  if t.isSelf then return "this"
  else
    let v ← cx.schema.defaultValue t
    match ← (render cx t v).run with
    | .ok text => return text
    | .error _ => return (← cx.schema.cppType t) ++ "()"

end GraphLowering.Literal
