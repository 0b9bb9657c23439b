import GraphLowering.Defaults.Line
import GraphLowering.Defaults.LocalNames

/-!
# Defaults — emission

The lines that make a new object hold the values of a live one: every field that differs from the
archetype is assigned, member by member where a struct has no literal form, and a sub-object whose
owner is at hand is created again and bound to a local.

Emission of one object may set off the emission of others.  Each of them is new to the names, so
the nesting is bounded by the number of live objects; the nesting of struct members is bounded by
the depth of the value.
-/

namespace GraphLowering.Defaults

/-- What emission changes. -/
structure State where
  names : LocalNames := {}
  /-- The lines emitted so far. -/
  lines : List Line := []
  sink : Sink := {}
  deriving Repr, Inhabited

/-- A step of emission.  What was done before a fault stays. -/
abbrev Emit := ExceptT Fault (StateM State)

def report (p : Problem) : Emit Unit := modify fun s => { s with sink := s.sink.report p }

def emit (l : Line) : Emit Unit := modify fun s => { s with lines := s.lines ++ [l] }

/-- The expression of an object at hand. -/
def find? (object : ObjectId) : Emit (Option String) := return (← get).names.find? object

/-- Creates an object again, if its owner is at hand, and gives its local. -/
abbrev Spawn := ObjectId → Emit (Option String)

/-! ### Values -/

/-- How a value is written on one line. -/
inductive OneLine
  /-- The source is the whole value. -/
  | complete (source : Source)
  /-- The source is the default of a struct, and the members follow. -/
  | incomplete (source : Source)
  /-- Nothing can be written; this was reported. -/
  | skip
  deriving Repr, Inhabited

/-- The object that a value of this type refers to, when it is at hand or can be created. -/
def objectSource? (spawn : Spawn) (t : ValueType) (v : Value) : Emit (Option Source) := do
  if t.category = .object then
    match v.asObject with
    | none => return none
    | some object =>
      match ← find? object with
      | some name => return some (.object object name)
      | none =>
        match ← spawn object with
        | some name => return some (.object object name)
        | none => return none
  else return none

/-- Write a value on one line, if that can be done. -/
def oneLine (cx : Context) (spawn : Spawn) (t : ValueType) (v : Value) : Emit OneLine := do
  match ← objectSource? spawn t v with
  | some source => return .complete source
  | none =>
    match ← (Literal.render cx t v).run with
    | .ok text => return .complete (.literal t v text)
    | .error problem =>
      if t.category = .struct then
        return .incomplete (.structDefault t (← Literal.defaultText cx t))
      else
        report problem
        return .skip

/-- Assigns one field: the field, its value, the value it starts with, and the place that holds
the field. -/
abbrev FieldEmitter := FieldId → Value → Option Value → Place → Emit Unit

/-- Assign the members of a struct that differ from a base, from the listed fields on. -/
def emitMembers (emitMember : FieldEmitter) (place : Place) :
    List FieldId → List Value → List Value → Emit Unit
  | field :: fields, member :: members, base => do
    emitMember field member base.head? place
    emitMembers emitMember place fields members base.tail
  | _, _, _ => return ()

/-- Assign the members of a struct that differ from a base. -/
def emitStructMembers (cx : Context) (emitMember : FieldEmitter) (v base : StructValue)
    (place : Place) : Emit Unit := do
  let fields ← cx.schema.allFields v.type
  emitMembers emitMember place fields v.members base.members

/-- Append the items of an array from number `i` on. -/
def emitItems (cx : Context) (spawn : Spawn) (emitMember : FieldEmitter) (t : ValueType)
    (place : Place) : Nat → List Value → Emit Unit
  | _, [] => return ()
  | i, item :: rest => do
    match ← oneLine cx spawn t item with
    | .complete source => emit (.append place source)
    | .incomplete source =>
      emit (.append place source)
      match item with
      | .struct type members =>
        let default ← cx.schema.structDefault type
        emitStructMembers cx emitMember ⟨type, members⟩ default (place.element i)
      | _ => pure ()
    | .skip => pure ()
    emitItems cx spawn emitMember t place (i + 1) rest

/-- The value is an array with items. -/
def hasItems : Option Value → Bool
  | some (.array (_ :: _)) => true
  | _ => false

/-- Fill an array anew. -/
def emitArray (cx : Context) (spawn : Spawn) (emitMember : FieldEmitter) (t : ValueType)
    (v : Value) (base : Option Value) (place : Place) : Emit Unit := do
  match v with
  | .array items =>
    if hasItems base then emit (.clear place)
    if !items.isEmpty then
      emit (.reserve place items.length)
      emitItems cx spawn emitMember t.element place 0 items
  | _ => return ()

/-- Assign a struct that has no literal form, member by member: onto the base when there is one,
else onto its default. -/
def emitIncomplete (cx : Context) (emitMember : FieldEmitter) (source : Source) (v : Value)
    (base : Option Value) (place : Place) : Emit Unit := do
  match v with
  | .struct type members =>
    match base with
    | some (.struct baseType baseMembers) =>
      emitStructMembers cx emitMember ⟨type, members⟩ ⟨baseType, baseMembers⟩ place
    | _ =>
      emit (.assign place source)
      let default ← cx.schema.structDefault type
      emitStructMembers cx emitMember ⟨type, members⟩ default place
  | _ => return ()

/-- Make a place hold a value. -/
def emitValue (cx : Context) (spawn : Spawn) (emitMember : FieldEmitter) (t : ValueType)
    (v : Value) (base : Option Value) (place : Place) : Emit Unit := do
  if t.isArray then emitArray cx spawn emitMember t v base place
  else
    match ← oneLine cx spawn t v with
    | .complete source => emit (.assign place source)
    | .incomplete source => emitIncomplete cx emitMember source v base place
    | .skip => return ()

/-! ### Fields -/

/-- A value to be stored in a field or in one element of a static array. -/
structure Pending where
  /-- The element of a static array. -/
  index : Option Nat
  value : Value
  base : Option Value
  deriving Repr, Inhabited

namespace Pending

/-- The value differs from what the place starts with, or must be created again anyway. -/
def isDue (f : FieldDecl) (p : Pending) : Bool :=
  let recreated := f.flags.has .instanced && p.value.asObject.isSome
  let unchanged := match p.base with
    | some base => p.value.identical base
    | none => false
  !unchanged || recreated

end Pending

/-- The values that a field, or each element of a static array, is to hold. -/
def candidates (f : FieldDecl) (v : Value) (base : Option Value) : List Pending :=
  if f.arrayDim > 1 then
    (List.range f.arrayDim).filterMap fun i =>
      (v.staticElement i).map fun element => ⟨some i, element, base.bind (·.staticElement i)⟩
  else [⟨none, v, base⟩]

/-- Generated code may not write the field. -/
def isInaccessible (f : FieldDecl) (allowProtected : Bool) : Bool :=
  f.flags.has .isPrivate || (!allowProtected && f.flags.has .isProtected)

/-- The part of a field that a pending value goes to. -/
def Pending.place (p : Pending) (field : Place) : Place :=
  match p.index with
  | some i => field.element i
  | none => field

/-- Assign what is due in one field, given how to assign the members of a struct. -/
def emitFieldWith (cx : Context) (spawn : Spawn) (emitMember : FieldEmitter)
    (allowProtected : Bool) : FieldEmitter := fun field v base place => do
  let f ← cx.schema.field field
  if f.flags.hasAny [.editorOnly, .transient] then return ()
  else
    let due := (candidates f v base).filter (Pending.isDue f)
    if due.isEmpty then return ()
    else if isInaccessible f allowProtected then report (.inaccessibleField f.name)
    else
      let place := place.member field f.name
      due.forM fun p => emitValue cx spawn emitMember f.type p.value p.base (p.place place)

/-- Assign the members of structs nested at most `n` deep. -/
def emitMemberFrom (cx : Context) (spawn : Spawn) : Nat → FieldEmitter
  | 0 => fun _ _ _ _ => throw .endless
  | n + 1 => emitFieldWith cx spawn (emitMemberFrom cx spawn n) false

/-- Assign what is due in one field. -/
def emitField (cx : Context) (spawn : Spawn) (allowProtected : Bool) : FieldEmitter :=
  fun field v base place =>
    emitFieldWith cx spawn (emitMemberFrom cx spawn v.depth) allowProtected field v base place

/-! ### Objects -/

/-- What a field of a new object starts with: the value of the archetype, else the default of the
field. -/
def startValue (cx : Context) (archetype : Option ObjectId) (field : FieldId) :
    Except Fault Value :=
  match archetype with
  | some a => cx.fieldValue a field
  | none => cx.schema.fieldDefault field

/-- Assign every field of an object that differs from the archetype, below a place that stands for
the object. -/
def emitObjectWith (cx : Context) (spawn : Spawn) (object : ObjectId)
    (archetype : Option ObjectId) (place : Place) (allowProtected : Bool) : Emit Unit := do
  let cls := (← cx.objects.object object).cls
  (← cx.schema.allFields cls).forM fun field => do
    let v ← cx.fieldValue object field
    let base ← startValue cx archetype field
    emitField cx spawn allowProtected field v (some base) place

/-- The archetype of a sub-object: its counterpart under the archetype of its owner, else the
default object of its class. -/
def archetypeFor (cx : Context) (names : LocalNames) (o : ObjectRecord) :
    Except Fault (Option ObjectId) := do
  let counterpart := match o.outer with
    | .object owner =>
      (names.archetypeOf? owner).bind fun base => cx.objects.findSubobject? base o.name o.cls
    | .type _ | .package _ => none
  let cls ← cx.schema.type o.cls
  return counterpart <|> cls.defaultObject

/-- Give an object a fresh local. -/
def addNew (object : ObjectId) (archetype : Option ObjectId) : Emit String := do
  let s ← get
  let (name, names) := s.names.addNew object archetype
  set { s with names }
  return name

/-- Create an object again under an owner at hand, given how to create those it refers to. -/
def recreate (cx : Context) (spawn : Spawn) (object : ObjectId) (o : ObjectRecord)
    (owner : LocalNames.Owner) : Emit String := do
  let archetype ← archetypeFor cx (← get).names o
  let localName ← addNew object archetype
  let cls ← cx.schema.cppName o.cls
  emit (.create ⟨object, archetype, localName, cls, owner.expression, o.name⟩)
  match owner.afterCreate with
  | some afterCreate =>
    emit (.register object localName afterCreate)
    modify fun s => { s with names := s.names.register object }
  | none => pure ()
  emitObjectWith cx spawn object archetype ⟨some (.created object), localName ++ "->", []⟩ false
  return localName

/-- Create objects again, each setting off at most `n` others in a chain. -/
def spawnFrom (cx : Context) : Nat → Spawn
  | 0 => fun _ => throw .endless
  | n + 1 => fun object => do
    let o ← cx.objects.object object
    match (← get).names.owner? o.outer with
    | none => return none
    | some owner => return some (← recreate cx (spawnFrom cx n) object o owner)

/-- Create an object again, if its owner is at hand, and give its local. -/
def emitSubobject (cx : Context) : Spawn := spawnFrom cx cx.objects.height

/-- Assign every field of an object that differs from the archetype, or from the field's default
when there is no archetype. -/
def emitObject (cx : Context) (object : ObjectId) (archetype : Option ObjectId) (root : String)
    (allowProtected : Bool) : Emit Unit :=
  emitObjectWith cx (emitSubobject cx) object archetype ⟨some (.given object), root, []⟩
    allowProtected

/-- The code of the lines. -/
def linesCode (lines : List Line) : List Code := lines.map Line.code

end GraphLowering.Defaults
