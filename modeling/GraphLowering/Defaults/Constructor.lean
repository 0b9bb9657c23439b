import GraphLowering.Defaults.Emit

/-!
# Defaults — constructors

The constructor of a generated class.  Objects that the class owns are created once, with the
default object of exactly this class, and stored in the class.  Every instance binds them again by
their place in that storage, and then assigns its own defaults where they differ from those of
the parent's default object.
-/

namespace GraphLowering.Defaults

/-- An object stored in the class, bound again to its local. -/
structure Rebinding where
  object : ObjectId
  localName : String
  /-- The class as it is spelled. -/
  cls : String
  /-- The place in the storage of the class. -/
  slot : Nat
  deriving DecidableEq, Repr, Inhabited

def Rebinding.code (r : Rebinding) : Code :=
  .line ("auto " ++ r.localName ++ " = CastChecked<" ++ r.cls ++ ">(GetClass()->MiscObjects[" ++
    toString r.slot ++ "]);")

/-- The constructor of a generated class. -/
structure Constructor where
  /-- The class as it is spelled. -/
  cls : String
  /-- What runs once, for the default object of the class. -/
  stored : List Line
  rebindings : List Rebinding
  /-- The instance's own values; none when the class has no default object. -/
  assigned : Option (List Line)
  deriving Repr, Inhabited

namespace Constructor

/-- The statement that stores an object in the class. -/
def storeStatement : String := "GetClass()->MiscObjects.Add(\x7blocal\x7d);"

def code (c : Constructor) : List Code :=
  let once := .line ("if(HasAnyFlags(RF_ClassDefaultObject) && (" ++ c.cls ++
      "::StaticClass() == GetClass()))") ::
    Code.braces (.line "ensure(0 == GetClass()->MiscObjects.Num());" :: linesCode c.stored)
  let assigned := match c.assigned with
    | some lines => Code.blank :: linesCode lines
    | none => []
  .line (c.cls ++ "::" ++ c.cls ++
      "(const FObjectInitializer& ObjectInitializer) : Super(ObjectInitializer)") ::
    Code.braces (once ++ Code.braces (c.rebindings.map Rebinding.code ++ assigned))

end Constructor

/-- The lines that a step of emission gives. -/
def collectLines (step : Emit Unit) : Emit (List Line) := do
  modify fun s => { s with lines := [] }
  step
  return (← get).lines

/-- The names that a constructor starts with: the class as an owner, and its default object as
the instance. -/
def constructorNames (cx : Context) (unit : TypeDecl) (parentDefault : Option ObjectId) :
    LocalNames :=
  let names : LocalNames :=
    { generated := some ⟨cx.unit, "GetClass()", Constructor.storeStatement⟩ }
  match unit.defaultObject with
  | some o => names.bind o "this" parentDefault
  | none => names

/-- The default object of the parent class. -/
def parentDefault? (cx : Context) (unit : TypeDecl) : Except Fault (Option ObjectId) := do
  match unit.superType with
  | some parent => return (← cx.schema.type parent).defaultObject
  | none => return none

/-- The bindings of stored objects from place `slot` on. -/
def rebind (cx : Context) (names : LocalNames) :
    Nat → List ObjectId → Except Fault (List Rebinding)
  | _, [] => return []
  | slot, object :: rest => do
    let cls ← cx.schema.cppName (← cx.objects.object object).cls
    let binding := ⟨object, (names.find? object).getD "", cls, slot⟩
    return binding :: (← rebind cx names (slot + 1) rest)

/-- What a field of an instance starts with; an own field of the class starts with nothing. -/
def inheritedValue (cx : Context) (parentDefault : Option ObjectId) (field : FieldId) :
    Except Fault (Option Value) := do
  if (← cx.schema.field field).owner = .type cx.unit then return none
  else return some (← startValue cx parentDefault field)

/-- Assign the values of the default object. -/
def emitInstanceValues (cx : Context) (defaultObject : ObjectId)
    (parentDefault : Option ObjectId) : Emit Unit := do
  (← cx.schema.allFields cx.unit).forM fun field => do
    let v ← cx.fieldValue defaultObject field
    let base ← inheritedValue cx parentDefault field
    emitField cx (emitSubobject cx) true field v base ⟨some (.given defaultObject), "", []⟩

/-- The constructor of the unit's class. -/
def emitConstructor (cx : Context) : Emit Constructor := do
  let unit ← cx.schema.type cx.unit
  let cls ← cx.unitCppName
  let parentDefault ← parentDefault? cx unit
  modify fun s => { s with names := constructorNames cx unit parentDefault }
  let stored ← collectLines (unit.ownedObjects.forM fun o => discard (emitSubobject cx o))
  let names := (← get).names
  let rebindings ← rebind cx names 0 names.registered
  let assigned ← match unit.defaultObject with
    | some o => some <$> collectLines (emitInstanceValues cx o parentDefault)
    | none => pure none
  return ⟨cls, stored, rebindings, assigned⟩

/-- The code of the constructor of the unit's class, and the sink after it. -/
def constructorCode (cx : Context) (sink : Sink) : Except Fault (List Code × Sink) :=
  match (emitConstructor cx).run { sink } with
  | (.ok constructor, s) => .ok (constructor.code, s.sink)
  | (.error fault, _) => .error fault

end GraphLowering.Defaults
