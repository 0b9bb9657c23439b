import GraphLowering.Context
import GraphLowering.Graph.Basic

/-!
# Dependencies

What the code of a unit names.  The surface of the declaration (super type, interfaces, types of
fields and parameters) is included from the header; what only bodies and defaults reach is
included from the implementation.  Both lists stand in the order of stable names.  Engine structs
are never listed, nor is the unit itself.
-/

namespace GraphLowering

/-- Something that generated code names. -/
inductive Dependency
  | type (id : TypeId)
  /-- An asset that is loaded by its path. -/
  | object (id : ObjectId)
  deriving DecidableEq, Repr, Inhabited

namespace Dependency

/-- The name with its package, by which dependencies are ordered. -/
def stableName (cx : Context) : Dependency → Except Fault String
  | type id => do
    let t ← cx.schema.type id
    return t.package ++ "." ++ t.name
  | object id => cx.pathName id

end Dependency

/-- The dependencies of a unit, each list in the order of stable names. -/
structure Dependencies where
  header : List Dependency := []
  implementation : List Dependency := []
  deriving DecidableEq, Repr, Inhabited

namespace Dependencies

/-- The include lines of the types in a list. -/
def includes (cx : Context) : List Dependency → Except Fault (List String)
  | [] => return []
  | .object _ :: rest => includes cx rest
  | .type id :: rest => do
    let line := "#include \"" ++ (← cx.schema.typeName id) ++ ".h\""
    return line :: (← includes cx rest)

def headerIncludes (d : Dependencies) (cx : Context) : Except Fault (List String) :=
  includes cx d.header

def implementationIncludes (d : Dependencies) (cx : Context) : Except Fault (List String) :=
  includes cx d.implementation

end Dependencies

/-- What a walk has found, and where it has been. -/
structure Collector where
  /-- Dependencies under their stable names, in the order of names. -/
  found : List (String × Dependency) := []
  types : List TypeId := []
  signatures : List FunctionId := []
  objects : List ObjectId := []
  deriving DecidableEq, Repr, Inhabited

namespace Collector

/-- A step of a walk. -/
abbrev Collect := StateT Collector (Except Fault)

/-- Put an entry under its name in a list in the order of names; a name in use keeps its entry. -/
def insertSorted (name : String) (dep : Dependency) :
    List (String × Dependency) → List (String × Dependency)
  | [] => [(name, dep)]
  | (n, d) :: rest =>
    if name = n then (n, d) :: rest
    else if name < n then (name, dep) :: (n, d) :: rest
    else (n, d) :: insertSorted name dep rest

/-- Record a dependency under its stable name. -/
def record (cx : Context) (dep : Dependency) : Collect Unit := do
  let name ← dep.stableName cx
  modify fun c => { c with found := insertSorted name dep c.found }

/-- Record a type, unless it is an engine struct or was seen before. -/
def addType (cx : Context) (id : TypeId) : Collect Unit := do
  let t ← cx.schema.type id
  if t.wellKnown.isSome || (← get).types.contains id then return ()
  else
    modify fun c => { c with types := id :: c.types }
    record cx (.type id)

/-! ### Declared types -/

/-- Record what a declared type names, given how to follow a signature. -/
def addValueTypeWith (cx : Context) (follow : FunctionId → Collect Unit) (t : ValueType) :
    Collect Unit := do
  if t.isSelf then return ()
  else
    match t.subType with
    | some sub => addType cx sub
    | none => pure ()
    match t.signature with
    | some f => follow f
    | none => pure ()

/-- Record the parameter types of a function, following at most `n` signatures in a chain. -/
def addSignatureFrom (cx : Context) : Nat → FunctionId → Collect Unit
  | 0, f => do
    if (← get).signatures.contains f then return () else throw .endless
  | n + 1, f => do
    if (← get).signatures.contains f then return ()
    else
      modify fun c => { c with signatures := f :: c.signatures }
      (← cx.schema.function f).params.forM fun p => do
        addValueTypeWith cx (addSignatureFrom cx n) (← cx.schema.field p).type

/-- Record the parameter types of a function or delegate signature. -/
def addSignature (cx : Context) (f : FunctionId) : Collect Unit :=
  addSignatureFrom cx (cx.schema.functions.size + 1) f

/-- Record what a declared type names. -/
def addValueType (cx : Context) (t : ValueType) : Collect Unit :=
  addValueTypeWith cx (addSignature cx) t

/-! ### Values -/

mutual

/-- Record what a value names, given how to visit an object. -/
def addValueWith (cx : Context) (visit : ObjectId → Collect Unit) : Value → Collect Unit
  | .object (some o) => visit o
  | .softObject (some o) => visit o
  | .delegate (some (o, _)) => visit o
  | .classRef (some t) => addType cx t
  | .softClass (some t) => addType cx t
  | .struct t members => do
    addType cx t
    addValuesWith cx visit members
  | .array items => addValuesWith cx visit items
  | _ => return ()

/-- Record what each of the values names. -/
def addValuesWith (cx : Context) (visit : ObjectId → Collect Unit) : List Value → Collect Unit
  | [] => return ()
  | v :: vs => do
    addValueWith cx visit v
    addValuesWith cx visit vs

end

/-- The chain of owners that starts at `outer` leads to the unit or its default object within `n`
objects. -/
def isOwnedFrom (cx : Context) (defaultObject : Option ObjectId) :
    Nat → Outer → Except Fault Bool
  | _, .type t => return t = cx.unit
  | _, .package _ => return false
  | 0, .object _ => throw .endless
  | n + 1, .object o =>
    if some o = defaultObject then return true
    else do isOwnedFrom cx defaultObject n (← cx.objects.object o).outer

/-- The chain of owners of an object leads to the unit or its default object. -/
def isOwnedByUnit (cx : Context) (o : ObjectRecord) : Except Fault Bool := do
  let unit ← cx.schema.type cx.unit
  isOwnedFrom cx unit.defaultObject cx.objects.height o.outer

/-- Record what the values of an object name, given how to visit an object. -/
def addObjectValuesWith (cx : Context) (visit : ObjectId → Collect Unit) (id : ObjectId) :
    Collect Unit := do
  modify fun c => { c with objects := id :: c.objects }
  addValuesWith cx visit ((← cx.objects.object id).values.map (·.2))

/-- Visit an object, following at most `n` objects in a chain.  An object of the unit is created
again in code, so its values matter; any other is an asset loaded by its path. -/
def addObjectFrom (cx : Context) : Nat → ObjectId → Collect Unit
  | 0, id => do
    if (← get).objects.contains id then return () else throw .endless
  | n + 1, id => do
    if (← get).objects.contains id then return ()
    else
      modify fun c => { c with objects := id :: c.objects }
      let o ← cx.objects.object id
      addType cx o.cls
      if ← isOwnedByUnit cx o then addObjectValuesWith cx (addObjectFrom cx n) id
      else record cx (.object id)

/-- Visit an object. -/
def addObject (cx : Context) (id : ObjectId) : Collect Unit :=
  addObjectFrom cx cx.objects.height id

/-- Record what a value names. -/
def addValue (cx : Context) (v : Value) : Collect Unit := addValueWith cx (addObject cx) v

/-- Record what the values of an object name. -/
def addObjectValues (cx : Context) (id : ObjectId) : Collect Unit :=
  addObjectValuesWith cx (addObject cx) id

/-- What was found, without the listed dependencies. -/
def finish (c : Collector) (exclude : List Dependency) : List Dependency :=
  (c.found.map (·.2)).filter (!exclude.contains ·)

end Collector

/-! ### Units -/

open Collector

/-- Record the surface of a declaration. -/
def addSurface (cx : Context) (unit : TypeDecl) : Collect Unit := do
  unit.superType.toList.forM (addType cx)
  unit.interfaces.forM (addType cx)
  unit.fields.forM fun f => do addValueType cx (← cx.schema.field f).type
  unit.functions.forM (addSignature cx)

/-- Record a term's type, and its value when it is a literal. -/
def addTerm (cx : Context) (t : Term) : Collect Unit := do
  addValueType cx t.type
  match t.kind with
  | .literal v => addValue cx v
  | _ => return ()

/-- Record what the body of a function names. -/
def addGraph (cx : Context) (g : FunctionGraph) : Collect Unit := do
  g.locals.forM fun l => addValueType cx l.type
  g.terms.toList.forM (addTerm cx)
  g.statements.toList.forM fun s =>
    s.function.toList.forM fun f => do addType cx (← cx.schema.function f).owner

/-- Record what bodies and defaults name. -/
def addBodies (cx : Context) (u : ScriptUnit) (unit : TypeDecl) : Collect Unit := do
  u.functions.forM (addGraph cx)
  unit.defaultObject.toList.forM (addObjectValues cx)
  unit.ownedObjects.forM (addObjectValues cx)
  unit.structDefaults.toList.forM fun d => d.members.forM (addValue cx)

/-- The dependencies of a unit. -/
def gather (cx : Context) (u : ScriptUnit) : Except Fault Dependencies := do
  let unit ← cx.schema.type u.type
  let ((), surface) ← (addSurface cx unit).run {}
  let ((), bodies) ← (addBodies cx u unit).run {}
  let header := surface.finish [.type u.type]
  return ⟨header, bodies.finish (.type u.type :: header)⟩

end GraphLowering
