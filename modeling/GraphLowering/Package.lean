import GraphLowering.Options
import GraphLowering.Unit

/-!
# Packages

Compiling the units of a package, each with a sink of its own.  A unit with errors is still
returned with its output; the run fails only when more errors were reported than the limit
allows, or, if that is asked for, at the first fatal diagnostic.
-/

namespace GraphLowering

/-- What one run reads. -/
structure Package where
  schema : Schema
  objects : ObjectStore
  units : List ScriptUnit
  deriving Repr, Inhabited

/-- A unit's output with what was reported for it. -/
structure CompiledUnit where
  output : UnitOutput
  diagnostics : List Diagnostic
  deriving Repr, Inhabited

namespace CompiledUnit

def errorCount (u : CompiledUnit) : Nat := u.diagnostics.countP (·.isError)

def hasFatal (u : CompiledUnit) : Bool := u.diagnostics.any (·.isFatal)

/-- The names and contents of the unit's files. -/
def files (u : CompiledUnit) : List (String × String) :=
  (u.output.name ++ ".h", u.output.declaration) ::
    u.output.implementation.toList.map (u.output.name ++ ".cpp", ·)

end CompiledUnit

/-- The results of a run, in the order of the package's units. -/
structure CompiledPackage where
  units : List CompiledUnit
  deriving Repr, Inhabited

namespace CompiledPackage

def errorCount (p : CompiledPackage) : Nat := p.units.foldr (fun u n => u.errorCount + n) 0

def hasFatal (p : CompiledPackage) : Bool := p.units.any (·.hasFatal)

def diagnostics (p : CompiledPackage) : List Diagnostic := p.units.flatMap (·.diagnostics)

/-- The first unit with a given name. -/
def unit? (p : CompiledPackage) (name : String) : Option CompiledUnit :=
  p.units.find? (·.output.name = name)

/-- The place of the first unit with a given name. -/
def unitIndex? (p : CompiledPackage) (name : String) : Option Nat :=
  p.units.findIdx? (·.output.name = name)

def files (p : CompiledPackage) : List (String × String) := p.units.flatMap (·.files)

end CompiledPackage

/-- Why a run failed. -/
inductive CompileError
  | unknownUnit (name : String)
  | errorLimitReached (limit errors : Nat)
  | fatal (unit message : String)
  | fault (fault : Fault)
  deriving DecidableEq, Repr, Inhabited

namespace CompileError

/-- The message of a failure; a fault has none. -/
def message? : CompileError → Option String
  | unknownUnit name => some s!"unknown unit `{name}`"
  | errorLimitReached limit errors =>
    some s!"error limit reached: {errors} errors (limit {limit})"
  | fatal unit message => some s!"unit `{unit}` has a fatal error: {message}"
  | fault _ => none

end CompileError

namespace Package

/-- A result of the emitters, as a result of the run. -/
def orFault {α : Type} : Except Fault α → Except CompileError α
  | .ok a => .ok a
  | .error f => .error (.fault f)

/-- The name of a unit's type. -/
def unitName (p : Package) (u : ScriptUnit) : Except CompileError String :=
  orFault (p.schema.typeName u.type)

/-- Compile a unit with a sink of its own. -/
def compileScript (p : Package) (options : CompileOptions) (u : ScriptUnit) :
    Except CompileError CompiledUnit := do
  let name ← p.unitName u
  let (source, sink) ← orFault (u.emit options.comments ⟨p.schema, p.objects, u.type⟩ {})
  let output := source.render options.indent
  match sink.diagnostics.find? (·.isFatal) with
  | some d =>
    if options.failOnFatal then throw (.fatal name d.message)
    else return ⟨output, sink.diagnostics⟩
  | none => return ⟨output, sink.diagnostics⟩

/-- The running number of errors is past the limit. -/
def checkLimit (options : CompileOptions) (errors : Nat) : Except CompileError Unit :=
  match options.errorLimit with
  | some limit => if errors > limit then throw (.errorLimitReached limit errors) else return ()
  | none => return ()

/-- Compile units in turn, after `errors` errors. -/
def compileFrom (p : Package) (options : CompileOptions) :
    Nat → List ScriptUnit → Except CompileError (List CompiledUnit)
  | _, [] => return []
  | errors, u :: rest => do
    let compiled ← p.compileScript options u
    let errors := errors + compiled.errorCount
    checkLimit options errors
    return compiled :: (← compileFrom p options errors rest)

/-- Compile every unit of a package. -/
def compile (p : Package) (options : CompileOptions) : Except CompileError CompiledPackage :=
  return ⟨← p.compileFrom options 0 p.units⟩

/-- The first unit whose type has a given name. -/
def unit? (p : Package) (name : String) : Except CompileError (Option ScriptUnit) :=
  p.units.findM? fun u => return (← p.unitName u) == name

/-- Compile the unit with a given name. -/
def compileUnit (p : Package) (name : String) (options : CompileOptions) :
    Except CompileError CompiledUnit := do
  match ← p.unit? name with
  | some u => p.compileScript options u
  | none => throw (.unknownUnit name)

end Package
end GraphLowering
