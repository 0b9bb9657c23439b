import GraphLowering.Package
import GraphLowering.Proofs.Totality.Defaults
import GraphLowering.Proofs.Totality.Lowering
import GraphLowering.World

/-!
# Totality — packages

Compiling a package whose ids are all in range never looks anything up in vain, and if no chain of
references leads back it meets no fault at all (`Package.compiles_without_fault`).  Every emitter of
a unit is a row of look-ups that have an answer (`SoundUnit.emit`).
-/

namespace GraphLowering

variable {A : Prop} {cx : Context} {u : ScriptUnit} {deps : Dependencies}

/-- The unit belongs to the context, and under `A` the terms of its graphs are acyclic. -/
structure SoundUnit (A : Prop) (cx : Context) (u : ScriptUnit) : Prop where
  context : Sound A cx
  inRange : u.InRange cx.extent
  subterms : A → ∀ g ∈ u.functions, Acyclic g.subterms

def Dependencies.InRange (d : Dependencies) (e : Extent) : Prop :=
  (∀ dep ∈ d.header, dep.InRange e) ∧ ∀ dep ∈ d.implementation, dep.InRange e

/-! ### Bodies -/

namespace SoundUnit

variable {graph : FunctionGraph}

theorem lowerFunction (h : SoundUnit A cx u) (hgraph : graph ∈ u.functions)
    (comments : CommentOptions) (resumeStates : Option StateMap) (sink : Sink) :
    Ends A (lowerFunction comments cx graph resumeStates sink).1 := by
  have henv : Lowering.SoundEnv A ⟨cx, graph⟩ :=
    ⟨h.context, h.inRange.functions graph hgraph, fun a => h.subterms a graph hgraph⟩
  exact henv.lowerBody comments _

theorem lowerAll (h : SoundUnit A cx u) (comments : CommentOptions) {graphs : List FunctionGraph}
    (hgraphs : ∀ g ∈ graphs, g ∈ u.functions) (resumeStates : Option StateMap) (sink : Sink) :
    Ends A (ScriptUnit.lowerAll comments cx graphs resumeStates sink) := by
  induction graphs generalizing resumeStates sink with
  | nil => exact .pure trivial
  | cons g graphs ih =>
      refine .bind (h.lowerFunction (hgraphs g List.mem_cons_self) comments resumeStates sink) ?_
      intro _ _
      exact .bind (ih (fun g hg => hgraphs g (List.mem_cons_of_mem _ hg)) _ _) fun _ _ =>
        .pure trivial

theorem lowerBodies (h : SoundUnit A cx u) (comments : CommentOptions) (sink : Sink) :
    Ends A (u.lowerBodies comments cx sink) := by
  have hbefore : ∀ g ∈ u.functions.takeWhile (!·.isEventGraph), g ∈ u.functions :=
    (List.takeWhile_prefix _).subset
  have hrest : ∀ g ∈ u.functions.dropWhile (!·.isEventGraph), g ∈ u.functions :=
    (List.dropWhile_suffix _).subset
  -- Whether or not there is an event graph, all that is lowered are functions of the unit.
  unfold ScriptUnit.lowerBodies ScriptUnit.splitAtFirst
  dsimp only
  split
  · exact .bind (h.lowerAll comments hbefore none sink) fun _ _ => .pure trivial
  · rename_i event after hsplit
    rw [hsplit] at hrest
    refine .bind (h.lowerFunction (hrest event List.mem_cons_self) comments none sink) fun _ _ => ?_
    refine .bind (h.lowerAll comments hbefore _ _) fun _ _ => ?_
    exact .bind (h.lowerAll comments (fun g hg => hrest g (List.mem_cons_of_mem _ hg)) _ _)
      fun _ _ => .pure trivial

end SoundUnit

namespace Sound

/-! ### Parts of declarations -/

theorem variableLine (h : Sound A cx) {t : ValueType} (ht : t.InRange cx.extent) (name : String) :
    Ends A (variableLine cx.schema t name) :=
  .bind (h.cppType ht) fun _ _ => .pure trivial

theorem definitionCode (h : Sound A cx) {graph : FunctionGraph} (hgraph : graph.InRange cx.extent)
    (lowered : LoweredFunction) : Ends A (definitionCode cx graph lowered) := by
  refine .bind (h.cppName h.unit) fun cls _ => ?_
  refine .bind (h.signature hgraph.function (some cls)) fun _ _ => ?_
  refine .bind (h.returnField hgraph.function) fun returned hreturned => ?_
  have hlookup : Answers A (returned.toList.mapM cx.schema.field) fun fields =>
      ∀ f ∈ fields, f.InRange cx.extent :=
    .mapM fun p hp => (h.field (hreturned p (Option.mem_toList.mp hp))).imp fun _ hf => hf.2
  refine .bind hlookup fun fields hfields => ?_
  refine .bind (.mapM fun f hf => h.variableLine (hfields f hf).type f.name) fun _ _ => ?_
  exact .bind (.mapM fun l hl => h.variableLine (hgraph.locals l hl) l.name) fun _ _ =>
    .pure trivial

theorem headerPrologue (h : Sound A cx) (includes : List String) :
    Ends A (ScriptUnit.headerPrologue cx includes) :=
  .bind (h.typeName h.unit) fun _ _ => .pure trivial

theorem functionDeclaration (h : Sound A cx) {f : FunctionId} (hf : f.InRange cx.extent) :
    Ends A (ScriptUnit.functionDeclaration cx f) := by
  refine .bind (h.signature hf none) fun _ _ => .bind (h.emittedName hf) fun _ _ => ?_
  refine .bind (h.functionName hf) fun _ _ => ?_
  split
  · exact .pure trivial
  · exact .bind (h.functionLine hf) fun _ _ => .pure trivial

theorem fieldDeclarations (h : Sound A cx) : Ends A (ScriptUnit.fieldDeclarations cx) := by
  refine .bind (h.ownFields h.unit) fun fields hfields => ?_
  refine .bind (.mapM (R := fun _ => True) fun f hf => ?_) fun _ _ => .pure trivial
  exact .bind (h.propertyLine (hfields f hf)) fun _ _ =>
    .bind (h.fieldLine (hfields f hf)) fun _ _ => .pure trivial

/-! ### Classes -/

theorem baseList (h : Sound A cx) {t : TypeDecl} (ht : t.InRange cx.extent) :
    Ends A (ScriptUnit.baseList cx t) := by
  refine .bind (h.cppNameOr "UObject" ht.superType) fun _ _ => ?_
  exact .bind (.mapM fun i hi => h.interfaceCppName (ht.interfaces i hi)) fun _ _ => .pure trivial

theorem classDeclaration (h : Sound A cx) (hu : u.InRange cx.extent)
    (hdeps : deps.InRange cx.extent) : Ends A (ScriptUnit.classDeclaration cx u deps) := by
  refine .bind (h.type h.unit) fun t ⟨_, ht⟩ => .bind (h.cppName h.unit) fun _ _ => ?_
  refine .bind (h.includes hdeps.1) fun includes _ => .bind (h.headerPrologue includes) ?_
  refine fun _ _ => .bind (h.delegateDeclarations h.unit) fun _ _ => .bind (h.baseList ht) ?_
  refine fun _ _ => .bind h.fieldDeclarations fun _ _ => ?_
  refine .bind (h.replicationDeclaration? h.unit) fun _ _ => ?_
  exact .bind (.mapM fun g hg => h.functionDeclaration (hu.functions g hg).function) fun _ _ =>
    .pure trivial

theorem definitions (h : Sound A cx) {functions : List (FunctionGraph × LoweredFunction)}
    (hfunctions : ∀ f ∈ functions, f.1.InRange cx.extent) :
    Ends A (ScriptUnit.definitions cx functions) := by
  refine .bind (.mapM (R := fun _ => True) fun f hf => ?_) fun _ _ => .pure trivial
  exact .bind (h.definitionCode (hfunctions f hf) f.2) fun _ _ => .pure trivial

theorem classImplementation (h : Sound A cx) (hu : u.InRange cx.extent)
    (hdeps : deps.InRange cx.extent) (bodies : List LoweredFunction) (sink : Sink) :
    Ends A (ScriptUnit.classImplementation cx u deps bodies sink) := by
  refine .bind (h.typeName h.unit) fun _ _ => .bind (h.includes hdeps.2) fun _ _ => ?_
  refine .bind (h.constructorCode _) fun _ _ => .bind (h.replicationCode? h.unit) fun _ _ => ?_
  refine .bind (h.definitions fun f hf => ?_) fun _ _ => .pure trivial
  exact hu.functions f.1 (List.of_mem_zip hf).1

/-! ### Structs, enums and interfaces -/

theorem structDeclaration (h : Sound A cx) (hdeps : deps.InRange cx.extent) (sink : Sink) :
    Ends A (ScriptUnit.structDeclaration cx deps sink) := by
  refine .bind (h.type h.unit) fun _ _ => .bind (h.includes hdeps.1) fun _ _ => ?_
  refine .bind (h.includes hdeps.2) fun _ _ => .bind (h.headerPrologue _) fun _ _ => ?_
  refine .bind (h.cppName h.unit) fun _ _ => .bind h.fieldDeclarations fun _ _ => ?_
  exact .bind (h.structFactoryCode h.unit sink) fun _ _ => .pure trivial

theorem enumDeclaration (h : Sound A cx) (hdeps : deps.InRange cx.extent) :
    Ends A (ScriptUnit.enumDeclaration cx deps) := by
  refine .bind (h.type h.unit) fun _ _ => .bind (h.includes hdeps.1) fun includes _ => ?_
  exact .bind (h.headerPrologue includes) fun _ _ => .bind (h.cppName h.unit) fun _ _ =>
    .pure trivial

theorem interfaceFunctions (h : Sound A cx) {functions : List FunctionId}
    (hfunctions : ∀ f ∈ functions, f.InRange cx.extent) :
    Ends A (ScriptUnit.interfaceFunctions cx functions) := by
  refine .bind (.mapM (R := fun _ => True) fun f hf => ?_) fun _ _ => .pure trivial
  refine .bind (h.function (hfunctions f hf)) fun _ _ => ?_
  split
  · exact .pure trivial
  · exact .bind (h.functionLine (hfunctions f hf)) fun _ _ =>
      .bind (h.signature (hfunctions f hf) none) fun _ _ => .pure trivial

theorem interfaceDeclaration (h : Sound A cx) (hdeps : deps.InRange cx.extent) :
    Ends A (ScriptUnit.interfaceDeclaration cx deps) := by
  refine .bind (h.type h.unit) fun t ⟨_, ht⟩ => .bind (h.includes hdeps.1) fun includes _ => ?_
  refine .bind (h.headerPrologue includes) fun _ _ => .bind (h.cppName h.unit) fun _ _ => ?_
  refine .bind (h.interfaceCppName h.unit) fun _ _ => ?_
  exact .bind (h.interfaceFunctions ht.functions) fun _ _ => .pure trivial

end Sound

/-! ### All units -/

theorem SoundUnit.sourceCode (h : SoundUnit A cx u) (comments : CommentOptions)
    (hdeps : deps.InRange cx.extent) (kind : TypeKind) (sink : Sink) :
    Ends A (u.sourceCode comments cx deps kind sink) := by
  cases kind with
  | classType =>
      refine .bind (h.lowerBodies comments sink) fun lowered _ => ?_
      refine .bind (h.context.classDeclaration h.inRange hdeps) fun _ _ => ?_
      exact .bind (h.context.classImplementation h.inRange hdeps lowered.1 lowered.2) fun _ _ =>
        .pure trivial
  | structType => exact .bind (h.context.structDeclaration hdeps sink) fun _ _ => .pure trivial
  | enumType => exact .bind (h.context.enumDeclaration hdeps) fun _ _ => .pure trivial
  | interfaceType => exact .bind (h.context.interfaceDeclaration hdeps) fun _ _ => .pure trivial

/-- **Every unit has a source.** -/
theorem SoundUnit.emit (h : SoundUnit A cx u) (comments : CommentOptions) (sink : Sink) :
    Ends A (u.emit comments cx sink) := by
  refine .bind (h.context.type h.inRange.type) fun t _ => ?_
  refine .bind (h.context.gather h.inRange) fun deps hdeps => ?_
  exact .bind (h.sourceCode comments hdeps t.kind _) fun _ _ => .pure trivial

/-! ### Runs -/

/-- The failures that the options ask for. -/
def CompileError.AskedFor (options : CompileOptions) : CompileError → Prop
  | .errorLimitReached limit _ => options.errorLimit = some limit
  | .fatal _ _ => options.failOnFatal = true
  | .unknownUnit _ | .fault _ => False

/-- The run gives a result with `Q` or fails with `P`; or a chain is endless, which `A` rules
out. -/
def Finishes {α : Type} (A : Prop) (P : CompileError → Prop) (x : Except CompileError α)
    (Q : α → Prop) : Prop :=
  match x with
  | .ok a => Q a
  | .error e => P e ∨ e = .fault .endless ∧ ¬ A

namespace Finishes

variable {α β : Type} {P P' : CompileError → Prop} {x : Except CompileError α} {Q : α → Prop}
  {R : β → Prop}

theorem pure {a : α} (h : Q a) : Finishes A P (Pure.pure a) Q := h

theorem fail {e : CompileError} (h : P e) : Finishes A P (throw e : Except CompileError α) Q :=
  .inl h

theorem orFault {e : Except Fault α} (h : Answers A e Q) : Finishes A P (Package.orFault e) Q := by
  cases e with
  | ok a => exact h
  | error f => exact .inr ⟨congrArg _ h.1, h.2⟩

theorem imp {Q' : α → Prop} (h : Finishes A P x Q) (hP : ∀ e, P e → P' e)
    (hQ : ∀ a, Q a → Q' a) : Finishes A P' x Q' := by
  cases x with
  | ok a => exact hQ a h
  | error e => exact h.imp_left (hP e)

theorem bind {f : α → Except CompileError β} (hx : Finishes A P x Q)
    (hf : ∀ a, Q a → Finishes A P (f a) R) : Finishes A P (x >>= f) R := by
  cases x with
  | ok a => exact hf a hx
  | error e => exact hx

theorem findM? {xs : List α} {p : α → Except CompileError Bool}
    (hp : ∀ x ∈ xs, Finishes A P (p x) fun _ => True) :
    Finishes A P (xs.findM? p) fun r => ∀ x ∈ r, x ∈ xs := by
  induction xs with
  | nil => exact .pure fun _ hmem => by cases hmem
  | cons x xs ih =>
      refine .bind (hp x List.mem_cons_self) fun b _ => ?_
      cases b with
      | true =>
          refine .pure fun y hy => ?_
          cases hy
          exact List.mem_cons_self
      | false =>
          exact (ih fun x hx => hp x (List.mem_cons_of_mem _ hx)).imp (fun _ he => he)
            fun r hr y hy => List.mem_cons_of_mem _ (hr y hy)

end Finishes

namespace Package

variable {p : Package} {options : CompileOptions}

/-- Chains end when they are acyclic and functions stand with their owners. -/
theorem soundUnit (h : p.InRange) (hu : u ∈ p.units) :
    SoundUnit (p.Acyclic ∧ p.schema.FunctionsOwned) ⟨p.schema, p.objects, u.type⟩ u where
  context :=
    { schema := h.schema
      objects := h.objects
      unit := (h.units u hu).type
      supers := fun a => a.1.parents.mono p.schema.supers_subset_parents
      parents := fun a => a.1.parents
      parts := fun a => a.1.parts
      owners := fun a => a.1.owners
      functionsOwned := fun a => a.2 }
  inRange := h.units u hu
  subterms := fun a => a.1.subterms u hu

theorem compileScript_finishes (h : p.InRange) (hu : u ∈ p.units) :
    Finishes (p.Acyclic ∧ p.schema.FunctionsOwned) (·.AskedFor options)
      (p.compileScript options u) fun _ => True := by
  have hunit := soundUnit h hu
  refine .bind (.orFault (hunit.context.typeName hunit.inRange.type)) fun name _ => ?_
  refine .bind (.orFault (hunit.emit options.comments {})) fun r _ => ?_
  dsimp only
  split
  · split
    · rename_i hfatal
      exact .fail hfatal
    · exact .pure trivial
  · exact .pure trivial

theorem checkLimit_finishes (errors : Nat) :
    Finishes A (·.AskedFor options) (checkLimit options errors) fun _ => True := by
  unfold checkLimit
  split
  · split
    · rename_i limit hlimit _
      exact .fail hlimit
    · exact .pure trivial
  · exact .pure trivial

theorem compileFrom_finishes (h : p.InRange) {units : List ScriptUnit}
    (hunits : ∀ u ∈ units, u ∈ p.units) (errors : Nat) :
    Finishes (p.Acyclic ∧ p.schema.FunctionsOwned) (·.AskedFor options)
      (p.compileFrom options errors units) fun _ => True := by
  induction units generalizing errors with
  | nil => exact .pure trivial
  | cons u units ih =>
      refine .bind (compileScript_finishes h (hunits u List.mem_cons_self)) fun compiled _ => ?_
      refine .bind (checkLimit_finishes _) fun _ _ => ?_
      exact .bind (ih (fun v hv => hunits v (List.mem_cons_of_mem _ hv)) _) fun _ _ => .pure trivial

theorem compile_finishes (h : p.InRange) :
    Finishes (p.Acyclic ∧ p.schema.FunctionsOwned) (·.AskedFor options) (p.compile options)
      fun _ => True :=
  .bind (compileFrom_finishes h (fun _ hu => hu) 0) fun _ _ => .pure trivial

theorem compileUnit_finishes (h : p.InRange) (name : String) :
    Finishes (p.Acyclic ∧ p.schema.FunctionsOwned)
      (fun e => e = .unknownUnit name ∨ e.AskedFor options) (p.compileUnit name options)
      fun _ => True := by
  refine .bind (.findM? fun u hu => ?_) fun r hr => ?_
  · have hunit := soundUnit h hu
    exact .bind (.orFault (hunit.context.typeName hunit.inRange.type)) fun _ _ => .pure trivial
  · cases r with
    | none => exact .fail (.inl rfl)
    | some u =>
        exact (compileScript_finishes h (hr u rfl)).imp (fun _ he => .inr he) fun _ _ => trivial

/-- **A package in range compiles without a look-up that finds nothing.**  The only fault left is
an endless chain.  If no chain leads back, and functions stand with the type that owns them, there
is no fault at all: a run fails only as the options ask for, or because no unit has the name. -/
theorem compiles_without_fault (h : p.InRange) (options : CompileOptions) (name : String) :
    (∀ f, p.compile options = .error (.fault f) → f = .endless) ∧
    (∀ f, p.compileUnit name options = .error (.fault f) → f = .endless) ∧
    (p.Acyclic → p.schema.FunctionsOwned →
      (∀ e, p.compile options = .error e → e.AskedFor options) ∧
      ∀ e, p.compileUnit name options = .error e → e = .unknownUnit name ∨ e.AskedFor options) := by
  have hcompile := @compile_finishes p options h
  have hunit := @compileUnit_finishes p options h name
  refine ⟨fun f hf => ?_, fun f hf => ?_, fun hacyclic howned => ⟨fun e he => ?_, fun e he => ?_⟩⟩
  · rw [hf] at hcompile
    rcases hcompile with hasked | ⟨heq, -⟩
    · exact hasked.elim
    · cases heq
      rfl
  · rw [hf] at hunit
    rcases hunit with (hname | hasked) | ⟨heq, -⟩
    · cases hname
    · exact hasked.elim
    · cases heq
      rfl
  · rw [he] at hcompile
    exact hcompile.resolve_right fun hendless => hendless.2 ⟨hacyclic, howned⟩
  · rw [he] at hunit
    exact hunit.resolve_right fun hendless => hendless.2 ⟨hacyclic, howned⟩

/-- A class with a super type, an interface, a struct and a sub-object. -/
def beaconEdits : List Edit :=
  [.addClass "Lamp" none, .addInterface "Switch", .addStruct "Glow",
    .addClass "Beacon" (some ⟨0⟩), .changeType ⟨3⟩ [.interfaces [⟨1⟩], .defaultObject (some ⟨0⟩)],
    .addField ⟨2⟩ "Level" .int, .addField ⟨3⟩ "Glow" (.struct ⟨2⟩),
    .addField ⟨3⟩ "Spare" (.object ⟨0⟩), .addFunction ⟨3⟩ "Shine", .addParam ⟨0⟩ "Step" .int {},
    .addObject "Default__Beacon" ⟨3⟩ (.package "/Game"), .addObject "Spare" ⟨0⟩ (.object ⟨0⟩),
    .setValue ⟨0⟩ ⟨2⟩ (.object (some ⟨1⟩))]

/-- A nested call with a member of a struct, and a jump to where there is no statement. -/
def shineGraph : FunctionGraph :=
  { name := "Shine"
    function := ⟨0⟩
    terms := #[{ kind := .reference (some ⟨1⟩), type := .struct ⟨2⟩, name := "Glow" },
      { kind := .reference (some ⟨0⟩), type := .int, name := "Level", context := some ⟨0⟩ },
      { kind := .inline ⟨1⟩, type := .int }]
    statements := #[{ kind := .call, function := some ⟨0⟩, rhs := [⟨2⟩] },
      { kind := .call, function := some ⟨0⟩, rhs := [⟨1⟩] },
      { kind := .unconditionalGoto, target := some ⟨9⟩ }]
    nodes := [[⟨0⟩, ⟨2⟩]] }

def beaconPackage : Package :=
  let world := (World.build beaconEdits).toOption.getD {}
  ⟨world.schema, world.objects, [⟨⟨3⟩, [shineGraph]⟩, ⟨⟨2⟩, []⟩]⟩

theorem compiles_without_fault_beacon :
    beaconPackage.InRange ∧ beaconPackage.Acyclic ∧ beaconPackage.schema.FunctionsOwned ∧
      (∀ f, beaconPackage.compileUnit "Beacon" {} ≠ .error (.fault f)) ∧
      ∃ compiled, beaconPackage.compile {} = .ok compiled := by
  have hrange : beaconPackage.InRange := by decide +kernel
  have hacyclic : beaconPackage.Acyclic :=
    .of_within (by decide +kernel) (by decide +kernel) (by decide +kernel) (by decide +kernel)
  have howned : beaconPackage.schema.FunctionsOwned := by decide +kernel
  obtain ⟨-, -, hfinish⟩ := compiles_without_fault hrange {} "Beacon"
  obtain ⟨hcompile, hunit⟩ := hfinish hacyclic howned
  refine ⟨hrange, hacyclic, howned, fun f hf => ?_, ?_⟩
  · rcases hunit _ hf with hname | hasked
    · cases hname
    · exact hasked
  · cases hresult : beaconPackage.compile {} with
    | ok compiled => exact ⟨compiled, rfl⟩
    | error e =>
        have hasked := hcompile e hresult
        cases e with
        | errorLimitReached limit errors => cases hasked
        | fatal unit message => cases hasked
        | unknownUnit _ | fault _ => exact hasked.elim

end Package

end GraphLowering
