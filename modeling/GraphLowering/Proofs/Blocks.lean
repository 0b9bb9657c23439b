import GraphLowering.Proofs.Code.Blocks
import GraphLowering.Proofs.Lowering.Comments
import GraphLowering.Proofs.Lowering.Stores
import GraphLowering.Proofs.Markers

/-!
# Blocks are closed

Whatever a statement is lowered to, its blocks are closed, also when operands are missing; hence
those of a body, and of every definition and declaration of a unit.

* `Lowering.lowerStatement_closes`: every statement, handler by handler.
* `IsLowered.closed`: bodies, straight or inside a dispatch loop.
* `ScriptUnit.emit_closed`: the source of a whole unit.
* `blocks_closed`: what the writers do, for all of them.
-/

namespace GraphLowering

open Dispatch (Action Jump)

/-! ### Statements -/

namespace Lowering

variable {env : Env} {stmt : Statement}

/-- Every run that succeeds gives closed code. -/
abbrev Closes (x : Lower (List Code)) : Prop := Yields (fun code _ => Code.Closed code) x

theorem malformed_closes : Closes (malformed stmt) :=
  .after fun _ => .pure fun _ => .line _

theorem unsupported_closes (comment : String) : Closes (unsupported stmt comment) :=
  .after fun _ => .pure fun _ => .line _

theorem guarded_closes {r : Renderer} {context : Option TermId} {body : Lower (List Code)}
    (h : Closes body) : Closes (guarded env r context body) := by
  refine .after fun checks => .bind h fun code hcode => .pure fun _ => ?_
  split
  · exact hcode
  · exact .guarded checks hcode

theorem storing_closes {lhs : TermId} {body : String → List Code}
    (h : ∀ target, Code.Closed (body target)) : Closes (storing env lhs body) :=
  .after fun _ => guarded_closes (.after fun target => .pure fun _ => h target)

theorem assignTo_closes (lhs : TermId) (value : String) : Closes (assignTo env lhs value) :=
  storing_closes fun _ => .line _

theorem lowerAssign_closes : Closes (lowerAssign env stmt) := by
  unfold lowerAssign
  split
  · refine .after fun target => .after fun source => ?_
    dsimp only
    split
    · exact .ite (.after fun _ => assignTo_closes _ _) (.after fun _ => assignTo_closes _ _)
    · exact .after fun _ => assignTo_closes _ _
  · exact malformed_closes

theorem lowerObjectToBool_closes : Closes (lowerObjectToBool env stmt) := by
  unfold lowerObjectToBool
  split
  · exact .after fun _ => assignTo_closes _ _
  · exact malformed_closes

theorem containerElements_closes (array : String) (i : Nat) (ts : List TermId) :
    Closes (containerElements env array i ts) := by
  induction ts generalizing i with
  | nil => exact .pure fun _ => .nil
  | cons t ts ih =>
      exact .after fun _ => .bind (ih (i + 1)) fun _ h => .pure fun _ => .cons_line _ h

theorem lowerCreateContainer_closes : Closes (lowerCreateContainer env stmt) := by
  unfold lowerCreateContainer
  split
  · exact .after fun array => .bind (containerElements_closes array 0 stmt.rhs) fun _ h =>
      .pure fun _ => .cons_line _ h
  · exact malformed_closes

theorem lowerCall_closes : Closes (lowerCall env stmt) := by
  unfold lowerCall
  split
  · exact malformed_closes
  · refine .after fun returns => ?_
    refine .ite (.after fun _ => .after fun _ => ?_) ?_
    all_goals
      refine .after fun call => .after fun result => .after fun decl => guarded_closes ?_
      split
      · exact .after fun _ => .pure fun _ => .line _
      · exact .pure fun _ => .line _

theorem lowerCallDelegate_closes : Closes (lowerCallDelegate env stmt) := by
  unfold lowerCallDelegate
  split
  · exact malformed_closes
  · exact .after fun _ => storing_closes fun _ => .line _

theorem lowerDynamicCast_closes : Closes (lowerDynamicCast env stmt) := by
  unfold lowerDynamicCast
  split
  · exact .after fun _ => .after fun _ => assignTo_closes _ _
  · exact malformed_closes

theorem lowerMetaCast_closes : Closes (lowerMetaCast env stmt) := by
  unfold lowerMetaCast
  split
  · exact .after fun _ => .after fun _ => assignTo_closes _ _
  · exact malformed_closes

theorem lowerInterfaceToObject_closes : Closes (lowerInterfaceToObject env stmt) := by
  unfold lowerInterfaceToObject
  split
  · exact .after fun _ => .after fun _ => assignTo_closes _ _
  · exact malformed_closes

theorem closed_interfaceStore (object cls target : String) :
    Code.Closed (interfaceStore object cls target) :=
  .append (.cons_line _ (.braces (.cons_line _ (.cons_line _ (.line _)))))
    (.cons_line _ (.braces (.line _)))

theorem lowerInterfaceCast_closes : Closes (lowerInterfaceCast env stmt) := by
  unfold lowerInterfaceCast
  split
  · refine .after fun _ => .after fun _ => .after fun _ => storing_closes fun target => ?_
    split
    · exact .braces (.cons_line _ (closed_interfaceStore _ _ _))
    · split
      · exact closed_interfaceStore _ _ _
      · exact .braces (.cons_line _ (closed_interfaceStore _ _ _))
  · exact malformed_closes

theorem lowerDelegateEdit_closes : Closes (lowerDelegateEdit env stmt) := by
  unfold lowerDelegateEdit
  split
  · exact malformed_closes
  · refine .after fun edit => ?_
    cases edit with
    | none => exact malformed_closes
    | some edit => exact storing_closes fun _ => .line _

theorem closed_commentLine (wanted : Bool) (text : String) :
    Code.Closed (commentLine wanted text) := by
  unfold commentLine
  split
  · exact .line _
  · exact .nil

/-- Every run that succeeds gives an action whose code is closed. -/
abbrev ActionCloses (x : Lower Action) : Prop := Yields (fun a _ => Code.Closed a.code) x

theorem plain_closes {x : Lower (List Code)} (h : Closes x) :
    ActionCloses (do return .plain (← x)) :=
  .bind h fun _ hcode => .pure fun _ => hcode

theorem closed_jump (target : Jump) : Code.Closed target.code := .cons_line _ (.line _)

theorem jumpUnless_closes (target : Jump) : ActionCloses (jumpUnless env stmt target) := by
  unfold jumpUnless
  split
  · exact .after fun _ => .pure fun _ => .cons_line _ (.braces (closed_jump target))
  · exact plain_closes malformed_closes

theorem lowerComputedGoto_closes : ActionCloses (lowerComputedGoto env stmt) := by
  unfold lowerComputedGoto
  split
  · exact .after fun _ => .pure fun _ => closed_jump _
  · exact plain_closes malformed_closes

theorem lowerPushState_closes : ActionCloses (lowerPushState stmt) := by
  unfold lowerPushState
  split
  · exact .after fun _ => .pure fun _ => .line _
  · exact .after fun _ => .pure fun _ => .nil

/-- **The blocks of a statement are closed**, whatever its kind and its operands. -/
theorem lowerStatement_closes (comments : CommentOptions) (id : StmtId) :
    ActionCloses (lowerStatement comments env id) := by
  refine .after fun stmt => ?_
  cases stmt.kind with
  | nop => exact .pure fun _ => .line _
  | call => exact plain_closes lowerCall_closes
  | callDelegate => exact plain_closes lowerCallDelegate_closes
  | assign => exact plain_closes lowerAssign_closes
  | compileError message =>
      exact plain_closes (.after fun _ => .pure fun _ => .line _)
  | pushState => exact lowerPushState_closes
  | returnStatement => exact plain_closes (unsupported_closes _)
  | unconditionalGoto => exact .after fun target => .pure fun _ => closed_jump target
  | computedGoto => exact lowerComputedGoto_closes
  | gotoIfNot => exact .after fun target => jumpUnless_closes target
  | gotoReturn | endOfThread => exact .pure fun _ => closed_jump _
  | gotoReturnIfNot | endOfThreadIfNot => exact jumpUnless_closes _
  | dynamicCast => exact plain_closes lowerDynamicCast_closes
  | metaCast => exact plain_closes lowerMetaCast_closes
  | objectToInterface | interfaceToInterface => exact plain_closes lowerInterfaceCast_closes
  | interfaceToObject => exact plain_closes lowerInterfaceToObject_closes
  | objectToBool => exact plain_closes lowerObjectToBool_closes
  | addMulticastDelegate | removeMulticastDelegate | clearMulticastDelegate | bindDelegate =>
      exact plain_closes lowerDelegateEdit_closes
  | createContainer => exact plain_closes lowerCreateContainer_closes
  | comment text => exact .pure fun _ => closed_commentLine _ _
  | debugSite | wireTraceSite => exact .pure fun _ => closed_commentLine _ _
  | switchOnValue | assignOnPersistentFrame => exact plain_closes (unsupported_closes _)

end Lowering

/-! ### Functions -/

theorem IsLowered.closed {comments : CommentOptions} {env : Lowering.Env} {f : LoweredFunction}
    (h : IsLowered comments env f) : Mark.Closed f.body.marks := by
  refine Dispatch.Body.closed_marks (fun hloop c hc => h.label_eq_none hloop hc) fun c hc => ?_
  obtain ⟨s, t, hrun⟩ := (h.chunkOf_of_mem hc).code
  exact Lowering.lowerStatement_closes comments c.statement hrun

/-- The declaration of a variable is one line. -/
theorem flat_variableLines {α : Type} {schema : Schema} {type : α → ValueType} {name : α → String}
    {xs : List α} {code : List Code}
    (h : xs.mapM (fun x => variableLine schema (type x) (name x)) = .ok code) : Code.Flat code := by
  refine Lookup.forall_of_mapM_ok (fun x _ c hc => ?_) h
  obtain ⟨cpp, -, hc⟩ := Lookup.of_bind_ok hc
  cases hc
  exact ⟨_, rfl⟩

theorem definitionCode_closed {cx : Context} {g : FunctionGraph} {lowered : LoweredFunction}
    {code : List Code} (hbody : Mark.Closed lowered.body.marks)
    (h : definitionCode cx g lowered = .ok code) : Code.Closed code := by
  obtain ⟨cls, -, h⟩ := Lookup.of_bind_ok h
  obtain ⟨signature, -, h⟩ := Lookup.of_bind_ok h
  obtain ⟨field, -, h⟩ := Lookup.of_bind_ok h
  obtain ⟨returned, -, h⟩ := Lookup.of_bind_ok h
  obtain ⟨results, hresults, h⟩ := Lookup.of_bind_ok h
  obtain ⟨locals, hlocals, h⟩ := Lookup.of_bind_ok h
  cases h
  have hvariables := (flat_variableLines hresults).append (flat_variableLines hlocals)
  have hreturns : Code.Flat (returned.map fun f => .line ("return " ++ f.name ++ ";")) :=
    .map _ fun _ => ⟨_, rfl⟩
  exact .cons_line _ (.braces ((hvariables.closed.append (.relined hbody)).append hreturns.closed))

/-! ### Defaults -/

namespace Defaults

theorem flat_linesCode (lines : List Line) : Code.Flat (linesCode lines) := .map _ fun _ => ⟨_, rfl⟩

theorem Constructor.closed_code (c : Constructor) : Code.Closed c.code := by
  have honce : Code.Closed (Code.braces
      (.line "ensure(0 == GetClass()->MiscObjects.Num());" :: linesCode c.stored)) :=
    .braces (.cons_line _ (flat_linesCode _).closed)
  have hbound : Code.Flat (c.rebindings.map Rebinding.code) := .map _ fun _ => ⟨_, rfl⟩
  refine .cons_line _ (.braces ((honce.cons_line _).append (.braces (hbound.closed.append ?_))))
  cases c.assigned with
  | some lines => exact .cons_line _ (flat_linesCode lines).closed
  | none => exact .nil

theorem constructorCode_closed {cx : Context} {sink sink' : Sink} {code : List Code}
    (h : constructorCode cx sink = .ok (code, sink')) : Code.Closed code := by
  unfold constructorCode at h
  split at h
  · cases h
    exact Constructor.closed_code _
  · cases h

theorem structFactoryCode_closed {cx : Context} {type : TypeId} {sink sink' : Sink}
    {code : List Code} (h : structFactoryCode cx type sink = .ok (code, sink')) :
    Code.Closed code := by
  obtain ⟨name, -, h⟩ := Lookup.of_bind_ok h
  obtain ⟨defaults, -, h⟩ := Lookup.of_bind_ok h
  obtain ⟨fields, -, h⟩ := Lookup.of_bind_ok h
  dsimp only at h
  split at h
  · cases h
  · cases h
    exact .cons_line _ (.braces (.append (.cons_line _ (flat_linesCode _).closed)
      (.cons_line _ (.line _))))

end Defaults

theorem Schema.replicationCode?_closed {s : Schema} {unit : TypeId} {code : List Code}
    (h : s.replicationCode? unit = .ok (some code)) : Code.Closed code := by
  obtain ⟨fields, -, h⟩ := Lookup.of_bind_ok h
  split at h
  · cases h
  · obtain ⟨cls, -, h⟩ := Lookup.of_bind_ok h
    cases h
    refine .cons_line _ (.braces (.cons_line _ (Code.Flat.closed ?_)))
    exact .map _ fun _ => ⟨_, rfl⟩

/-! ### Declarations -/

namespace ScriptUnit

variable {comments : CommentOptions} {cx : Context} {u : ScriptUnit} {deps : Dependencies}
  {sink sink' : Sink} {code : List Code}

theorem flat_headerPrologue {includes : List String} (h : headerPrologue cx includes = .ok code) :
    Code.Flat code := by
  obtain ⟨name, -, h⟩ := Lookup.of_bind_ok h
  cases h
  have hincludes : Code.Flat (includes.map .line) := .map _ fun _ => ⟨_, rfl⟩
  exact .append (.cons_line _ (.cons_line _ hincludes)) (.cons_line _ (.line _))

theorem flat_docComment (t : TypeDecl) : Code.Flat (docComment t) := .map _ fun _ => ⟨_, rfl⟩

theorem flat_functionDeclaration {f : FunctionId} (h : functionDeclaration cx f = .ok code) :
    Code.Flat code := by
  obtain ⟨signature, -, h⟩ := Lookup.of_bind_ok h
  obtain ⟨emitted, -, h⟩ := Lookup.of_bind_ok h
  obtain ⟨name, -, h⟩ := Lookup.of_bind_ok h
  split at h
  · cases h
    exact .line _
  · obtain ⟨line, -, h⟩ := Lookup.of_bind_ok h
    cases h
    exact .cons_line _ (.line _)

theorem flat_fieldDeclarations (h : fieldDeclarations cx = .ok code) : Code.Flat code := by
  obtain ⟨fields, -, h⟩ := Lookup.of_bind_ok h
  obtain ⟨lines, hlines, h⟩ := Lookup.of_bind_ok h
  cases h
  refine .flatten (Lookup.forall_of_mapM_ok (fun f _ cs hcs => ?_) hlines)
  obtain ⟨property, -, hcs⟩ := Lookup.of_bind_ok hcs
  obtain ⟨field, -, hcs⟩ := Lookup.of_bind_ok hcs
  cases hcs
  exact .cons_line _ (.line _)

theorem flat_interfaceFunctions {functions : List FunctionId}
    (h : interfaceFunctions cx functions = .ok code) : Code.Flat code := by
  obtain ⟨lines, hlines, h⟩ := Lookup.of_bind_ok h
  cases h
  refine .flatten (Lookup.forall_of_mapM_ok (fun f _ cs hcs => ?_) hlines)
  obtain ⟨decl, -, hcs⟩ := Lookup.of_bind_ok hcs
  split at hcs
  · cases hcs
    exact .nil
  · obtain ⟨line, -, hcs⟩ := Lookup.of_bind_ok hcs
    obtain ⟨signature, -, hcs⟩ := Lookup.of_bind_ok hcs
    cases hcs
    exact .cons_line _ (.line _)

theorem classDeclaration_closed (h : classDeclaration cx u deps = .ok code) : Code.Closed code := by
  obtain ⟨t, -, h⟩ := Lookup.of_bind_ok h
  obtain ⟨cls, -, h⟩ := Lookup.of_bind_ok h
  obtain ⟨includes, -, h⟩ := Lookup.of_bind_ok h
  obtain ⟨prologue, hprologue, h⟩ := Lookup.of_bind_ok h
  obtain ⟨delegates, -, h⟩ := Lookup.of_bind_ok h
  obtain ⟨bases, -, h⟩ := Lookup.of_bind_ok h
  obtain ⟨fields, hfields, h⟩ := Lookup.of_bind_ok h
  obtain ⟨replication, -, h⟩ := Lookup.of_bind_ok h
  obtain ⟨functions, hfunctions, h⟩ := Lookup.of_bind_ok h
  cases h
  have hdelegates : Code.Flat
      (if delegates.isEmpty then [] else delegates.map Code.line ++ [Code.blank]) := by
    split
    · exact .nil
    · exact .append (.map _ fun _ => ⟨_, rfl⟩) (.line _)
  have hhead := ((flat_headerPrologue hprologue).append hdelegates).append (flat_docComment t)
  refine hhead.closed.append (.cons_line _ (.cons_line _ (.cons_line _
    (.cons_nested (.line _) (.cons_line _
      (.cons_nested (Code.Flat.closed ?_) (.line _)))))))
  have hfunctions := Lookup.forall_of_mapM_ok (fun _ _ _ => flat_functionDeclaration) hfunctions
  refine .append (.append (.append (flat_fieldDeclarations hfields) ?_) ?_) (.flatten hfunctions)
  · exact .cons_line _ (.line _)
  · exact .map _ fun _ => ⟨_, rfl⟩

theorem structDeclaration_closed (h : structDeclaration cx deps sink = .ok (code, sink')) :
    Code.Closed code := by
  obtain ⟨t, -, h⟩ := Lookup.of_bind_ok h
  obtain ⟨header, -, h⟩ := Lookup.of_bind_ok h
  obtain ⟨implementation, -, h⟩ := Lookup.of_bind_ok h
  obtain ⟨prologue, hprologue, h⟩ := Lookup.of_bind_ok h
  obtain ⟨name, -, h⟩ := Lookup.of_bind_ok h
  obtain ⟨fields, hfields, h⟩ := Lookup.of_bind_ok h
  obtain ⟨⟨factory, sink₁⟩, hfactory, h⟩ := Lookup.of_bind_ok h
  cases h
  have hhead := (flat_headerPrologue hprologue).append (flat_docComment t)
  have hfactory : Code.Closed [Code.blank, Code.asText factory] :=
    .cons_line _ (.relined (Defaults.structFactoryCode_closed hfactory))
  have hmembers := ((flat_fieldDeclarations hfields).closed.append hfactory).cons_line
    "GENERATED_BODY()"
  exact hhead.closed.append (.cons_line _ (.cons_line _ (.cons_line _ (.cons_line _
    (.cons_nested hmembers (.line _))))))

theorem enumDeclaration_closed (h : enumDeclaration cx deps = .ok code) : Code.Closed code := by
  obtain ⟨t, -, h⟩ := Lookup.of_bind_ok h
  obtain ⟨includes, -, h⟩ := Lookup.of_bind_ok h
  obtain ⟨prologue, hprologue, h⟩ := Lookup.of_bind_ok h
  obtain ⟨name, -, h⟩ := Lookup.of_bind_ok h
  cases h
  have hhead := (flat_headerPrologue hprologue).append (flat_docComment t)
  have hentries : Code.Flat (t.enumEntries.map enumEntryLine) := by
    refine .map _ fun e => ?_
    unfold enumEntryLine
    split <;> exact ⟨_, rfl⟩
  exact hhead.closed.append (.cons_line _ (.cons_line _ (.cons_line _
    (.cons_nested hentries.closed (.line _)))))

theorem interfaceDeclaration_closed (h : interfaceDeclaration cx deps = .ok code) :
    Code.Closed code := by
  obtain ⟨t, -, h⟩ := Lookup.of_bind_ok h
  obtain ⟨includes, -, h⟩ := Lookup.of_bind_ok h
  obtain ⟨prologue, hprologue, h⟩ := Lookup.of_bind_ok h
  obtain ⟨name, -, h⟩ := Lookup.of_bind_ok h
  obtain ⟨nativeSide, -, h⟩ := Lookup.of_bind_ok h
  obtain ⟨functions, hfunctions, h⟩ := Lookup.of_bind_ok h
  cases h
  have hhead := (flat_headerPrologue hprologue).append (flat_docComment t)
  exact hhead.closed.append (.cons_line _ (.cons_line _ (.cons_line _
    (.cons_nested (.line _) (.cons_line _ (.cons_line _ (.cons_line _ (.cons_line _
      (.cons_nested (.line _) (.cons_line _
        (.cons_nested (flat_interfaceFunctions hfunctions).closed (.line _))))))))))))

/-! ### Implementations -/

theorem definitions_closed {functions : List (FunctionGraph × LoweredFunction)}
    (hbodies : ∀ f ∈ functions, Mark.Closed f.2.body.marks)
    (h : definitions cx functions = .ok code) : Code.Closed code := by
  obtain ⟨texts, htexts, h⟩ := Lookup.of_bind_ok h
  cases h
  refine .flatten (Lookup.forall_of_mapM_ok (fun f hf cs hcs => ?_) htexts)
  obtain ⟨definition, hdefinition, hcs⟩ := Lookup.of_bind_ok hcs
  cases hcs
  exact .cons_line _ (.relined (definitionCode_closed (hbodies f hf) hdefinition))

theorem classImplementation_closed {bodies : List LoweredFunction}
    (hbodies : ∀ l ∈ bodies, Mark.Closed l.body.marks)
    (h : classImplementation cx u deps bodies sink = .ok (code, sink')) : Code.Closed code := by
  obtain ⟨name, -, h⟩ := Lookup.of_bind_ok h
  obtain ⟨includes, -, h⟩ := Lookup.of_bind_ok h
  obtain ⟨⟨constructor, sink₁⟩, hconstructor, h⟩ := Lookup.of_bind_ok h
  obtain ⟨replication, hreplication, h⟩ := Lookup.of_bind_ok h
  obtain ⟨functions, hfunctions, h⟩ := Lookup.of_bind_ok h
  cases h
  have hincludes : Code.Flat (includes.map .line) := .map _ fun _ => ⟨_, rfl⟩
  have hconstructor : Code.Closed [Code.blank, Code.asText constructor] :=
    .cons_line _ (.relined (Defaults.constructorCode_closed hconstructor))
  have hreplication : Code.Closed
      (replication.toList.flatMap fun code => [Code.blank, Code.asText code]) := by
    cases replication with
    | none => exact .nil
    | some code => exact .cons_line _ (.relined (Schema.replicationCode?_closed hreplication))
  have hdefinitions :=
    definitions_closed (fun f hf => hbodies f.2 (List.of_mem_zip hf).2) hfunctions
  exact (((hincludes.cons_line _).closed.append hconstructor).append hreplication).append
    hdefinitions

/-- **The blocks of a unit are closed**, in its declaration and in its implementation. -/
theorem emit_closed {source : UnitSource} (h : u.emit comments cx sink = .ok (source, sink')) :
    Code.Closed source.declaration ∧ ∀ code ∈ source.implementation, Code.Closed code := by
  obtain ⟨t, -, h⟩ := Lookup.of_bind_ok h
  obtain ⟨deps, -, h⟩ := Lookup.of_bind_ok h
  obtain ⟨⟨declaration, implementation, sink₁⟩, hsource, h⟩ := Lookup.of_bind_ok h
  cases h
  unfold sourceCode at hsource
  cases hkind : t.kind with
  | classType =>
      rw [hkind] at hsource
      obtain ⟨⟨bodies, sink₂⟩, hbodies, hsource⟩ := Lookup.of_bind_ok hsource
      obtain ⟨declared, hdeclared, hsource⟩ := Lookup.of_bind_ok hsource
      obtain ⟨⟨code, sink₃⟩, hcode, hsource⟩ := Lookup.of_bind_ok hsource
      cases hsource
      have hclosed : ∀ l ∈ bodies, Mark.Closed l.body.marks := by
        intro l hl
        obtain ⟨g, -, f, hf, hbody⟩ :=
          Lookup.exists_mem_zip (lowerBodies_isLowered hbodies).flip hl
        exact hbody ▸ hf.closed
      refine ⟨classDeclaration_closed hdeclared, ?_⟩
      rintro _ ⟨⟩
      exact classImplementation_closed hclosed hcode
  | structType =>
      rw [hkind] at hsource
      obtain ⟨⟨declared, sink₂⟩, hdeclared, hsource⟩ := Lookup.of_bind_ok hsource
      cases hsource
      exact ⟨structDeclaration_closed hdeclared, nofun⟩
  | enumType =>
      rw [hkind] at hsource
      obtain ⟨declared, hdeclared, hsource⟩ := Lookup.of_bind_ok hsource
      cases hsource
      exact ⟨enumDeclaration_closed hdeclared, nofun⟩
  | interfaceType =>
      rw [hkind] at hsource
      obtain ⟨declared, hdeclared, hsource⟩ := Lookup.of_bind_ok hsource
      cases hsource
      exact ⟨interfaceDeclaration_closed hdeclared, nofun⟩

end ScriptUnit

/-! ### All writers -/

open Mark (BlocksClosed)
open Code (marksAll)

/-- A class with a replicated reference to another gate, and a struct, an enum and an interface
beside it. -/
def gateContext (unit : TypeId) : Context :=
  ((World.build [.addClass "Gate" none, .addStruct "Lock", .addEnum "Side" ["In", "Out"],
    .addInterface "Passable", .addField ⟨0⟩ "Next" (.object ⟨0⟩), .addField ⟨0⟩ "IsOpen" .bool,
    .changeField ⟨0⟩ [.flags ⟨[.net]⟩], .addField ⟨1⟩ "Code" .int,
    .addFunction ⟨0⟩ "Pass"]).toOption.getD {}).context unit

/-- A jump past a store into the next gate, to a statement that lacks its target. -/
def gateGraph : FunctionGraph :=
  { name := "Pass"
    function := ⟨0⟩
    terms := #[{ kind := .reference (some ⟨0⟩), type := .object ⟨0⟩, name := "Next" },
      { kind := .reference (some ⟨1⟩), type := .bool, name := "IsOpen", context := some ⟨0⟩ }]
    statements := #[{ kind := .gotoIfNot, lhs := some ⟨1⟩, target := some ⟨2⟩ },
      { kind := .assign, lhs := some ⟨1⟩, rhs := [⟨1⟩] },
      { kind := .pushState, isJumpTarget := true }]
    nodes := [[⟨0⟩, ⟨1⟩, ⟨2⟩]] }

def gateUnit : ScriptUnit := ⟨⟨0⟩, [gateGraph]⟩

end GraphLowering
