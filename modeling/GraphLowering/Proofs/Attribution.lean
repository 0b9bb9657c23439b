import GraphLowering.Proofs.Defaults.Reports
import GraphLowering.Proofs.Lowering.Reports
import GraphLowering.Proofs.Units
import GraphLowering.World

/-!
# Attribution — diagnostics name their source

A unit is emitted with a sink that stands at it from the start.  Its functions are lowered in turn
(`ScriptUnit.loweringOrder`), each of them statement by statement, and the constructor or the
function for a struct's default comes last.

* `ScriptUnit.Reports`: functions lowered in turn, with what each of them reported.
* `ScriptUnit.emit_reports`: what a unit reports, part by part.
* `diagnostics_attributed`: every diagnostic is placed at the part that was being written.
-/

namespace GraphLowering

namespace ScriptUnit

variable {comments : CommentOptions} {cx : Context} {sink sink' : Sink} {u : ScriptUnit}

/-- The functions in the order in which they are lowered, the event graph before all others. -/
def loweringOrder (u : ScriptUnit) : List FunctionGraph :=
  match splitAtFirst (·.isEventGraph) u.functions with
  | (before, []) => before
  | (before, event :: after) => event :: (before ++ after)

theorem append_splitAtFirst {α : Type} (p : α → Bool) (xs : List α) :
    (splitAtFirst p xs).1 ++ (splitAtFirst p xs).2 = xs :=
  List.takeWhile_append_dropWhile

/-- What functions reported, each of them statement by statement. -/
abbrev ReportList := List (FunctionGraph × List (StmtId × List Diagnostic))

/-- Functions lowered in turn from a sink, with what was reported while each of them was. -/
inductive Reports (comments : CommentOptions) (cx : Context) : Sink → ReportList → Sink → Prop
  | nil (sink : Sink) : Reports comments cx sink [] sink
  | cons {sink sink' : Sink} {g : FunctionGraph} {resumeStates : Option StateMap}
      {f : LoweredFunction} {s : Lowering.State} {rs : List (StmtId × List Diagnostic)}
      {rest : ReportList} (h : lowerFunction comments cx g resumeStates sink = (.ok f, s))
      (hrs : FunctionReports comments cx g resumeStates sink s.sink rs)
      (hrest : Reports comments cx s.sink rest sink') :
      Reports comments cx sink ((g, rs) :: rest) sink'

namespace Reports

variable {rs rs' : ReportList} {sink'' : Sink}

theorem trans (h : Reports comments cx sink rs sink') (h' : Reports comments cx sink' rs' sink'') :
    Reports comments cx sink (rs ++ rs') sink'' := by
  induction h with
  | nil _ => exact h'
  | cons hrun hrs _ ih => exact .cons hrun hrs (ih h')

/-- The unit stays the same. -/
theorem origin_unit (h : Reports comments cx sink rs sink') :
    sink'.origin.unit = sink.origin.unit := by
  induction h with
  | nil _ => rfl
  | cons hrun _ _ ih => rw [ih, (lowerFunction_reports hrun).1]

theorem diagnostics (h : Reports comments cx sink rs sink') :
    sink'.diagnostics = sink.diagnostics ++ rs.flatMap fun r => r.2.flatMap Prod.snd := by
  induction h with
  | nil _ => simp
  | cons _ hrs _ ih => rw [ih, hrs.diagnostics, List.flatMap_cons, List.append_assoc]

/-- Each function reports at its own statements, in their order. -/
theorem placed (h : Reports comments cx sink rs sink') :
    ∀ r ∈ rs, r.2.map Prod.fst = r.1.order ∧
      ∀ x ∈ r.2, Lowering.Placed r.1 sink.origin.unit (some r.1.name) x := by
  induction h with
  | nil _ => simp
  | cons hrun hrs _ ih =>
      rw [(lowerFunction_reports hrun).1] at ih
      intro r hr
      rcases List.mem_cons.mp hr with rfl | hr
      · exact ⟨hrs.statements, hrs.placed⟩
      · exact ih r hr

end Reports

theorem lowerAll_reports {fs : List FunctionGraph} {resumeStates resumeStates' : Option StateMap}
    {ls : List LoweredFunction}
    (h : lowerAll comments cx fs resumeStates sink = .ok (ls, resumeStates', sink')) :
    ∃ rs : ReportList, rs.map Prod.fst = fs ∧ Reports comments cx sink rs sink' := by
  induction fs generalizing resumeStates sink ls with
  | nil =>
      cases h
      exact ⟨[], rfl, .nil _⟩
  | cons g fs ih =>
      obtain ⟨l, s, others, hl, hothers, rfl⟩ := lowerAll_cons_ok h
      obtain ⟨-, rs, hrs⟩ := lowerFunction_reports hl
      obtain ⟨rest, rfl, hrest⟩ := ih hothers
      exact ⟨(g, rs) :: rest, rfl, .cons hl hrs hrest⟩

/-- How the functions of a unit are lowered: in turn if none is the event graph, and else behind the
event graph, whose states are exchanged at the end. -/
theorem lowerBodies_cases {bodies : List LoweredFunction}
    (h : u.lowerBodies comments cx sink = .ok (bodies, sink')) :
    (∃ states, u.loweringOrder = u.functions ∧
      lowerAll comments cx u.functions none sink = .ok (bodies, states, sink')) ∨
    ∃ before event after lowered s first states₁ sink₁ last states₂,
      u.functions = before ++ event :: after ∧ u.loweringOrder = event :: (before ++ after) ∧
      lowerFunction comments cx event none sink = (.ok lowered, s) ∧
      lowerAll comments cx before (some lowered.states) s.sink = .ok (first, states₁, sink₁) ∧
      lowerAll comments cx after states₁ sink₁ = .ok (last, states₂, sink') ∧
      bodies = first ++ { lowered with states := states₂.getD lowered.states } :: last := by
  have hfunctions := append_splitAtFirst (·.isEventGraph) u.functions
  unfold lowerBodies at h
  unfold loweringOrder
  split at h
  rename_i before rest hsplit
  rw [hsplit] at hfunctions ⊢
  cases rest with
  | nil =>
      obtain ⟨⟨lowered, states, sink₁⟩, hall, h⟩ := Lookup.of_bind_ok h
      cases h
      rw [← hfunctions, List.append_nil]
      exact .inl ⟨states, rfl, hall⟩
  | cons event after =>
      obtain ⟨lowered, hevent, h⟩ := Lookup.of_bind_ok h
      obtain ⟨⟨first, states₁, sink₁⟩, hfirst, h⟩ := Lookup.of_bind_ok h
      obtain ⟨⟨last, states₂, sink₂⟩, hlast, h⟩ := Lookup.of_bind_ok h
      cases h
      exact .inr ⟨before, event, after, lowered, _, first, states₁, sink₁, last, states₂,
        hfunctions.symm, rfl, Prod.ext hevent rfl, hfirst, hlast, rfl⟩

/-- The bodies of a unit are lowered in turn. -/
theorem lowerBodies_reports {bodies : List LoweredFunction}
    (h : u.lowerBodies comments cx sink = .ok (bodies, sink')) :
    ∃ rs : ReportList, rs.map Prod.fst = u.loweringOrder ∧ Reports comments cx sink rs sink' := by
  rcases lowerBodies_cases h with ⟨states, horder, hall⟩ | ⟨before, event, after, lowered, s, first,
    states₁, sink₁, last, states₂, -, horder, hrun, hfirst, hlast, -⟩
  · rw [horder]
    exact lowerAll_reports hall
  · obtain ⟨-, rs, hrs⟩ := lowerFunction_reports hrun
    obtain ⟨rsFirst, rfl, hreportsFirst⟩ := lowerAll_reports hfirst
    obtain ⟨rsLast, rfl, hreportsLast⟩ := lowerAll_reports hlast
    rw [horder]
    exact ⟨(event, rs) :: (rsFirst ++ rsLast), by simp,
      .cons hrun hrs (hreportsFirst.trans hreportsLast)⟩

/-! ### Units -/

/-- What the constructor of a class, or the function for the default of a struct, reports from a
sink. -/
def OwnReports (cx : Context) (sink : Sink) (ds : List Diagnostic) : TypeKind → Prop
  | .classType => ∃ code sink', Defaults.constructorCode cx sink = .ok (code, sink') ∧
      sink'.diagnostics = sink.diagnostics ++ ds
  | .structType => ∃ code sink', Defaults.structFactoryCode cx cx.unit sink = .ok (code, sink') ∧
      sink'.diagnostics = sink.diagnostics ++ ds
  | .enumType | .interfaceType => ds = []

/-- It reports where the sink stands, and nothing fatal. -/
theorem OwnReports.gains {kind : TypeKind} {ds : List Diagnostic}
    (h : OwnReports cx sink ds kind) : ∃ sink', sink.Gains sink' [] ds := by
  have hcancel : ∀ {sink' : Sink} {es : List Diagnostic}, sink.Gains sink' [] es →
      sink'.diagnostics = sink.diagnostics ++ ds → ∃ sink', sink.Gains sink' [] ds := by
    intro sink' es hes hds
    obtain rfl : ds = es := List.append_cancel_left (hds.symm.trans hes.diagnostics)
    exact ⟨sink', hes⟩
  cases kind with
  | classType =>
      obtain ⟨code, sink', hcode, hds⟩ := h
      obtain ⟨es, hes⟩ := Defaults.constructorCode_gains hcode
      exact hcancel hes hds
  | structType =>
      obtain ⟨code, sink', hcode, hds⟩ := h
      obtain ⟨es, hes⟩ := Defaults.structFactoryCode_gains hcode
      exact hcancel hes hds
  | enumType | interfaceType =>
      cases h
      exact ⟨sink, .refl sink⟩

/-- The sink of a class is the one behind its constructor. -/
theorem classImplementation_sink {deps : Dependencies} {bodies : List LoweredFunction}
    {code : List Code} (h : classImplementation cx u deps bodies sink = .ok (code, sink')) :
    ∃ constructor, Defaults.constructorCode cx (sink.enterFunction none) =
      .ok (constructor, sink') := by
  obtain ⟨name, -, h⟩ := Lookup.of_bind_ok h
  obtain ⟨includes, -, h⟩ := Lookup.of_bind_ok h
  obtain ⟨⟨constructor, sink₁⟩, hconstructor, h⟩ := Lookup.of_bind_ok h
  obtain ⟨replication, -, h⟩ := Lookup.of_bind_ok h
  obtain ⟨functions, -, h⟩ := Lookup.of_bind_ok h
  cases h
  exact ⟨constructor, hconstructor⟩

/-- The sink of a struct is the one behind the function for its default. -/
theorem structDeclaration_sink {deps : Dependencies} {code : List Code}
    (h : structDeclaration cx deps sink = .ok (code, sink')) :
    ∃ factory, Defaults.structFactoryCode cx cx.unit sink = .ok (factory, sink') := by
  obtain ⟨t, -, h⟩ := Lookup.of_bind_ok h
  obtain ⟨header, -, h⟩ := Lookup.of_bind_ok h
  obtain ⟨implementation, -, h⟩ := Lookup.of_bind_ok h
  obtain ⟨prologue, -, h⟩ := Lookup.of_bind_ok h
  obtain ⟨name, -, h⟩ := Lookup.of_bind_ok h
  obtain ⟨fields, -, h⟩ := Lookup.of_bind_ok h
  obtain ⟨⟨factory, sink₁⟩, hfactory, h⟩ := Lookup.of_bind_ok h
  cases h
  exact ⟨factory, hfactory⟩

/-- **What a unit reports**: its functions in turn, if it is a class, and then what belongs to the
unit as a whole. -/
theorem emit_reports {source : UnitSource} (h : u.emit comments cx {} = .ok (source, sink)) :
    ∃ t rs own mid, cx.schema.type u.type = .ok t ∧
      rs.map Prod.fst = (if t.kind = .classType then u.loweringOrder else []) ∧
      Reports comments cx (({} : Sink).enterUnit t.name) rs mid ∧
      OwnReports cx (mid.enterFunction none) own t.kind ∧
      sink.diagnostics = mid.diagnostics ++ own := by
  obtain ⟨t, ht, h⟩ := Lookup.of_bind_ok h
  obtain ⟨deps, -, h⟩ := Lookup.of_bind_ok h
  obtain ⟨⟨declaration, implementation, sink₁⟩, hsource, h⟩ := Lookup.of_bind_ok h
  cases h
  refine ⟨t, ?_⟩
  have hnone : Reports comments cx (({} : Sink).enterUnit t.name) [] _ := .nil _
  unfold sourceCode at hsource
  cases hk : t.kind with
  | classType =>
      rw [hk] at hsource
      obtain ⟨⟨bodies, sink₂⟩, hbodies, hsource⟩ := Lookup.of_bind_ok hsource
      obtain ⟨_, -, hsource⟩ := Lookup.of_bind_ok hsource
      obtain ⟨⟨code, sink₃⟩, hcode, hsource⟩ := Lookup.of_bind_ok hsource
      cases hsource
      obtain ⟨rs, hfunctions, hreports⟩ := lowerBodies_reports hbodies
      obtain ⟨constructor, hconstructor⟩ := classImplementation_sink hcode
      obtain ⟨own, hown⟩ := Defaults.constructorCode_gains hconstructor
      exact ⟨rs, own, sink₂, ht, hfunctions, hreports,
        ⟨constructor, sink₁, hconstructor, hown.diagnostics⟩, hown.diagnostics⟩
  | structType =>
      rw [hk] at hsource
      obtain ⟨⟨code, sink₂⟩, hcode, hsource⟩ := Lookup.of_bind_ok hsource
      cases hsource
      obtain ⟨factory, hfactory⟩ := structDeclaration_sink hcode
      obtain ⟨own, hown⟩ := Defaults.structFactoryCode_gains hfactory
      exact ⟨[], own, _, ht, rfl, hnone, ⟨factory, sink₁, hfactory, hown.diagnostics⟩,
        hown.diagnostics⟩
  | enumType | interfaceType =>
      rw [hk] at hsource
      obtain ⟨code, -, hsource⟩ := Lookup.of_bind_ok hsource
      cases hsource
      exact ⟨[], [], _, ht, rfl, hnone, rfl, rfl⟩

end ScriptUnit

open ScriptUnit

/-- The diagnostics `ds` of a unit with the declaration `t`, each with its source: `rs` are those of
the functions, and `own` those of the unit as a whole. -/
structure Attributed (comments : CommentOptions) (cx : Context) (u : ScriptUnit) (t : TypeDecl)
    (rs : ReportList) (own ds : List Diagnostic) : Prop where
  /-- The functions of a class, the event graph before the others. -/
  functions : rs.map Prod.fst = if t.kind = .classType then u.loweringOrder else []
  /-- They are lowered in turn, and then the constructor or the default of the struct is written. -/
  run : ∃ sink, ScriptUnit.Reports comments cx (({} : Sink).enterUnit t.name) rs sink ∧
    OwnReports cx (sink.enterFunction none) own t.kind
  diagnostics : ds = (rs.flatMap fun r => r.2.flatMap Prod.snd) ++ own
  unit : ∀ d ∈ ds, d.origin.unit = some t.name
  /-- One entry for each scheduled statement, in their order. -/
  scheduled : ∀ r ∈ rs, r.2.map Prod.fst = r.1.order
  statement : ∀ r ∈ rs, ∀ x ∈ r.2, ∀ d ∈ x.2,
    d.origin = ⟨some t.name, some r.1.name, some x.1.index⟩
  whole : ∀ d ∈ own, d.origin = ⟨some t.name, none, none⟩

/-- **Every diagnostic is attributed to its source.**  The diagnostics of a unit that is emitted are
those of its functions, the event graph before the others, and then those of its constructor or of
the function for its default.  All of them name the unit.  Those of a function name it and the
scheduled statement that was being lowered, in the order of the statements; the last ones name
neither. -/
theorem diagnostics_attributed {comments : CommentOptions} {cx : Context} {u : ScriptUnit}
    {source : UnitSource} {sink : Sink} (h : u.emit comments cx {} = .ok (source, sink)) :
    ∃ t rs own, cx.schema.type u.type = .ok t ∧
      Attributed comments cx u t rs own sink.diagnostics := by
  obtain ⟨t, rs, own, mid, ht, hfunctions, hrun, hown, hall⟩ := emit_reports h
  have hunit : mid.origin.unit = some t.name := hrun.origin_unit
  have hstatement : ∀ r ∈ rs, ∀ x ∈ r.2, ∀ d ∈ x.2,
      d.origin = ⟨some t.name, some r.1.name, some x.1.index⟩ :=
    fun r hr x hx => ((hrun.placed r hr).2 x hx).1
  have hwhole : ∀ d ∈ own, d.origin = ⟨some t.name, none, none⟩ := by
    obtain ⟨_, hgains⟩ := hown.gains
    intro d hd
    rw [hgains.located d hd, ← hunit]
    rfl
  have hdiagnostics : sink.diagnostics = (rs.flatMap fun r => r.2.flatMap Prod.snd) ++ own := by
    rw [hall, hrun.diagnostics]
    rfl
  refine ⟨t, rs, own, ht, hfunctions, ⟨mid, hrun, hown⟩, hdiagnostics, ?_,
    fun r hr => (hrun.placed r hr).1, hstatement, hwhole⟩
  intro d hd
  rw [hdiagnostics] at hd
  rcases List.mem_append.mp hd with hd | hd
  · obtain ⟨r, hr, hd⟩ := List.mem_flatMap.mp hd
    obtain ⟨x, hx, hd⟩ := List.mem_flatMap.mp hd
    rw [hstatement r hr x hx d hd]
  · rw [hwhole d hd]

/-! ### A guard on watch -/

/-- A class with a private field that its default object sets. -/
def watchContext : Context :=
  let world := (World.build
    [.addClass "Guard" none, .addField ⟨0⟩ "Post" { category := .int },
      .changeField ⟨0⟩ [.flags (.single .isPrivate)],
      .addFunction ⟨0⟩ "Patrol", .addFunction ⟨0⟩ "Events",
      .addObject "Default__Guard" ⟨0⟩ (.package "/Game"), .setValue ⟨0⟩ ⟨0⟩ (.int 3),
      .changeType ⟨0⟩ [.defaultObject (some ⟨0⟩)]]).toOption.getD {}
  ⟨world.schema, world.objects, ⟨0⟩⟩

/-- An assignment of a nested statement that has no value, and an event graph whose statements are
not scheduled in the order of their numbers. -/
def watchUnit : ScriptUnit :=
  { type := ⟨0⟩
    functions := [
      { name := "Patrol"
        function := ⟨0⟩
        terms := #[{ kind := .inline ⟨0⟩, type := { category := .int } },
          { kind := .reference none, type := { category := .int }, name := "Steps" }]
        statements := #[{ kind := .returnStatement },
          { kind := .assign, lhs := some ⟨1⟩, rhs := [⟨0⟩] }]
        nodes := [[⟨1⟩]] },
      { name := "Events"
        function := ⟨1⟩
        isEventGraph := true
        statements := #[{ kind := .returnStatement }, { kind := .unconditionalGoto }]
        nodes := [[⟨1⟩], [⟨0⟩]] }] }

/-- The event graph comes first, with its statements as they are scheduled; the nested statement
stands for the assignment that it is part of; the private field belongs to no function. -/
theorem diagnostics_attributed_watch : ∃ source sink,
    watchUnit.emit {} watchContext {} = .ok (source, sink) ∧
    sink.diagnostics.map (fun d => (d.code, d.origin)) =
      [(.e5004, ⟨some "Guard", some "Events", some 1⟩),
        (.e5001, ⟨some "Guard", some "Events", some 0⟩),
        (.e5005, ⟨some "Guard", some "Patrol", some 1⟩), (.e5008, ⟨some "Guard", none, none⟩)] ∧
    ∃ t rs own, watchContext.schema.type watchUnit.type = .ok t ∧
      Attributed {} watchContext watchUnit t rs own sink.diagnostics :=
  ⟨_, _, rfl, by decide +kernel, diagnostics_attributed rfl⟩

end GraphLowering
