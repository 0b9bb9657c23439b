import GraphLowering.Proofs.Attribution
import GraphLowering.Proofs.Code.Lines
import GraphLowering.Proofs.Packages
import GraphLowering.Proofs.Text.Quoted

/-!
# Markers — fatal are the marked compile errors

A unit is unusable when a compile error was marked in a function of a class, and scheduled.  Each
time it is scheduled it is reported once, as the only kind of fatal diagnostic, and leaves a line
in the source on which the generated code fails to compile.

* `ScriptUnit.scheduledErrors`: the compile errors of a unit, in the order of lowering.
* `ScriptUnit.fatal_of_emit`: they are its fatal diagnostics.
* `ScriptUnit.emit_shows`: their lines stand in its implementation.
* `fatal_exactly_on_markers`: both, and what it means for a run over a package.
-/

namespace GraphLowering

open Dispatch (Chunk)

/-! ### Lines of markers -/

theorem getLast?_append {e : String} {c : Char} (h : e.toList.getLast? = some c) (start : String) :
    (start ++ e).toList.getLast? = some c := by
  rw [String.toList_append, List.getLast?_append, h, Option.some_or]

/-- The line of a marker is one line, whatever its message holds. -/
theorem oneLine_markerLine (message : String) : Text.OneLine (markerLine message) where
  newline := by
    unfold markerLine Text.quote
    simp only [String.toList_append, List.mem_append, not_or]
    exact ⟨⟨by decide +kernel, ⟨by decide +kernel, Text.not_mem_escape (by simp) message⟩,
      by decide +kernel⟩, by decide +kernel⟩
  carriage := by
    have hlast : (markerLine message).toList.getLast? = some 'r' :=
      getLast?_append (by decide +kernel) _
    rw [hlast]
    decide

/-- The lines of the compile errors that are scheduled in a graph. -/
def FunctionGraph.markerLines (g : FunctionGraph) : List String := g.markers.map markerLine

theorem FunctionGraph.oneLine_of_mem_markerLines (g : FunctionGraph) :
    ∀ l ∈ g.markerLines, Text.OneLine l := by
  intro l hl
  obtain ⟨message, -, rfl⟩ := List.mem_map.mp hl
  exact oneLine_markerLine message

/-! ### Bodies -/

theorem FunctionGraph.statement_of_marker? {g : FunctionGraph} {id : StmtId} {message : String}
    (h : g.marker? id = some message) :
    ∃ stmt, g.statement id = .ok stmt ∧ stmt.kind = .compileError message := by
  unfold FunctionGraph.marker? at h
  split at h
  · rename_i stmt hstmt
    refine ⟨stmt, hstmt, ?_⟩
    unfold StatementKind.marker? at h
    split at h
    · rename_i hk
      cases h
      exact hk
    · cases h
  · cases h

section

variable {comments : CommentOptions} {env : Lowering.Env} {f : LoweredFunction} {unit : String}

/-- The chunk of a marker is its line. -/
theorem IsLowered.code_of_marker? (h : IsLowered comments env f) {c : Chunk}
    (hc : c ∈ f.body.chunks) {message : String}
    (hm : env.graph.marker? c.statement = some message) :
    c.action.code = [.line (markerLine message)] := by
  obtain ⟨stmt, hstmt, hk⟩ := FunctionGraph.statement_of_marker? hm
  obtain ⟨s, t, hrun⟩ := (h.chunkOf_of_mem hc).code
  rw [Lowering.run_lowerStatement_marker hstmt hk] at hrun
  have haction : Dispatch.Action.plain [.line (markerLine message)] = c.action :=
    Except.ok.inj (Prod.mk.inj hrun).1
  rw [← haction]
  rfl

/-- The lines of the markers of a graph, statement by statement. -/
theorem FunctionGraph.markerLines_eq (g : FunctionGraph) : g.markerLines =
    g.order.flatMap fun id => ((g.marker? id).map markerLine).toList := by
  unfold markerLines markers
  induction g.order with
  | nil => rfl
  | cons id ids ih => cases hm : g.marker? id <;> simp [hm, ih]

/-- **The body of a function shows the lines of its markers.** -/
theorem IsLowered.shows (h : IsLowered comments env f) :
    Mark.Shows unit env.graph.markerLines f.body.marks := by
  rw [Dispatch.Body.marks_eq, FunctionGraph.markerLines_eq, ← h.statements, List.flatMap_map]
  refine Mark.Shows.between (.flatMap fun c hc => ?_) _ _
  change Mark.Shows unit _ (c.opening ++ Code.marksAll c.action.code)
  cases hm : env.graph.marker? c.statement with
  | none => exact .nil _
  | some message =>
      rw [h.code_of_marker? hc hm]
      exact (Mark.Shows.nil c.opening).append (.line (oneLine_markerLine message))

end

/-! ### Implementations -/

/-- What a body shows, the definition of its function shows. -/
theorem definitionCode_shows {cx : Context} {g : FunctionGraph} {lowered : LoweredFunction}
    {code : List Code} {unit : String} {es : List String} (hes : ∀ e ∈ es, Text.OneLine e)
    (hbody : Mark.Shows unit es lowered.body.marks)
    (h : definitionCode cx g lowered = .ok code) : Code.Shows unit es code := by
  obtain ⟨cls, -, h⟩ := Lookup.of_bind_ok h
  obtain ⟨signature, -, h⟩ := Lookup.of_bind_ok h
  obtain ⟨field, -, h⟩ := Lookup.of_bind_ok h
  obtain ⟨returned, -, h⟩ := Lookup.of_bind_ok h
  obtain ⟨results, -, h⟩ := Lookup.of_bind_ok h
  obtain ⟨locals, -, h⟩ := Lookup.of_bind_ok h
  cases h
  have hinside := Code.Shows.between (.relined hes hbody) (results ++ locals)
    (returned.map fun f => Code.line ("return " ++ f.name ++ ";"))
  simpa using (Code.Shows.nil [.line signature]).append hinside.braces

namespace ScriptUnit

variable {comments : CommentOptions} {cx : Context} {sink sink' : Sink} {u : ScriptUnit}
  {unit : String} {code : List Code} {bodies : List LoweredFunction}

theorem definitions_shows {fs : List FunctionGraph}
    (hbodies : List.Forall₂ (fun g l => Mark.Shows unit g.markerLines l.body.marks) fs bodies)
    (h : definitions cx (fs.zip bodies) = .ok code) :
    Code.Shows unit (fs.flatMap (·.markerLines)) code := by
  obtain ⟨texts, htexts, h⟩ := Lookup.of_bind_ok h
  cases h
  replace htexts := Lookup.of_mapM_ok htexts
  clear h
  induction hbodies generalizing texts with
  | nil =>
      cases htexts
      exact .nil _
  | @cons g l fs bodies hbody _ ih =>
      cases htexts with
      | cons htext hrest =>
          obtain ⟨definition, hdefinition, htext⟩ := Lookup.of_bind_ok htext
          cases htext
          have hlines := g.oneLine_of_mem_markerLines
          have hdefinition := definitionCode_shows hlines hbody hdefinition
          rw [List.flatMap_cons, List.flatten_cons]
          exact ((Code.Shows.nil [Code.blank]).append (.relined hlines hdefinition)).append
            (ih _ hrest)

/-- Functions lowered in turn keep to their graphs. -/
theorem lowerAll_isLowered {fs : List FunctionGraph} {resumeStates resumeStates' : Option StateMap}
    {ls : List LoweredFunction}
    (h : lowerAll comments cx fs resumeStates sink = .ok (ls, resumeStates', sink')) :
    List.Forall₂ (fun g l => IsLowered comments ⟨cx, g⟩ l) fs ls := by
  induction fs generalizing resumeStates sink ls with
  | nil =>
      cases h
      exact .nil
  | cons g fs ih =>
      obtain ⟨l, s, others, hl, hothers, rfl⟩ := lowerAll_cons_ok h
      exact .cons (lowerFunction_ok hl) (ih hothers)

/-- The bodies of a unit are those of its functions as they were lowered.  The states of the event
graph are exchanged later, its body is not. -/
theorem lowerBodies_isLowered (h : u.lowerBodies comments cx sink = .ok (bodies, sink')) :
    List.Forall₂ (fun g l => ∃ f, IsLowered comments ⟨cx, g⟩ f ∧ l.body = f.body)
      u.functions bodies := by
  have hall : ∀ {fs ls}, List.Forall₂ (fun g l => IsLowered comments ⟨cx, g⟩ l) fs ls →
      List.Forall₂ (fun g l => ∃ f, IsLowered comments ⟨cx, g⟩ f ∧ l.body = f.body) fs ls :=
    fun h => h.imp fun _ l hl => ⟨l, hl, rfl⟩
  rcases lowerBodies_cases h with ⟨states, -, hlowered⟩ | ⟨before, event, after, lowered, s, first,
    states₁, sink₁, last, states₂, hfunctions, -, hrun, hfirst, hlast, rfl⟩
  · exact hall (lowerAll_isLowered hlowered)
  · rw [hfunctions]
    exact List.rel_append (hall (lowerAll_isLowered hfirst))
      (.cons ⟨lowered, lowerFunction_ok hrun, rfl⟩ (hall (lowerAll_isLowered hlast)))

/-- The bodies of a unit show the lines of the markers of their functions. -/
theorem lowerBodies_shows (h : u.lowerBodies comments cx sink = .ok (bodies, sink')) :
    List.Forall₂ (fun g l => Mark.Shows unit g.markerLines l.body.marks) u.functions bodies :=
  (lowerBodies_isLowered h).imp fun _ _ ⟨_, hf, hbody⟩ => hbody ▸ hf.shows

/-- The source of a class: its declaration, and the definitions of its functions at the end of its
implementation. -/
theorem emit_class {source : UnitSource} {t : TypeDecl}
    (h : u.emit comments cx sink = .ok (source, sink')) (ht : cx.schema.type u.type = .ok t)
    (hk : t.kind = .classType) : ∃ deps bodies sink₁ sink₂ before functions,
      u.lowerBodies comments cx sink₁ = .ok (bodies, sink₂) ∧
      classDeclaration cx u deps = .ok source.declaration ∧
      definitions cx (u.functions.zip bodies) = .ok functions ∧
      source.implementation = some (before ++ functions) := by
  obtain ⟨t', ht', h⟩ := Lookup.of_bind_ok h
  obtain rfl : t' = t := Except.ok.inj (ht'.symm.trans ht)
  obtain ⟨deps, -, h⟩ := Lookup.of_bind_ok h
  obtain ⟨⟨declaration, implementation, sink₁⟩, hsource, h⟩ := Lookup.of_bind_ok h
  cases h
  unfold sourceCode at hsource
  rw [hk] at hsource
  obtain ⟨⟨bodies, sink₂⟩, hbodies, hsource⟩ := Lookup.of_bind_ok hsource
  obtain ⟨_, hdeclaration, hsource⟩ := Lookup.of_bind_ok hsource
  obtain ⟨⟨code, sink₃⟩, hcode, hsource⟩ := Lookup.of_bind_ok hsource
  cases hsource
  obtain ⟨name, -, hcode⟩ := Lookup.of_bind_ok hcode
  obtain ⟨includes, -, hcode⟩ := Lookup.of_bind_ok hcode
  obtain ⟨⟨constructor, sink₄⟩, -, hcode⟩ := Lookup.of_bind_ok hcode
  obtain ⟨replication, -, hcode⟩ := Lookup.of_bind_ok hcode
  obtain ⟨functions, hfunctions, hcode⟩ := Lookup.of_bind_ok hcode
  cases hcode
  exact ⟨deps, bodies, _, sink₂, _, functions, hbodies, hdeclaration, hfunctions, rfl⟩

/-- **The implementation of a class shows the lines of its markers**, function by function. -/
theorem emit_shows {source : UnitSource} {t : TypeDecl}
    (h : u.emit comments cx {} = .ok (source, sink)) (ht : cx.schema.type u.type = .ok t)
    (hk : t.kind = .classType) (unit : String) :
    ∃ text, (source.render unit).implementation = some text ∧
      Text.EndsLines (u.functions.flatMap (·.markerLines)) text := by
  obtain ⟨_, bodies, _, _, before, functions, hbodies, -, hfunctions, himplementation⟩ :=
    emit_class h ht hk
  refine ⟨Code.render unit (before ++ functions), by simp [UnitSource.render, himplementation],
    Code.Shows.render ?_⟩
  exact (Code.Shows.nil before).append (definitions_shows (lowerBodies_shows hbodies) hfunctions)

/-! ### Fatal diagnostics -/

/-- What is fatal among diagnostics, without the places. -/
def fatalProblems (ds : List Diagnostic) : List Problem :=
  (ds.filter (·.isFatal)).map (·.problem)

theorem fatalProblems_append (ds es : List Diagnostic) :
    fatalProblems (ds ++ es) = fatalProblems ds ++ fatalProblems es := by
  simp [fatalProblems]

/-- A function that is lowered reports the compile errors that are scheduled in it. -/
theorem fatalProblems_of_placed {g : FunctionGraph} {unitName name : Option String}
    {rs : List (StmtId × List Diagnostic)} (hids : rs.map Prod.fst = g.order)
    (hplaced : ∀ r ∈ rs, Lowering.Placed g unitName name r) :
    fatalProblems (rs.flatMap Prod.snd) = g.markers.map .compileErrorMarker := by
  unfold FunctionGraph.markers
  rw [← hids]
  clear hids
  induction rs with
  | nil => rfl
  | cons r rs ih =>
      have hfatal : fatalProblems r.2 = (g.marker? r.1).toList.map .compileErrorMarker := by
        rw [fatalProblems, (hplaced r List.mem_cons_self).2, List.map_map]
        rfl
      rw [List.flatMap_cons, fatalProblems_append, hfatal,
        ih fun r hr => hplaced r (List.mem_cons_of_mem _ hr)]
      cases hm : g.marker? r.1 <;> simp [hm]

/-- The compile errors that are scheduled in a unit, in the order in which they are lowered; only
the functions of a class are. -/
def scheduledErrors (schema : Schema) (u : ScriptUnit) : List String :=
  match schema.type u.type with
  | .ok t => if t.kind = .classType then u.loweringOrder.flatMap (·.markers) else []
  | .error _ => []

theorem scheduledErrors_of_type {schema : Schema} {t : TypeDecl}
    (ht : schema.type u.type = .ok t) : u.scheduledErrors schema =
      if t.kind = .classType then u.loweringOrder.flatMap (·.markers) else [] := by
  unfold scheduledErrors
  rw [ht]

theorem Reports.fatalProblems {rs : ReportList} (h : Reports comments cx sink rs sink') :
    fatalProblems (rs.flatMap fun r => r.2.flatMap Prod.snd) =
      ((rs.map Prod.fst).flatMap (·.markers)).map .compileErrorMarker := by
  have hplaced := h.placed
  clear h
  induction rs with
  | nil => rfl
  | cons r rs ih =>
      obtain ⟨hids, hr⟩ := hplaced r List.mem_cons_self
      rw [List.flatMap_cons, fatalProblems_append, fatalProblems_of_placed hids hr,
        ih fun r hr => hplaced r (List.mem_cons_of_mem _ hr), List.map_cons, List.flatMap_cons,
        List.map_append]

/-- **The fatal diagnostics of a unit are the compile errors that are scheduled in it.** -/
theorem fatal_of_emit {source : UnitSource} (h : u.emit comments cx {} = .ok (source, sink)) :
    fatalProblems sink.diagnostics =
      (u.scheduledErrors cx.schema).map .compileErrorMarker := by
  obtain ⟨t, rs, own, mid, ht, hfunctions, hrun, hown, hall⟩ := emit_reports h
  obtain ⟨_, hgains⟩ := hown.gains
  have hmild : fatalProblems own = [] := by
    rw [fatalProblems, hgains.fatal]
    rfl
  have hmid : mid.diagnostics = rs.flatMap fun r => r.2.flatMap Prod.snd := hrun.diagnostics
  rw [hall, fatalProblems_append, hmild, List.append_nil, hmid, hrun.fatalProblems, hfunctions,
    scheduledErrors_of_type ht]
  split <;> rfl

/-- The functions are lowered once each. -/
theorem loweringOrder_perm (u : ScriptUnit) : u.loweringOrder.Perm u.functions := by
  have hall := append_splitAtFirst (·.isEventGraph) u.functions
  unfold loweringOrder
  generalize splitAtFirst (·.isEventGraph) u.functions = parts at hall
  obtain ⟨before, rest⟩ := parts
  rw [← hall]
  cases rest with
  | nil => rw [List.append_nil]
  | cons event after => exact List.perm_middle.symm

theorem length_fatalProblems (sink : Sink) :
    (fatalProblems sink.diagnostics).length = sink.count .fatal := by
  rw [fatalProblems, List.length_map, Sink.count, List.countP_eq_length_filter]
  rfl

/-- The number of fatal diagnostics, over the functions of the unit. -/
theorem count_fatal_of_emit {source : UnitSource} {t : TypeDecl}
    (h : u.emit comments cx {} = .ok (source, sink)) (ht : cx.schema.type u.type = .ok t) :
    sink.count .fatal =
      if t.kind = .classType then (u.functions.map fun g => g.markers.length).sum else 0 := by
  rw [← length_fatalProblems, fatal_of_emit h, List.length_map, scheduledErrors_of_type ht]
  split
  · rw [List.length_flatMap]
    exact (u.loweringOrder_perm.map _).sum_nat
  · rfl

/-- The first fatal diagnostic is the first compile error that is lowered. -/
theorem find?_isFatal_of_emit {source : UnitSource}
    (h : u.emit comments cx {} = .ok (source, sink)) :
    (sink.diagnostics.find? (·.isFatal)).map (·.problem) =
      (u.scheduledErrors cx.schema).head?.map .compileErrorMarker := by
  rw [← List.head?_filter, ← List.head?_map, ← List.head?_map, ← fatal_of_emit h]
  rfl

end ScriptUnit

/-! ### Packages -/

namespace Package

variable {p : Package} {options : CompileOptions} {u : ScriptUnit} {r : CompiledUnit}

/-- A unit that is emitted by itself has a fatal diagnostic if a compile error is scheduled, and
its message is that of the first. -/
theorem find?_isFatal_of_emitAlone (h : p.emitAlone options u = .ok r) :
    (r.diagnostics.find? (·.isFatal)).map (·.message) =
      (u.scheduledErrors p.schema).head?.map ("compile error: " ++ ·) := by
  obtain ⟨⟨source, sink⟩, hemit, h⟩ := Lookup.of_bind_ok h
  cases h
  have hproblem := ScriptUnit.find?_isFatal_of_emit hemit
  have hmessage := congrArg (Option.map Problem.message) hproblem
  rw [Option.map_map, Option.map_map] at hmessage
  refine hmessage.trans (congrArg (Option.map · _) ?_)
  funext message
  exact rfl

theorem hasFatal_of_emitAlone (h : p.emitAlone options u = .ok r) :
    r.hasFatal = false ↔ u.scheduledErrors p.schema = [] := by
  rw [CompiledUnit.hasFatal_eq_false_iff, ← Option.map_eq_none_iff (f := fun d => d.message),
    find?_isFatal_of_emitAlone h, Option.map_eq_none_iff, List.head?_eq_none_iff]

/-- Without a limit, a run goes past a unit in which no compile error is scheduled. -/
theorem compileFrom_of_no_errors {errors : Nat} {units : List ScriptUnit}
    (hlimit : options.errorLimit = none) (h : p.emitAlone options u = .ok r)
    (hnone : u.scheduledErrors p.schema = []) :
    p.compileFrom options errors (u :: units) =
      return r :: (← p.compileFrom options (errors + r.errorCount) units) := by
  have hpass : ∀ e, ¬ FailsAt options errors [r] 0 e := by
    intro e he
    cases he with
    | fatal hr _ hd =>
        cases hr
        rw [CompiledUnit.hasFatal_eq_false_iff.mp ((hasFatal_of_emitAlone h).mpr hnone)] at hd
        cases hd
    | limit _ _ hsome _ _ =>
        rw [hlimit] at hsome
        cases hsome
  exact compileFrom_of_passes h hpass

/-- It goes past any number of them. -/
theorem compileFrom_append {before : List ScriptUnit} (hlimit : options.errorLimit = none)
    (hemit : ∀ u ∈ before, ∃ r, p.emitAlone options u = .ok r)
    (hnone : ∀ u ∈ before, u.scheduledErrors p.schema = []) (errors : Nat) :
    ∃ rs total, ∀ units, p.compileFrom options errors (before ++ units) =
      return rs ++ (← p.compileFrom options total units) := by
  induction before generalizing errors with
  | nil =>
      refine ⟨[], errors, fun units => ?_⟩
      rw [List.nil_append]
      cases p.compileFrom options errors units <;> rfl
  | cons u before ih =>
      obtain ⟨r, hr⟩ := hemit u List.mem_cons_self
      obtain ⟨rs, total, hrest⟩ := ih (fun v hv => hemit v (List.mem_cons_of_mem _ hv))
        (fun v hv => hnone v (List.mem_cons_of_mem _ hv)) (errors + r.errorCount)
      refine ⟨r :: rs, total, fun units => ?_⟩
      rw [List.cons_append, compileFrom_of_no_errors hlimit hr (hnone u List.mem_cons_self), hrest]
      cases p.compileFrom options total units <;> rfl

/-- It fails at the first unit in which one is scheduled, if fatal diagnostics are to stop it. -/
theorem compile_of_first_error {before after : List ScriptUnit} {message : String}
    {later : List String} (hasked : options.failOnFatal = true)
    (hlimit : options.errorLimit = none)
    (hemit : ∀ u ∈ p.units, ∃ r, p.emitAlone options u = .ok r)
    (hunits : p.units = before ++ u :: after)
    (hbefore : ∀ v ∈ before, v.scheduledErrors p.schema = [])
    (hu : u.scheduledErrors p.schema = message :: later) :
    ∃ name, p.schema.typeName u.type = .ok name ∧
      p.compile options = .error (.fatal name ("compile error: " ++ message)) := by
  rw [hunits] at hemit
  obtain ⟨r, hr⟩ := hemit u (List.mem_append_right _ List.mem_cons_self)
  obtain ⟨rs, total, hrun⟩ := compileFrom_append hlimit
    (fun v hv => hemit v (List.mem_append_left _ hv)) hbefore 0
  have hfirst := find?_isFatal_of_emitAlone hr
  rw [hu] at hfirst
  obtain ⟨d, hd, hmessage⟩ := Option.map_eq_some_iff.mp hfirst
  have hfails : FailsAt options total [r] 0 (.fatal r.output.name d.message) := .fatal rfl hasked hd
  refine ⟨r.output.name, typeName_of_emitAlone hr, ?_⟩
  rw [compile, hunits, hrun, compileFrom_of_failsAt hr hfails, hmessage]
  rfl

/-- It does not fail if there is none. -/
theorem compile_of_no_errors (hlimit : options.errorLimit = none)
    (hemit : ∀ u ∈ p.units, ∃ r, p.emitAlone options u = .ok r)
    (hnone : ∀ u ∈ p.units, u.scheduledErrors p.schema = []) : ∃ c, p.compile options = .ok c := by
  obtain ⟨rs, total, hrun⟩ := compileFrom_append hlimit hemit hnone 0
  have hall := hrun []
  rw [List.append_nil] at hall
  rw [compile, hall]
  exact ⟨_, rfl⟩

theorem compile_fails_iff (hasked : options.failOnFatal = true) (hlimit : options.errorLimit = none)
    (hemit : ∀ u ∈ p.units, ∃ r, p.emitAlone options u = .ok r) :
    (∃ e, p.compile options = .error e) ↔ ∃ u ∈ p.units, u.scheduledErrors p.schema ≠ [] := by
  constructor
  · rintro ⟨e, he⟩
    refine Classical.byContradiction fun hnone => ?_
    obtain ⟨c, hc⟩ := compile_of_no_errors hlimit hemit
      fun u hu => Classical.not_not.mp fun hne => hnone ⟨u, hu, hne⟩
    rw [hc] at he
    cases he
  · rintro ⟨u, hu, hne⟩
    have hsome : (p.units.find? (·.scheduledErrors p.schema ≠ [])).isSome :=
      List.find?_isSome.mpr ⟨u, hu, by simpa using hne⟩
    obtain ⟨first, hfirst⟩ := Option.isSome_iff_exists.mp hsome
    obtain ⟨hne, before, after, hunits, hbefore⟩ := List.find?_eq_some_iff_append.mp hfirst
    obtain ⟨message, later, herrors⟩ := List.exists_cons_of_ne_nil (by simpa using hne)
    obtain ⟨name, -, hfails⟩ := compile_of_first_error hasked hlimit hemit hunits
      (fun v hv => by simpa using hbefore v hv) herrors
    exact ⟨_, hfails⟩

end Package

/-! ### Exactly the markers -/

/-- **A unit has one fatal diagnostic each time that a compile error is scheduled in a function of a
class, and no other**; its lines stand in the implementation.  A run that stops at fatal diagnostics
and at nothing else fails if and only if one is scheduled in some unit, and then it names the first
such unit and the message that is lowered first there. -/
theorem fatal_exactly_on_markers :
    (∀ {comments : CommentOptions} {cx : Context} {u : ScriptUnit} {source : UnitSource}
      {sink : Sink}, u.emit comments cx {} = .ok (source, sink) →
      ∃ t, cx.schema.type u.type = .ok t ∧
        sink.count .fatal =
          (if t.kind = .classType then (u.functions.map fun g => g.markers.length).sum else 0) ∧
        (t.kind = .classType → ∀ unit, ∃ text, (source.render unit).implementation = some text ∧
          Text.EndsLines (u.functions.flatMap (·.markerLines)) text)) ∧
    ∀ {p : Package} {options : CompileOptions}, options.failOnFatal = true →
      options.errorLimit = none → (∀ u ∈ p.units, ∃ r, p.emitAlone options u = .ok r) →
      ((∃ e, p.compile options = .error e) ↔ ∃ u ∈ p.units, u.scheduledErrors p.schema ≠ []) ∧
      ∀ {before u after message later}, p.units = before ++ u :: after →
        (∀ v ∈ before, v.scheduledErrors p.schema = []) →
        u.scheduledErrors p.schema = message :: later →
        ∃ name, p.schema.typeName u.type = .ok name ∧
          p.compile options = .error (.fatal name ("compile error: " ++ message)) := by
  refine ⟨fun h => ?_, fun hasked hlimit hemit => ⟨?_, fun hunits hbefore hu => ?_⟩⟩
  · obtain ⟨t, _, _, _, ht, -⟩ := ScriptUnit.emit_reports h
    exact ⟨t, ht, ScriptUnit.count_fatal_of_emit h ht, ScriptUnit.emit_shows h ht⟩
  · exact Package.compile_fails_iff hasked hlimit hemit
  · exact Package.compile_of_first_error hasked hlimit hemit hunits hbefore hu

/-! ### An alarm -/

/-- A function of one marker, scheduled a number of times. -/
def alarmGraph (name message : String) (function : FunctionId) (times : Nat) : FunctionGraph :=
  { name, function, statements := #[{ kind := .compileError message }]
    nodes := List.replicate times [⟨0⟩] }

/-- A class whose second function is its event graph. -/
def alarmUnit : ScriptUnit :=
  ⟨⟨2⟩, [alarmGraph "Ring" "Broken" ⟨0⟩ 1,
    { alarmGraph "Events" "Cut" ⟨1⟩ 2 with isEventGraph := true }]⟩

/-- Before the alarm, a class whose marker is not scheduled and an enum. -/
def alarmPackage : Package :=
  let world := (World.build [.addClass "Guard" none, .addEnum "Mood" ["Calm"],
    .addClass "Alarm" none, .addFunction ⟨2⟩ "Ring", .addFunction ⟨2⟩ "Events"]).toOption.getD {}
  ⟨world.schema, world.objects, [⟨⟨0⟩, [alarmGraph "Patrol" "Unseen" ⟨0⟩ 0]⟩,
    ⟨⟨1⟩, [alarmGraph "Change" "Unheard" ⟨0⟩ 1]⟩, alarmUnit]⟩

/-- What is not scheduled, or not in a class, is no failure.  The run names the message of the event
graph, which is lowered first, while its lines stand behind that of the first function. -/
theorem fatal_exactly_on_markers_alarm : ∃ source sink text,
    alarmUnit.emit {} ⟨alarmPackage.schema, alarmPackage.objects, ⟨2⟩⟩ {} = .ok (source, sink) ∧
      sink.count .fatal = 3 ∧ (source.render "    ").implementation = some text ∧
      Text.EndsLines ["static_assert(false, \"Broken\"); // CompileError",
        "static_assert(false, \"Cut\"); // CompileError",
        "static_assert(false, \"Cut\"); // CompileError"] text ∧
      alarmPackage.compile { failOnFatal := true } =
        .error (.fatal "Alarm" "compile error: Cut") := by
  obtain ⟨hunit, hrun⟩ := fatal_exactly_on_markers
  obtain ⟨source, sink, hok⟩ : ∃ source sink,
      alarmUnit.emit {} ⟨alarmPackage.schema, alarmPackage.objects, ⟨2⟩⟩ {} = .ok (source, sink) :=
    ⟨_, _, rfl⟩
  obtain ⟨t, ht, hcount, hlines⟩ := hunit hok
  have hclass : t.kind = .classType := Except.ok.inj ht ▸ rfl
  rw [if_pos hclass] at hcount
  obtain ⟨text, htext, hshown⟩ := hlines hclass "    "
  have hemit : ∀ u ∈ alarmPackage.units,
      ∃ r, alarmPackage.emitAlone { failOnFatal := true } u = .ok r :=
    List.forall_mem_cons.mpr ⟨⟨_, rfl⟩, List.forall_mem_cons.mpr ⟨⟨_, rfl⟩,
      List.forall_mem_singleton.mpr ⟨_, rfl⟩⟩⟩
  have hbefore : ∀ u ∈ alarmPackage.units.take 2, u.scheduledErrors alarmPackage.schema = [] :=
    List.forall_mem_cons.mpr ⟨rfl, List.forall_mem_singleton.mpr rfl⟩
  have hfirst : alarmUnit.scheduledErrors alarmPackage.schema = ["Cut", "Cut", "Broken"] := rfl
  obtain ⟨name, hname, hfails⟩ := (hrun rfl rfl hemit).2 rfl hbefore hfirst
  obtain rfl : "Alarm" = name := Except.ok.inj hname
  exact ⟨source, sink, text, hok, hcount, htext, hshown, hfails⟩

end GraphLowering
