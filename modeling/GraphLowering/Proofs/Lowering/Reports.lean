import GraphLowering.Proofs.Lowering.Statements
import GraphLowering.Proofs.Sinks

/-!
# Lowering — what a statement reports

While a scheduled statement is lowered the sink stands at it, whatever nested statements and checks
are rendered on the way, so all that is reported is placed there.  Fatal is the marker of a compile
error alone, and no nested statement is lowered as one.

* `lowerStatement_gains`: this for one statement.
* `Reports`: scheduled statements lowered in turn, with what each of them reported.
* `lowerFunction_reports`: a function that is lowered reports in the order of its statements.
-/

namespace GraphLowering

open Dispatch (Action Chunk)

/-- The line that stands for a marked compile error. -/
def markerLine (message : String) : String :=
  "static_assert(false, " ++ Text.quote message ++ "); // CompileError"

namespace Lowering

variable {comments : CommentOptions} {env : Env} {id : StmtId} {s t u : State}

/-! ### One statement -/

/-- Nothing fatal was reported since `s`, and the sink has not moved. -/
def Mild (s t : State) : Prop := ∃ ds, s.sink.Gains t.sink [] ds

theorem Mild.of_sink (h : Mild s t) (hu : u.sink = t.sink) : Mild s u := by
  obtain ⟨ds, hds⟩ := h
  exact ⟨ds, hu ▸ hds⟩

theorem sink_resumeState (label : StmtId) (s : State) :
    ((resumeState label).run s).2.sink = s.sink := by
  cases h : s.resumeStates with
  | none => rw [run_resumeState_none h]; rfl
  | some m => rw [run_resumeState_some h]

/-- The steps inside a statement are mild. -/
theorem mild_innerClosed (s : State) (env : Env) :
    InnerClosed (fun u v => u = v ∧ Mild s u) env := by
  have hreport : ∀ p : Problem, p.severity ≠ .fatal →
      Respects (fun u v => u = v ∧ Mild s u) (report p) := by
    refine fun p hp => .of_keeps fun u h => ?_
    obtain ⟨ds, hds⟩ := h
    exact ⟨_, hds.trans (.report u.sink hp)⟩
  refine ⟨hreport, fun _ => .of_keeps fun u h => h.of_sink rfl,
    fun _ => .of_keeps fun u h => h.of_sink rfl, fun hr hs hf => ?_⟩
  exact callArguments_respects hreport (fun _ => .of_keeps fun u h => h.of_sink rfl) hr hs.operands
    (fun label _ => .of_keeps fun u h => h.of_sink (sink_resumeState label u)) hf

/-- A marked compile error is reported, and its line is written. -/
theorem run_lowerStatement_marker {stmt : Statement} {message : String}
    (hstmt : env.graph.statement id = .ok stmt) (hk : stmt.kind = .compileError message)
    (s : State) : (lowerStatement comments env id).run s =
      (.ok (.plain [.line (markerLine message)]),
        { s with sink := s.sink.report (.compileErrorMarker message) }) := by
  unfold lowerStatement Env.statement
  rw [hstmt, liftBind_ok, hk]
  rfl

/-- **What a statement reports is placed where the sink stands**, and fatal in it is the compile
error that it marks. -/
theorem lowerStatement_gains (hs : env.graph.UsesStatement id) {a : Action}
    (h : (lowerStatement comments env id).run s = (.ok a, t)) :
    ∃ ds, s.sink.Gains t.sink (env.graph.marker? id).toList ds := by
  obtain ⟨stmt, hstmt, -⟩ := run_liftBind_ok h
  have hmarker := FunctionGraph.marker?_of_statement (g := env.graph) hstmt
  cases hk : stmt.kind with
  | compileError message =>
      rw [run_lowerStatement_marker hstmt hk] at h
      cases h
      rw [hmarker, hk]
      exact ⟨_, .marker s.sink message⟩
  | _ =>
      have hmild : Mild s ((lowerStatement comments env id).run s).2 := by
        refine (lowerStatement_inner (mild_innerClosed s env) comments hs ?_).keeps
          ⟨[], .refl s.sink⟩
        intro stmt' message hstmt' hk'
        obtain rfl : stmt' = stmt := Except.ok.inj (hstmt'.symm.trans hstmt)
        rw [hk] at hk'
        cases hk'
      rw [hmarker, hk]
      rwa [h] at hmild

theorem sink_caseLabel {isLoop : Bool} {label : Option Int}
    (h : (caseLabel env isLoop id).run s = (.ok label, t)) : t.sink = s.sink := by
  unfold caseLabel at h
  split at h
  · obtain ⟨stmt, -, h⟩ := run_liftBind_ok h
    split at h
    · obtain ⟨n, v, hn, h⟩ := run_bind_ok h
      cases hn
      obtain ⟨-, rfl⟩ := run_pure_ok h
      rfl
    · exact (run_pure_ok h).2 ▸ rfl
  · exact (run_pure_ok h).2 ▸ rfl

/-- A chunk moves the sink to its statement first. -/
theorem lowerChunk_gains {isLoop : Bool} (hs : id ∈ env.graph.order) {c : Chunk}
    (h : (lowerChunk comments env isLoop id).run s = (.ok c, t)) :
    ∃ ds, (s.sink.enterStatement (some id.index)).Gains t.sink
      (env.graph.marker? id).toList ds := by
  obtain ⟨label, v, hlabel, h⟩ := run_bind_ok h
  obtain ⟨_, w, hat, h⟩ := run_bind_ok h
  obtain ⟨a, x, ha, h⟩ := run_bind_ok h
  obtain ⟨-, rfl⟩ := run_pure_ok h
  cases hat
  rw [← sink_caseLabel hlabel]
  exact lowerStatement_gains (.scheduled hs) ha

/-! ### Statements in turn -/

/-- Statements lowered in turn from `s` to `t`, with what was reported while each of them was. -/
inductive Reports (comments : CommentOptions) (env : Env) (isLoop : Bool) :
    State → List (StmtId × List Diagnostic) → State → Prop
  | nil (s : State) : Reports comments env isLoop s [] s
  | cons {s t u : State} {id : StmtId} {c : Chunk} {ds : List Diagnostic}
      {rest : List (StmtId × List Diagnostic)}
      (h : (lowerChunk comments env isLoop id).run s = (.ok c, t))
      (hds : t.sink.diagnostics = s.sink.diagnostics ++ ds)
      (hrest : Reports comments env isLoop t rest u) :
      Reports comments env isLoop s ((id, ds) :: rest) u

/-- What was reported stands at its statement, and fatal in it is the compile error that the
statement marks. -/
def Placed (g : FunctionGraph) (unit : Option String) (function : Option String)
    (r : StmtId × List Diagnostic) : Prop :=
  (∀ d ∈ r.2, d.origin = ⟨unit, function, some r.1.index⟩) ∧
    r.2.filter (·.isFatal) = (g.marker? r.1).toList.map fun message =>
      ⟨.compileErrorMarker message, ⟨unit, function, some r.1.index⟩⟩

/-- Statements lowered in turn report one after the other, each where it stands. -/
theorem mapM_lowerChunk_reports {isLoop : Bool} {ids : List StmtId}
    (hs : ∀ id ∈ ids, id ∈ env.graph.order) {cs : List Chunk}
    (h : (ids.mapM (lowerChunk comments env isLoop)).run s = (.ok cs, t)) :
    ∃ rs, rs.map Prod.fst = ids ∧ Reports comments env isLoop s rs t ∧
      t.sink.diagnostics = s.sink.diagnostics ++ rs.flatMap Prod.snd ∧
      t.sink.origin.unit = s.sink.origin.unit ∧
      t.sink.origin.function = s.sink.origin.function ∧
      ∀ r ∈ rs, Placed env.graph s.sink.origin.unit s.sink.origin.function r := by
  induction ids generalizing s cs with
  | nil =>
      obtain ⟨-, rfl⟩ := run_pure_ok h
      exact ⟨[], rfl, .nil _, by simp, rfl, rfl, by simp⟩
  | cons id ids ih =>
      rw [List.mapM_cons] at h
      obtain ⟨c, u, hc, h⟩ := run_bind_ok h
      obtain ⟨cs, v, hcs, h⟩ := run_bind_ok h
      obtain ⟨-, rfl⟩ := run_pure_ok h
      obtain ⟨ds, hds⟩ := lowerChunk_gains (hs id List.mem_cons_self) hc
      have horigin : u.sink.origin = ⟨s.sink.origin.unit, s.sink.origin.function, some id.index⟩ :=
        hds.origin
      obtain ⟨rs, rfl, hrun, hdiagnostics, hunit, hfunction, hplaced⟩ :=
        ih (fun i hi => hs i (List.mem_cons_of_mem _ hi)) hcs
      rw [horigin] at hunit hfunction hplaced
      refine ⟨(id, ds) :: rs, rfl, .cons hc hds.diagnostics hrun, ?_, hunit, hfunction, ?_⟩
      · have hfirst : u.sink.diagnostics = s.sink.diagnostics ++ ds := hds.diagnostics
        rw [hdiagnostics, hfirst, List.flatMap_cons, List.append_assoc]
      · intro r hr
        rcases List.mem_cons.mp hr with rfl | hr
        · exact ⟨hds.located, hds.fatal⟩
        · exact hplaced r hr

end Lowering

/-! ### Functions -/

/-- What was reported while a function was lowered from a sink: its statements in turn. -/
structure FunctionReports (comments : CommentOptions) (cx : Context) (g : FunctionGraph)
    (resumeStates : Option StateMap) (sink sink' : Sink) (rs : List (StmtId × List Diagnostic)) :
    Prop where
  statements : rs.map Prod.fst = g.order
  run : ∃ isLoop t, Lowering.Reports comments ⟨cx, g⟩ isLoop
    { sink := sink.enterFunction (some g.name), resumeStates } rs t ∧
    sink' = t.sink.enterStatement none
  diagnostics : sink'.diagnostics = sink.diagnostics ++ rs.flatMap Prod.snd
  placed : ∀ r ∈ rs, Lowering.Placed g sink.origin.unit (some g.name) r

theorem lowerFunction_reports {comments : CommentOptions} {cx : Context} {g : FunctionGraph}
    {resumeStates : Option StateMap} {sink : Sink} {f : LoweredFunction} {s : Lowering.State}
    (h : lowerFunction comments cx g resumeStates sink = (.ok f, s)) :
    s.sink.origin = ⟨sink.origin.unit, some g.name, none⟩ ∧
      ∃ rs, FunctionReports comments cx g resumeStates sink s.sink rs := by
  obtain ⟨usesFlowStack, -, h⟩ := run_liftBind_ok h
  obtain ⟨isLoop, -, h⟩ := run_liftBind_ok h
  obtain ⟨chunks, t, hchunks, h⟩ := run_bind_ok h
  cases h
  obtain ⟨rs, hids, hrun, hdiagnostics, hunit, hfunction, hplaced⟩ :=
    Lowering.mapM_lowerChunk_reports (fun _ hid => hid) hchunks
  refine ⟨?_, rs, hids, ⟨isLoop, t, hrun, rfl⟩, hdiagnostics, hplaced⟩
  change (⟨t.sink.origin.unit, t.sink.origin.function, none⟩ : Origin) = _
  rw [hunit, hfunction]
  rfl

end GraphLowering
