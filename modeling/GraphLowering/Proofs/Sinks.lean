import GraphLowering.Graph.Basic
import GraphLowering.Diagnostic

/-!
# Sinks — what a piece of work reports

A piece of work that leaves the sink where it stands reports all its problems there.  Fatal among
them are the marked compile errors alone, which come from statements of that kind.

* `Sink.Gains`: what was reported between two sinks that stand at the same place, and which
  compile errors are in it.
* `FunctionGraph.markers`: the compile errors that are scheduled in a graph.
-/

namespace GraphLowering

/-! ### Markers -/

/-- The message of a marked compile error. -/
def StatementKind.marker? : StatementKind → Option String
  | .compileError message => some message
  | _ => none

namespace FunctionGraph

/-- The compile error that a statement marks. -/
def marker? (g : FunctionGraph) (id : StmtId) : Option String :=
  match g.statement id with
  | .ok stmt => stmt.kind.marker?
  | .error _ => none

/-- The compile errors marked by scheduled statements, one for each time that one is scheduled. -/
def markers (g : FunctionGraph) : List String := g.order.filterMap g.marker?

theorem marker?_of_statement {g : FunctionGraph} {id : StmtId} {stmt : Statement}
    (h : g.statement id = .ok stmt) : g.marker? id = stmt.kind.marker? := by
  unfold marker?
  rw [h]

end FunctionGraph

/-! ### Reports at one place -/

/-- From `s` to `t`, `ds` was reported where `s` stands; fatal in it are the compile errors
`markers`. -/
structure Sink.Gains (s t : Sink) (markers : List String) (ds : List Diagnostic) : Prop where
  diagnostics : t.diagnostics = s.diagnostics ++ ds
  origin : t.origin = s.origin
  located : ∀ d ∈ ds, d.origin = s.origin
  fatal : ds.filter (·.isFatal) = markers.map fun message => ⟨.compileErrorMarker message, s.origin⟩

namespace Sink.Gains

variable {s t u : Sink} {ms ns : List String} {ds es : List Diagnostic}

theorem refl (s : Sink) : s.Gains s [] [] := ⟨by simp, rfl, by simp, rfl⟩

theorem report (s : Sink) {p : Problem} (hp : p.severity ≠ .fatal) :
    s.Gains (s.report p) [] [⟨p, s.origin⟩] :=
  ⟨rfl, rfl, by simp, by simp [Diagnostic.isFatal, Diagnostic.severity, hp]⟩

theorem marker (s : Sink) (message : String) :
    s.Gains (s.report (.compileErrorMarker message)) [message]
      [⟨.compileErrorMarker message, s.origin⟩] :=
  ⟨rfl, rfl, by simp, rfl⟩

theorem trans (h : s.Gains t ms ds) (h' : t.Gains u ns es) : s.Gains u (ms ++ ns) (ds ++ es) where
  diagnostics := by rw [h'.diagnostics, h.diagnostics, List.append_assoc]
  origin := h'.origin.trans h.origin
  located d hd := by
    rcases List.mem_append.mp hd with hd | hd
    · exact h.located d hd
    · exact (h'.located d hd).trans h.origin
  fatal := by rw [List.filter_append, h.fatal, h'.fatal, h.origin, List.map_append]

end Sink.Gains
end GraphLowering
