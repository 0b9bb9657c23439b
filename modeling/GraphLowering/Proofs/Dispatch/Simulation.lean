import GraphLowering.Proofs.Dispatch.Machines

/-!
# Dispatch — the loop does what the graph says

The dispatch loop of a lowered body and the walk through its graph execute the same statements in
the same order, and the loop is left where the walk stops (`loop_follows_walk`).

The two are kept together by `Simulates`.  A step of the loop is a step of the walk or brings the
loop nearer to the chunk that the walk stands at (`step_simulates`), so both runs, of any length,
pass through the same states.
-/

namespace GraphLowering

open Dispatch (Action Jump Chunk Body Control LoopState)
open FunctionGraph (entryNumber_eq_some_iff)

/-- The control of the loop is where the walk is, or on its way there. -/
inductive Aligned (b : Body) : Point → Control → Int → Prop
  | chunk {p : Nat} {k : Int} (hp : p < b.chunks.length) : Aligned b (.place p) (.chunk p) k
  | head {p : Nat} {k : Int} (hk : k ≠ exitState) (hcase : b.caseAt? k = some p)
      (hp : p < b.chunks.length) : Aligned b (.place p) .head k
  | test {p : Nat} {k : Int} (hk : k ≠ exitState) (hcase : b.caseAt? k = some p)
      (hp : p < b.chunks.length) : Aligned b (.place p) .test k
  | leaving : Aligned b .stopped .test exitState
  | left {k : Int} : Aligned b .stopped .out k
  | astrayHead {k : Int} (hk : k ≠ exitState) (hcase : b.caseAt? k = none) :
      Aligned b .nowhere .head k
  | astrayTest {k : Int} (hk : k ≠ exitState) (hcase : b.caseAt? k = none) :
      Aligned b .nowhere .test k
  | refused {k : Int} : Aligned b .nowhere .failed k

/-- The loop has executed what the walk has, stands where it stands, and has the states of its
statements on the stack. -/
structure Simulates (g : FunctionGraph) (m : StateMap) (b : Body) (w : WalkState) (l : LoopState) :
    Prop where
  executed : w.executed = l.executed
  stack : List.Forall₂ (fun t k => g.isEntry t = true ∧ m.get? t = some k) w.stack l.stack
  control : Aligned b w.point l.control l.current

/-- How many steps the loop is away from the next chunk. -/
def Dispatch.Control.distance : Control → Nat
  | .test => 2
  | .head => 1
  | .chunk _ | .out | .failed => 0

section

variable {comments : CommentOptions} {env : Lowering.Env} {f : LoweredFunction}

/-! ### Where a state leads -/

/-- The case of a state belongs to the jump target of that number. -/
theorem IsLowered.caseAt?_eq (hf : IsLowered comments env f) {k : Int} (hk : k ≠ entryState) :
    f.body.caseAt? k =
      env.graph.order.findIdx? (fun id => env.graph.entryNumber f.states id = some k) := by
  have hlabels : f.body.chunks.findIdx? (·.label = some k) =
      (f.body.chunks.map (·.label)).findIdx? (· = some k) := by
    rw [List.findIdx?_map]
    rfl
  rw [Body.caseAt?, if_neg hk, hlabels, hf.map_label, List.findIdx?_map]
  rfl

theorem IsLowered.aligned_pointOfState (hf : IsLowered comments env f)
    (hpos : 0 < f.body.chunks.length) (k : Int) :
    Aligned f.body (env.graph.pointOfState f.states k) .test k := by
  unfold FunctionGraph.pointOfState
  by_cases hentry : k = entryState
  · rw [if_pos hentry, hentry]
    exact .test (by decide) (if_pos rfl) hpos
  · rw [if_neg hentry]
    by_cases hexit : k = exitState
    · rw [if_pos hexit, hexit]
      exact .leaving
    · rw [if_neg hexit]
      have hcase := hf.caseAt?_eq hentry
      cases hfind : env.graph.order.findIdx? (fun id => env.graph.entryNumber f.states id = some k)
      with
      | none => exact .astrayTest hexit (hcase.trans hfind)
      | some p =>
          refine .test hexit (hcase.trans hfind) ?_
          obtain ⟨hp, -⟩ := List.findIdx?_eq_some_iff_getElem.mp hfind
          rwa [hf.chunks.length_eq] at hp

/-- A jump target is found by its number. -/
theorem pointOf_eq_pointOfState {g : FunctionGraph} {m : StateMap} (hsize : m.size < maxState)
    {t : StmtId} {k : Int} (ht : g.isEntry t = true) (hk : m.get? t = some k) :
    g.pointOf t = g.pointOfState m k := by
  have hpos := StateMap.pos_of_get? hk
  have hentry : k ≠ entryState := fun e => absurd (e ▸ hpos) (by decide)
  have hexit : k ≠ exitState := fun e => absurd (e ▸ hpos) (by decide)
  have hnumber : ∀ id, (id == t) = decide (g.entryNumber m id = some k) := by
    intro id
    rw [Bool.eq_iff_iff, beq_iff_eq, decide_eq_true_iff, entryNumber_eq_some_iff]
    constructor
    · rintro rfl
      exact ⟨ht, hk⟩
    · rintro ⟨-, hid⟩
      exact StateMap.get?_inj hsize hid hk
  unfold FunctionGraph.pointOf FunctionGraph.pointOfState
  rw [if_neg hentry, if_neg hexit, List.idxOf?, funext hnumber]

/-! ### One statement -/

variable {w : WalkState} {l : LoopState} {id : StmtId} {stmt : Statement} {p : Nat}

/-- Control runs off the end at no statement but the last. -/
theorem FunctionGraph.JumpsResolve.lt_length {g : FunctionGraph} (hg : g.JumpsResolve)
    (hid : g.order[p]? = some id) (hs : g.statement id = .ok stmt)
    (hk : stmt.kind ∉ [.unconditionalGoto, .computedGoto, .gotoReturn, .endOfThread]) :
    p + 1 < g.order.length := by
  obtain ⟨last, hlast, lastStmt, hlastStmt, hkind⟩ := hg.last
  rw [mem_toOption_statement] at hlastStmt
  obtain ⟨hp, -⟩ := List.getElem?_eq_some_iff.mp hid
  by_contra hlt
  have hlen : p = g.order.length - 1 := by omega
  rw [Option.mem_def, List.getLast?_eq_getElem?, ← hlen, hid] at hlast
  cases hlast
  rw [hs] at hlastStmt
  cases hlastStmt
  exact hk hkind

theorem next_simulates (hw : Simulates env.graph f.states f.body w l)
    (hp : p + 1 < f.body.chunks.length) :
    Simulates env.graph f.states f.body { w with point := .place (p + 1) }
      { l with control := .chunk (p + 1) } :=
  ⟨hw.executed, hw.stack, .chunk hp⟩

theorem stop_simulates (o : Oracle) (id : StmtId) (hw : Simulates env.graph f.states f.body w l) :
    Simulates env.graph f.states f.body { w with point := .stopped } (Jump.exit.take o id l) :=
  ⟨hw.executed, hw.stack, .leaving⟩

theorem goTo_simulates (hf : IsLowered comments env f) (hsize : f.states.size < maxState)
    (hpos : 0 < f.body.chunks.length) (o : Oracle) (id : StmtId)
    (hw : Simulates env.graph f.states f.body w l)
    {t : StmtId} {k : Int} (ht : stmt.target = some t) (he : env.graph.isEntry t = true)
    (hk : f.states.get? t = some k) :
    Simulates env.graph f.states f.body (env.graph.goTo stmt w) ((Jump.toState k).take o id l) := by
  refine ⟨hw.executed, hw.stack, ?_⟩
  have hpoint : (env.graph.goTo stmt w).point = env.graph.pointOfState f.states k := by
    rw [← pointOf_eq_pointOfState hsize he hk, FunctionGraph.goTo, ht]
    rfl
  rw [hpoint]
  exact hf.aligned_pointOfState hpos k

theorem popTo_simulates (hf : IsLowered comments env f) (hsize : f.states.size < maxState)
    (hpos : 0 < f.body.chunks.length) (o : Oracle) (id : StmtId)
    (hw : Simulates env.graph f.states f.body w l) :
    Simulates env.graph f.states f.body (env.graph.popTo w) (Jump.pop.take o id l) := by
  obtain ⟨point, stack, executed⟩ := w
  obtain ⟨control, current, states, done⟩ := l
  obtain ⟨hexecuted, hstack, -⟩ := hw
  cases hstack with
  | nil => exact ⟨hexecuted, .nil, .leaving⟩
  | cons hk hrest =>
      refine ⟨hexecuted, hrest, ?_⟩
      simp only [FunctionGraph.popTo, Jump.take]
      rw [pointOf_eq_pointOfState hsize hk.1 hk.2]
      exact hf.aligned_pointOfState hpos _

theorem computed_simulates (hf : IsLowered comments env f) (hpos : 0 < f.body.chunks.length)
    (o : Oracle) (id : StmtId) (hw : Simulates env.graph f.states f.body w l)
    (expression : String) :
    Simulates env.graph f.states f.body
      { w with point := env.graph.pointOfState f.states (o.value w.executed.length id) }
      ((Jump.computed expression).take o id l) := by
  refine ⟨hw.executed, hw.stack, ?_⟩
  rw [hw.executed]
  exact hf.aligned_pointOfState hpos _

/-- A conditional jump falls through where its condition holds. -/
theorem unless_simulates {o : Oracle} (hw : Simulates env.graph f.states f.body w l)
    (hp : p + 1 < f.body.chunks.length) {j : Jump} {w' : WalkState}
    (hj : Simulates env.graph f.states f.body w' (j.take o id l)) {a : Action}
    (hl : stmt.lhs ≠ none) (ha : Unless stmt j a) :
    Simulates env.graph f.states f.body
      (if o.holds w.executed.length id then { w with point := .place (p + 1) } else w')
      (a.exec o id p l) := by
  unfold Unless at ha
  cases hlhs : stmt.lhs with
  | none => exact absurd hlhs hl
  | some _ =>
      rw [hlhs] at ha
      obtain ⟨condition, rfl⟩ := ha
      have hholds : o.holds w.executed.length id = o.holds l.executed.length id := by
        rw [hw.executed]
      simp only [Action.exec]
      rw [hholds]
      split
      · exact next_simulates hw hp
      · exact hj

/-- The code of a statement does what the statement does. -/
theorem exec_simulates (hf : IsLowered comments env f) (hsize : f.states.size < maxState)
    (hg : env.graph.JumpsResolve) (o : Oracle) (hw : Simulates env.graph f.states f.body w l)
    (hid : env.graph.order[p]? = some id) (hs : env.graph.statement id = .ok stmt) {a : Action}
    (ha : Lowers f.states stmt a) :
    Simulates env.graph f.states f.body (env.graph.exec f.states o id stmt p w)
      (a.exec o id p l) := by
  have hmem : id ∈ env.graph.order := List.mem_of_getElem? hid
  have hlen : env.graph.order.length = f.body.chunks.length := hf.chunks.length_eq
  have hpos : 0 < f.body.chunks.length := by
    obtain ⟨hp, -⟩ := List.getElem?_eq_some_iff.mp hid
    omega
  have hnext (hk : stmt.kind ∉ [.unconditionalGoto, .computedGoto, .gotoReturn, .endOfThread]) :
      p + 1 < f.body.chunks.length := hlen ▸ hg.lt_length hid hs hk
  have htarget := hg.target id hmem stmt (FunctionGraph.mem_toOption_statement.mpr hs)
  have hlhs := hg.operand id hmem stmt (FunctionGraph.mem_toOption_statement.mpr hs)
  unfold Lowers at ha
  unfold FunctionGraph.exec
  cases hk : stmt.kind with
  | unconditionalGoto =>
      rw [hk] at ha htarget
      obtain ⟨t, ht, -, he⟩ := htarget (by simp)
      obtain ⟨j, hj, rfl⟩ := ha
      unfold ToTarget at hj
      rw [ht] at hj
      obtain ⟨k, hget, rfl⟩ := hj
      exact goTo_simulates hf hsize hpos o id hw ht he hget
  | gotoIfNot =>
      rw [hk] at ha htarget hlhs hnext
      obtain ⟨t, ht, -, he⟩ := htarget (by simp)
      obtain ⟨j, hj, ha⟩ := ha
      unfold ToTarget at hj
      rw [ht] at hj
      obtain ⟨k, hget, rfl⟩ := hj
      exact unless_simulates hw (hnext (by simp)) (goTo_simulates hf hsize hpos o id hw ht he hget)
        (hlhs (by simp)) ha
  | computedGoto =>
      rw [hk] at ha hlhs
      cases hl : stmt.lhs with
      | none => exact absurd hl (hlhs (by simp))
      | some _ =>
          rw [hl] at ha
          obtain ⟨expression, rfl⟩ := ha
          exact computed_simulates hf hpos o id hw expression
  | gotoReturn =>
      rw [hk] at ha
      obtain rfl := ha
      exact stop_simulates o id hw
  | gotoReturnIfNot =>
      rw [hk] at ha hlhs hnext
      exact unless_simulates hw (hnext (by simp)) (stop_simulates o id hw) (hlhs (by simp)) ha
  | endOfThread =>
      rw [hk] at ha
      obtain rfl := ha
      exact popTo_simulates hf hsize hpos o id hw
  | endOfThreadIfNot =>
      rw [hk] at ha hlhs hnext
      exact unless_simulates hw (hnext (by simp)) (popTo_simulates hf hsize hpos o id hw)
        (hlhs (by simp)) ha
  | pushState =>
      rw [hk] at ha htarget hnext
      obtain ⟨t, ht, -, he⟩ := htarget (by simp)
      rw [ht] at ha ⊢
      obtain ⟨k, hget, rfl⟩ := ha
      exact ⟨hw.executed, .cons ⟨he, hget⟩ hw.stack, .chunk (hnext (by simp))⟩
  | _ =>
      rw [hk] at ha hnext
      obtain ⟨code, rfl⟩ := ha
      exact next_simulates hw (hnext (by simp))

/-! ### One step -/

/-- A step of the loop is a step of the walk, or brings the loop nearer to its next chunk. -/
theorem step_simulates (hf : IsLowered comments env f) (hsize : f.states.size < maxState)
    (hg : env.graph.JumpsResolve) (o : Oracle) (hw : Simulates env.graph f.states f.body w l) :
    Simulates env.graph f.states f.body (env.graph.step f.states o w) (f.body.step o l) ∨
      (Simulates env.graph f.states f.body w (f.body.step o l) ∧
        (f.body.step o l).control.distance < l.control.distance) := by
  obtain ⟨point, stack, executed⟩ := w
  obtain ⟨control, current, states, done⟩ := l
  obtain ⟨hexecuted, hstack, hcontrol⟩ := hw
  cases hcontrol with
  | chunk hp =>
      rename_i p
      refine .inl ?_
      have hp' : p < env.graph.order.length := hf.chunks.length_eq ▸ hp
      have hid : env.graph.order[p]? = some env.graph.order[p] := List.getElem?_eq_getElem hp'
      have hc : ChunkOf comments env f.states env.graph.order[p] f.body.chunks[p] :=
        hf.chunks.get hp' hp
      obtain ⟨stmt, hs, -, ha⟩ := hc.form
      have hexec := exec_simulates hf hsize hg o
        ⟨hexecuted, hstack, Aligned.chunk (k := current) hp⟩ hid hs ha
      simp only [FunctionGraph.step, Body.step, hid, hs, List.getElem?_eq_getElem hp, hc.statement]
      exact ⟨by rw [show executed = done from hexecuted], hexec.stack, hexec.control⟩
  | head hk hcase hp =>
      refine .inr ?_
      simp only [Body.step, hcase]
      exact ⟨⟨hexecuted, hstack, .chunk hp⟩, by simp [Control.distance]⟩
  | test hk hcase hp =>
      refine .inr ?_
      simp only [Body.step, if_neg hk]
      exact ⟨⟨hexecuted, hstack, .head hk hcase hp⟩, by decide⟩
  | leaving => exact .inl ⟨hexecuted, hstack, .left⟩
  | left => exact .inl ⟨hexecuted, hstack, .left⟩
  | astrayHead hk hcase =>
      refine .inl ⟨?_, ?_, ?_⟩ <;> simp only [Body.step, hcase]
      · exact hexecuted
      · exact hstack
      · unfold Body.defaultCase
        split
        · exact .refused
        · exact .astrayTest hk hcase
  | astrayTest hk hcase =>
      refine .inl ?_
      simp only [Body.step, if_neg hk]
      exact ⟨hexecuted, hstack, .astrayHead hk hcase⟩
  | refused => exact .inl ⟨hexecuted, hstack, .refused⟩

/-! ### Runs -/

theorem start_simulates (hpos : 0 < f.body.chunks.length) :
    Simulates env.graph f.states f.body {} {} :=
  ⟨rfl, .nil, .head (by decide) (if_pos rfl) hpos⟩

/-- Each state of the loop belongs to one of the walk. -/
theorem exists_walk_of_run (hf : IsLowered comments env f) (hsize : f.states.size < maxState)
    (hg : env.graph.JumpsResolve) (hpos : 0 < f.body.chunks.length) (o : Oracle) (n : Nat) :
    ∃ k, Simulates env.graph f.states f.body (env.graph.walk f.states o k) (f.body.run o n) := by
  induction n with
  | zero => exact ⟨0, start_simulates hpos⟩
  | succ n ih =>
      obtain ⟨k, hk⟩ := ih
      rcases step_simulates hf hsize hg o hk with h | ⟨h, -⟩
      · exact ⟨k + 1, h⟩
      · exact ⟨k, h⟩

/-- The loop gets to the next state of the walk, by induction on how far away it is. -/
theorem exists_run_of_step (hf : IsLowered comments env f) (hsize : f.states.size < maxState)
    (hg : env.graph.JumpsResolve) (o : Oracle) {d n : Nat}
    (hd : (f.body.run o n).control.distance = d)
    (hw : Simulates env.graph f.states f.body w (f.body.run o n)) :
    ∃ n', Simulates env.graph f.states f.body (env.graph.step f.states o w) (f.body.run o n') := by
  induction d using Nat.strongRecOn generalizing n with
  | ind d ih =>
      rcases step_simulates hf hsize hg o hw with h | ⟨h, hlt⟩
      · exact ⟨n + 1, h⟩
      · exact ih _ (hd ▸ hlt) (n := n + 1) rfl h

/-- Each state of the walk is reached by the loop. -/
theorem exists_run_of_walk (hf : IsLowered comments env f) (hsize : f.states.size < maxState)
    (hg : env.graph.JumpsResolve) (hpos : 0 < f.body.chunks.length) (o : Oracle) (k : Nat) :
    ∃ n, Simulates env.graph f.states f.body (env.graph.walk f.states o k) (f.body.run o n) := by
  induction k with
  | zero => exact ⟨0, start_simulates hpos⟩
  | succ k ih =>
      obtain ⟨n, hn⟩ := ih
      exact exists_run_of_step hf hsize hg o rfl hn

theorem stopped_of_out (hw : Simulates env.graph f.states f.body w l) (hl : l.control = .out) :
    w.point = .stopped := by
  have hcontrol := hw.control
  rw [hl] at hcontrol
  generalize w.point = point at hcontrol
  cases hcontrol
  rfl

/-- Where the walk has stopped, the loop is left. -/
theorem exists_out_of_stopped {o : Oracle} {n : Nat}
    (hw : Simulates env.graph f.states f.body w (f.body.run o n)) (hstop : w.point = .stopped) :
    ∃ n', (f.body.run o n').control = .out ∧
      (f.body.run o n').executed = (f.body.run o n).executed := by
  have hcontrol := hw.control
  rw [hstop] at hcontrol
  generalize hc : (f.body.run o n).control = control at hcontrol
  generalize hk : (f.body.run o n).current = current at hcontrol
  cases hcontrol with
  | leaving =>
      refine ⟨n + 1, ?_, ?_⟩
      · simp [Body.run, Body.step, hc, hk]
      · simp [Body.run, Body.step, hc]
  | left => exact ⟨n, hc, rfl⟩

end

/-- Two threads that come back through the stack, a conditional jump and a computed one. -/
def threadGraph : FunctionGraph :=
  { name := "Threads"
    function := ⟨0⟩
    terms := #[{ kind := .reference none, type := { category := .bool }, name := "bFirst" },
      { kind := .reference none, type := { category := .int }, name := "Next" }]
    statements := #[
      { kind := .pushState, target := some ⟨3⟩ },
      { kind := .gotoIfNot, lhs := some ⟨0⟩, target := some ⟨5⟩ },
      { kind := .endOfThread },
      { kind := .nop, isJumpTarget := true },
      { kind := .computedGoto, lhs := some ⟨1⟩ },
      { kind := .nop, isJumpTarget := true },
      { kind := .endOfThread }]
    nodes := [[⟨0⟩, ⟨1⟩, ⟨2⟩], [⟨3⟩, ⟨4⟩], [⟨5⟩, ⟨6⟩]] }

/-- A first round through both threads, a second one from the entry, and out. -/
def twoRounds : Oracle :=
  { holds := fun n _ => 5 < n
    value := fun n _ => if n < 6 then entryState else exitState }

end GraphLowering
