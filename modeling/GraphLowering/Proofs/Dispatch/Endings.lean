import GraphLowering.Proofs.Dispatch.Machines

/-!
# Dispatch — running off the end

Behind the last case of a dispatch loop comes the default case, which sets no state.  A round of the
loop in which control gets there without a jump therefore ends in the state that it was entered
with, and that is never the exit: the loop starts the same case again, or refuses to go on if it has
a stack (`falling_off_keeps_state`).  So a function that runs off its end does not return.

* `Body.FallsOff`: control has come behind the last chunk.
* `Body.exists_entry`: from chunk to chunk the state stays as the round found it.
* `Body.run_congr`: a run depends on what it has asked only.
* `Body.exists_fallsOff_iff`: what can fall off.
-/

namespace GraphLowering

/-- The statement passes control on to a place of its choice, whatever holds. -/
def Statement.alwaysJumps (stmt : Statement) : Bool :=
  match stmt.kind with
  | .unconditionalGoto | .gotoReturn | .endOfThread => true
  | .computedGoto => stmt.lhs.isSome
  | _ => false

/-- The answer to every condition after `k` statements is that it holds. -/
def Oracle.holdingAt (o : Oracle) (k : Nat) : Oracle :=
  { o with holds := fun j id => if j = k then true else o.holds j id }

namespace Dispatch

variable {o o' : Oracle} {b : Body} {l : LoopState} {id : StmtId} {n i k : Nat}

/-- The code leaves the `switch` whenever it runs. -/
def Action.alwaysJumps : Action → Bool
  | .jump _ => true
  | .plain _ | .push _ | .jumpUnless _ _ => false

/-! ### One step -/

theorem Jump.control_take (o : Oracle) (id : StmtId) (l : LoopState) (j : Jump) :
    (j.take o id l).control = .test := by
  cases j with
  | pop => cases h : l.stack <;> simp [take, h]
  | _ => rfl

/-- Code that does not jump goes on to the next chunk, and leaves the state as it is. -/
theorem Action.exec_eq_chunk {a : Action} (h : (a.exec o id i l).control = .chunk k) :
    k = i + 1 ∧ (a.exec o id i l).current = l.current ∧ a.alwaysJumps = false := by
  cases a with
  | plain | push =>
      cases h
      exact ⟨rfl, rfl, rfl⟩
  | jump j =>
      rw [exec, Jump.control_take] at h
      cases h
  | jumpUnless condition j =>
      rw [exec] at h ⊢
      split at h
      · rename_i hholds
        rw [if_pos hholds]
        cases h
        exact ⟨rfl, rfl, rfl⟩
      · rw [Jump.control_take] at h
        cases h

theorem Action.control_exec_ne_head (a : Action) : (a.exec o id i l).control ≠ .head := by
  cases a with
  | plain | push => nofun
  | jump j => simp [exec, Jump.control_take]
  | jumpUnless condition j =>
      rw [exec]
      split
      · nofun
      · simp [Jump.control_take]

namespace Body

/-- Control has come behind the last chunk. -/
def FallsOff (o : Oracle) (b : Body) (n : Nat) : Prop :=
  (b.run o n).control = .chunk b.chunks.length

theorem defaultCase_ne_chunk (b : Body) (i : Nat) : b.defaultCase ≠ .chunk i := by
  unfold defaultCase
  split <;> nofun

theorem defaultCase_ne_head (b : Body) : b.defaultCase ≠ .head := by
  unfold defaultCase
  split <;> nofun

theorem step_head (h : l.control = .head) : b.step o l =
    { l with control := ((b.caseAt? l.current).map .chunk).getD b.defaultCase } := by
  rw [step, h]
  cases b.caseAt? l.current <;> rfl

theorem step_chunk {c : Chunk} (h : l.control = .chunk i) (hget : b.chunks[i]? = some c) :
    b.step o l =
      { c.action.exec o c.statement i l with executed := l.executed ++ [c.statement] } := by
  simp only [step, h, hget]

theorem step_behind (h : l.control = .chunk i) (hget : b.chunks[i]? = none) :
    b.step o l = { l with control := b.defaultCase } := by
  simp only [step, h, hget]

theorem step_test (h : l.control = .test) : b.step o l =
    { l with control := if l.current = exitState then .out else .head } := by
  rw [step, h]

/-- A chunk is entered from the head of the loop, or from the chunk before it. -/
theorem step_eq_chunk (h : (b.step o l).control = .chunk k) :
    (b.step o l).current = l.current ∧
      ((l.control = .head ∧ b.caseAt? l.current = some k) ∨
        ∃ i c, l.control = .chunk i ∧ b.chunks[i]? = some c ∧ c.action.alwaysJumps = false ∧
          k = i + 1) := by
  cases hcontrol : l.control with
  | head =>
      rw [step_head hcontrol] at h ⊢
      cases hcase : b.caseAt? l.current with
      | none =>
          rw [hcase] at h
          exact absurd h (b.defaultCase_ne_chunk k)
      | some i =>
          rw [hcase] at h
          cases h
          exact ⟨rfl, .inl ⟨rfl, rfl⟩⟩
  | chunk i =>
      cases hget : b.chunks[i]? with
      | none =>
          rw [step_behind hcontrol hget] at h
          exact absurd h (b.defaultCase_ne_chunk k)
      | some c =>
          rw [step_chunk hcontrol hget] at h ⊢
          obtain ⟨hk, hcurrent, hjumps⟩ := Action.exec_eq_chunk h
          exact ⟨hcurrent, .inr ⟨i, c, rfl, hget, hjumps, hk⟩⟩
  | test =>
      rw [step_test hcontrol] at h
      dsimp only at h
      split at h <;> cases h
  | out | failed => simp [step, hcontrol] at h

/-- The head of the loop is reached in no state but those that the condition lets pass. -/
theorem step_eq_head (h : (b.step o l).control = .head) : (b.step o l).current ≠ exitState := by
  cases hcontrol : l.control with
  | head =>
      rw [step_head hcontrol] at h
      cases hcase : b.caseAt? l.current with
      | none =>
          rw [hcase] at h
          exact absurd h b.defaultCase_ne_head
      | some i =>
          rw [hcase] at h
          cases h
  | chunk i =>
      cases hget : b.chunks[i]? with
      | none =>
          rw [step_behind hcontrol hget] at h
          exact absurd h b.defaultCase_ne_head
      | some c =>
          rw [step_chunk hcontrol hget] at h
          exact absurd h c.action.control_exec_ne_head
  | test =>
      rw [step_test hcontrol] at h ⊢
      intro hexit
      rw [if_pos hexit] at h
      cases h
  | out | failed => simp [step, hcontrol] at h

/-! ### One round of the loop -/

theorem current_ne_exit_of_head (h : (b.run o n).control = .head) :
    (b.run o n).current ≠ exitState := by
  cases n with
  | zero => exact show entryState ≠ exitState by decide
  | succ n => exact step_eq_head h

/-- **Since its round was entered, control has gone from chunk to chunk**, and the state is the one
that the round was entered with. -/
theorem exists_entry (h : (b.run o n).control = .chunk i) :
    ∃ m < n, (b.run o m).control = .head ∧
      (∀ k, m < k → k ≤ n → ∃ j, (b.run o k).control = .chunk j) ∧
      (b.run o n).current = (b.run o m).current := by
  induction n generalizing i with
  | zero => cases h
  | succ n ih =>
      obtain ⟨hcurrent, ⟨hhead, -⟩ | ⟨j, c, hchunk, -⟩⟩ := step_eq_chunk h
      · refine ⟨n, Nat.lt_succ_self n, hhead, fun k hlt hle => ?_, hcurrent⟩
        rw [Nat.le_antisymm hle hlt]
        exact ⟨i, h⟩
      · obtain ⟨m, hm, hhead, hbetween, hsame⟩ := ih hchunk
        refine ⟨m, Nat.lt_succ_of_lt hm, hhead, fun k hlt hle => ?_, hcurrent.trans hsame⟩
        rcases Nat.lt_or_eq_of_le hle with hk | rfl
        · exact hbetween k hlt (Nat.le_of_lt_succ hk)
        · exact ⟨i, h⟩

theorem FallsOff.current_ne_exit (h : b.FallsOff o n) : (b.run o n).current ≠ exitState := by
  obtain ⟨m, -, hhead, -, hcurrent⟩ := exists_entry h
  rw [hcurrent]
  exact current_ne_exit_of_head hhead

/-- The default case sets no state. -/
theorem FallsOff.run_succ (h : b.FallsOff o n) :
    b.run o (n + 1) = { b.run o n with control := b.defaultCase } :=
  step_behind h (List.getElem?_eq_none (Nat.le_refl _))

/-- Without a stack, the same case is started again. -/
theorem FallsOff.run_again (h : b.FallsOff o n) (hstack : b.usesFlowStack = false) :
    b.run o (n + 2) = { b.run o n with control := .head } := by
  have htest : b.run o (n + 1) = { b.run o n with control := .test } := by
    rw [h.run_succ, defaultCase, hstack]
    rfl
  rw [run, htest, step_test rfl, if_neg h.current_ne_exit]

/-- A loop in which nothing jumps stays in the state of the entry and is never left. -/
theorem run_of_plain (h : ∀ c ∈ b.chunks, ∃ code, c.action = .plain code) (o : Oracle) (n : Nat) :
    (b.run o n).current = entryState ∧ (b.run o n).control ≠ .out := by
  induction n with
  | zero => exact ⟨rfl, nofun⟩
  | succ n ih =>
      obtain ⟨hcurrent, hout⟩ := ih
      have hdefault : b.defaultCase ≠ .out := by
        unfold defaultCase
        split <;> nofun
      rw [run]
      cases hcontrol : (b.run o n).control with
      | head =>
          rw [step_head hcontrol]
          refine ⟨hcurrent, ?_⟩
          cases b.caseAt? (b.run o n).current
          · exact hdefault
          · nofun
      | chunk i =>
          cases hget : b.chunks[i]? with
          | none =>
              rw [step_behind hcontrol hget]
              exact ⟨hcurrent, hdefault⟩
          | some c =>
              obtain ⟨code, haction⟩ := h c (List.mem_of_getElem? hget)
              rw [step_chunk hcontrol hget, haction]
              exact ⟨hcurrent, nofun⟩
      | test =>
          rw [step_test hcontrol, hcurrent]
          exact ⟨rfl, show (if entryState = exitState then Control.out else .head) ≠ .out by decide⟩
      | out => exact absurd hcontrol hout
      | failed =>
          simpa [step, hcontrol] using hcurrent

/-! ### What can fall off -/

/-- The answers of both are the same as long as fewer than `k` statements are executed. -/
def AgreeBelow (k : Nat) (o o' : Oracle) : Prop :=
  ∀ j < k, ∀ id, o.holds j id = o'.holds j id ∧ o.value j id = o'.value j id

theorem length_executed_le (o : Oracle) (b : Body) (l : LoopState) :
    l.executed.length ≤ (b.step o l).executed.length := by
  cases hcontrol : l.control with
  | head => simp [step_head hcontrol]
  | chunk i =>
      cases hget : b.chunks[i]? with
      | none => simp [step_behind hcontrol hget]
      | some c => simp [step_chunk hcontrol hget]
  | test => simp [step_test hcontrol]
  | out | failed => simp [step, hcontrol]

/-- Only the code of a statement asks, and it counts as executed from then on. -/
theorem step_congr (h : AgreeBelow (b.step o l).executed.length o o') :
    b.step o' l = b.step o l := by
  cases hcontrol : l.control with
  | head => rw [step_head hcontrol, step_head hcontrol]
  | chunk i =>
      cases hget : b.chunks[i]? with
      | none => rw [step_behind hcontrol hget, step_behind hcontrol hget]
      | some c =>
          have hlt : l.executed.length < (b.step o l).executed.length := by
            simp [step_chunk hcontrol hget]
          obtain ⟨hholds, hvalue⟩ := h _ hlt c.statement
          rw [step_chunk hcontrol hget, step_chunk hcontrol hget]
          have hjump : ∀ j : Jump, j.take o' c.statement l = j.take o c.statement l := by
            intro j
            cases j <;> simp [Jump.take, hvalue]
          cases hact : c.action <;> simp [Action.exec, hholds, hjump]
  | test => rw [step_test hcontrol, step_test hcontrol]
  | out | failed => simp [step, hcontrol]

/-- **A run depends on what it has asked only.** -/
theorem run_congr (h : AgreeBelow (b.run o n).executed.length o o') :
    b.run o' n = b.run o n := by
  induction n with
  | zero => rfl
  | succ n ih =>
      have hle := length_executed_le o b (b.run o n)
      rw [run, ih fun j hj => h j (Nat.lt_of_lt_of_le hj hle)]
      exact step_congr h

theorem caseAt?_lt (hpos : 0 < b.chunks.length) {k : Int} (h : b.caseAt? k = some i) :
    i < b.chunks.length := by
  unfold caseAt? at h
  split at h
  · cases h
    exact hpos
  · exact (List.findIdx?_eq_some_iff_getElem.mp h).1

/-- What falls off comes from the last chunk. -/
theorem FallsOff.exists_last (h : b.FallsOff o n) (hpos : 0 < b.chunks.length) :
    ∃ m c, (b.run o m).control = .chunk (b.chunks.length - 1) ∧ b.chunks.getLast? = some c ∧
      c.action.alwaysJumps = false := by
  cases n with
  | zero => cases h
  | succ n =>
      obtain ⟨-, ⟨-, hcase⟩ | ⟨i, c, hchunk, hget, hjumps, hi⟩⟩ := step_eq_chunk h
      · exact absurd (caseAt?_lt hpos hcase) (Nat.lt_irrefl _)
      · have hlast : i = b.chunks.length - 1 := by omega
        subst hlast
        exact ⟨n, c, hchunk, by rw [List.getLast?_eq_getElem?, hget], hjumps⟩

/-- Control falls off from the last chunk, unless that jumps or its condition fails. -/
theorem fallsOff_succ {c : Chunk} (hchunk : (b.run o n).control = .chunk (b.chunks.length - 1))
    (hlast : b.chunks.getLast? = some c) (hjumps : c.action.alwaysJumps = false)
    (hholds : o.holds (b.run o n).executed.length c.statement = true) : b.FallsOff o (n + 1) := by
  rw [List.getLast?_eq_getElem?] at hlast
  obtain ⟨hlt, -⟩ := List.getElem?_eq_some_iff.mp hlast
  rw [FallsOff, run, step_chunk hchunk hlast]
  cases haction : c.action with
  | jump j =>
      rw [haction] at hjumps
      cases hjumps
  | plain | push => simp only [Action.exec, Control.chunk.injEq]; omega
  | jumpUnless condition j =>
      rw [Action.exec, if_pos hholds]
      simp only [Control.chunk.injEq]
      omega

theorem agreeBelow_holdingAt (o : Oracle) (k : Nat) : AgreeBelow k o (o.holdingAt k) := by
  intro j hj id
  simp [Oracle.holdingAt, Nat.ne_of_lt hj]

/-- **A loop can fall off** if and only if its last chunk is reached at all and does not always
jump. -/
theorem exists_fallsOff_iff (hpos : 0 < b.chunks.length) : (∃ o n, b.FallsOff o n) ↔
    ∃ c, b.chunks.getLast? = some c ∧ c.action.alwaysJumps = false ∧
      ∃ o n, (b.run o n).control = .chunk (b.chunks.length - 1) := by
  constructor
  · rintro ⟨o, n, h⟩
    obtain ⟨m, c, hchunk, hlast, hjumps⟩ := h.exists_last hpos
    exact ⟨c, hlast, hjumps, o, m, hchunk⟩
  · rintro ⟨c, hlast, hjumps, o, n, hchunk⟩
    -- Up to here nothing has asked the question that the last chunk may ask.
    generalize hk : (b.run o n).executed.length = k
    have hrun : b.run (o.holdingAt k) n = b.run o n :=
      run_congr (hk ▸ agreeBelow_holdingAt o _)
    refine ⟨o.holdingAt k, n + 1, fallsOff_succ (by rw [hrun, hchunk]) hlast hjumps ?_⟩
    rw [hrun, hk]
    simp [Oracle.holdingAt]

end Body
end Dispatch

open Dispatch (Action Body Chunk)

/-! ### Lowered functions -/

/-- The code of a statement always jumps if the statement does. -/
theorem Lowers.alwaysJumps {m : StateMap} {stmt : Statement} {a : Action} (h : Lowers m stmt a) :
    a.alwaysJumps = stmt.alwaysJumps := by
  have hunless : ∀ {j}, Unless stmt j a → a.alwaysJumps = false := by
    intro j hj
    unfold Unless at hj
    split at hj
    · obtain ⟨_, rfl⟩ := hj
      rfl
    · obtain ⟨_, rfl⟩ := hj
      rfl
  unfold Lowers at h
  unfold Statement.alwaysJumps
  cases hk : stmt.kind with
  | unconditionalGoto =>
      rw [hk] at h
      obtain ⟨j, -, rfl⟩ := h
      rfl
  | gotoIfNot =>
      rw [hk] at h
      obtain ⟨j, -, h⟩ := h
      exact hunless h
  | computedGoto =>
      rw [hk] at h
      dsimp only at h ⊢
      split at h
      · rename_i hl
        obtain ⟨_, rfl⟩ := h
        rw [hl]
        rfl
      · rename_i hl
        obtain ⟨_, rfl⟩ := h
        rw [hl]
        rfl
  | gotoReturn | endOfThread =>
      rw [hk] at h
      cases h
      rfl
  | gotoReturnIfNot | endOfThreadIfNot =>
      rw [hk] at h
      exact hunless h
  | pushState =>
      rw [hk] at h
      dsimp only at h
      split at h
      · obtain ⟨_, -, rfl⟩ := h
        rfl
      · cases h
        rfl
  | _ =>
      rw [hk] at h
      obtain ⟨_, rfl⟩ := h
      rfl

/-- A statement that is no jump has plain code. -/
theorem Lowers.exists_plain {m : StateMap} {stmt : Statement} {a : Action} (h : Lowers m stmt a)
    (hk : stmt.kind.isJump = false) : ∃ code, a = .plain code := by
  unfold Lowers at h
  cases hkind : stmt.kind <;> rw [hkind] at h hk <;> first | exact h | cases hk

theorem IsLowered.chunks_pos {comments : CommentOptions} {env : Lowering.Env} {f : LoweredFunction}
    (h : IsLowered comments env f) (hloop : f.body.isLoop = true) : 0 < f.body.chunks.length := by
  rw [← h.chunks.length_eq]
  refine List.length_pos_of_ne_nil fun hnil => ?_
  have hneeds := h.isLoop
  rw [FunctionGraph.needsDispatch, hnil, hloop] at hneeds
  cases hneeds

/-- The last chunk is that of the last scheduled statement. -/
theorem IsLowered.getLast?_order {comments : CommentOptions} {env : Lowering.Env}
    {f : LoweredFunction} (h : IsLowered comments env f) {c : Chunk}
    (hc : f.body.chunks.getLast? = some c) :
    env.graph.order.getLast? = some c.statement ∧
      ∃ stmt, env.graph.statement c.statement = .ok stmt ∧
        c.action.alwaysJumps = stmt.alwaysJumps := by
  obtain ⟨stmt, hs, -, hform⟩ := (h.chunkOf_of_mem (List.mem_of_getLast? hc)).form
  refine ⟨?_, stmt, hs, hform.alwaysJumps⟩
  rw [← h.statements, List.getLast?_map, hc]
  rfl

/-- **A function that runs off its end does not return.**  A round of the loop in which control
falls off has gone from chunk to chunk, and ends in the state that it was entered with, which is not
the exit.  With a stack the default case refuses it; without one the same case is started again.  So
the state is the exit there only if it never happens; and it happens in some run exactly if the last
scheduled statement is reached and does not always jump.  A function that has labels and no jumps is
never left. -/
theorem falling_off_keeps_state {comments : CommentOptions} {cx : Context} {g : FunctionGraph}
    {resumeStates : Option StateMap} {sink : Sink} {f : LoweredFunction} {s : Lowering.State}
    (h : lowerFunction comments cx g resumeStates sink = (.ok f, s))
    (hloop : f.body.isLoop = true) :
    (∀ o n, f.body.FallsOff o n →
      (∃ m < n, (f.body.run o m).control = .head ∧
        (∀ k, m < k → k ≤ n → ∃ j, (f.body.run o k).control = .chunk j) ∧
        (f.body.run o n).current = (f.body.run o m).current) ∧
      (f.body.run o n).current ≠ exitState ∧
      f.body.run o (n + 1) = { f.body.run o n with control := f.body.defaultCase } ∧
      (f.body.usesFlowStack = true → f.body.defaultCase = .failed) ∧
      (f.body.usesFlowStack = false →
        f.body.defaultCase = .test ∧
          f.body.run o (n + 2) = { f.body.run o n with control := .head })) ∧
    ((∀ o n, f.body.FallsOff o n → (f.body.run o (n + 1)).current = exitState) ↔
      ∀ o n, ¬ f.body.FallsOff o n) ∧
    ((∃ o n, f.body.FallsOff o n) ↔
      ∃ last stmt, g.order.getLast? = some last ∧ g.statement last = .ok stmt ∧
        stmt.alwaysJumps = false ∧
        ∃ o n, (f.body.run o n).control = .chunk (g.order.length - 1)) ∧
    ((∀ id ∈ g.order, ∀ stmt, g.statement id = .ok stmt → stmt.kind.isJump = false) →
      ∀ o n, (f.body.run o n).control ≠ .out) := by
  have hf := lowerFunction_ok h
  refine ⟨fun o n hoff => ⟨Body.exists_entry hoff, hoff.current_ne_exit, hoff.run_succ,
    fun hstack => if_pos hstack, fun hstack => ⟨?_, hoff.run_again hstack⟩⟩,
    ⟨fun hexit o n hoff => ?_, fun hnever o n hoff => absurd hoff (hnever o n)⟩, ?_,
    fun hjumps o n => ?_⟩
  · rw [Body.defaultCase, hstack]
    rfl
  · refine hoff.current_ne_exit ?_
    rw [← hexit o n hoff, hoff.run_succ]
  · rw [Body.exists_fallsOff_iff (hf.chunks_pos hloop), ← hf.chunks.length_eq]
    constructor
    · rintro ⟨c, hc, hjumps, hreached⟩
      obtain ⟨hlast, stmt, hs, heq⟩ := hf.getLast?_order hc
      exact ⟨c.statement, stmt, hlast, hs, heq ▸ hjumps, hreached⟩
    · rintro ⟨last, stmt, hlast, hs, hjumps, hreached⟩
      have hne := List.ne_nil_of_length_pos (hf.chunks_pos hloop)
      have hc := List.getLast?_eq_some_getLast hne
      obtain ⟨hlast', stmt', hs', heq⟩ := hf.getLast?_order hc
      obtain rfl := Option.some.inj (hlast.symm.trans hlast')
      obtain rfl := Except.ok.inj (hs.symm.trans hs')
      exact ⟨_, hc, heq.trans hjumps, hreached⟩
  · refine (Body.run_of_plain (fun c hc => ?_) o n).2
    obtain ⟨stmt, hs, -, hform⟩ := (hf.chunkOf_of_mem hc).form
    have hmem : c.statement ∈ g.order := hf.statements ▸ List.mem_map_of_mem hc
    exact hform.exists_plain (hjumps c.statement hmem stmt hs)

/-- A jump to the end and a way out, each taken unless the instance is alive. -/
def aliveGraph : FunctionGraph :=
  { name := "Tick"
    function := ⟨0⟩
    terms := #[{ kind := .reference none, type := .bool, name := "bAlive" }]
    statements := #[
      { kind := .nop, isJumpTarget := true },
      { kind := .gotoIfNot, lhs := some ⟨0⟩, target := some ⟨0⟩ },
      { kind := .gotoReturnIfNot, lhs := some ⟨0⟩ }]
    nodes := [[⟨1⟩], [⟨2⟩], [⟨0⟩]] }

/-- Every condition holds. -/
def allHold : Oracle := ⟨fun _ _ => true, fun _ _ => 0⟩

/-- While the instance is alive control falls off after the three statements, and they start
again. -/
theorem falling_off_keeps_state_alive : ∃ f s,
    lowerFunction {} default aliveGraph none {} = (.ok f, s) ∧ f.body.isLoop = true ∧
      f.body.FallsOff allHold 4 ∧ (f.body.run allHold 4).current ≠ exitState ∧
      f.body.run allHold 6 = { f.body.run allHold 4 with control := .head } ∧
      ¬ ∀ o n, f.body.FallsOff o n → (f.body.run o (n + 1)).current = exitState := by
  have hlowered : lowerFunction {} default aliveGraph none {} = (.ok _, _) := rfl
  obtain ⟨hround, hexit, -, -⟩ := falling_off_keeps_state hlowered rfl
  have hoff := hround allHold 4 rfl
  exact ⟨_, _, hlowered, rfl, rfl, hoff.2.1, (hoff.2.2.2.2 rfl).2, fun h =>
    hexit.mp h allHold 4 rfl⟩

/-- A single statement that does nothing. -/
def idleGraph (isJumpTarget : Bool) : FunctionGraph :=
  { name := "Tick"
    function := ⟨0⟩
    statements := #[{ kind := .nop, isJumpTarget }]
    nodes := [[⟨0⟩]] }

/-- It does its nothing once, but for ever when it is a jump target. -/
theorem idle_label_never_left :
    (∃ f s, lowerFunction {} default (idleGraph true) none {} = (.ok f, s) ∧
      f.body.isLoop = true ∧ ∀ o, f.body.FallsOff o 2 ∧ (f.body.run o 3).control = .test ∧
        (f.body.run o 3).current = entryState ∧ ∀ n, (f.body.run o n).control ≠ .out) ∧
    ∃ f s, lowerFunction {} default (idleGraph false) none {} = (.ok f, s) ∧
      f.body.isLoop = false ∧ f.body.marks = [.line "//No operation."] := by
  refine ⟨⟨_, _, rfl, rfl, fun o => ⟨rfl, rfl, rfl, fun n => ?_⟩⟩, _, _, rfl, rfl, rfl⟩
  refine (Body.run_of_plain (fun c hc => ?_) o n).2
  rw [List.mem_singleton.mp hc]
  exact ⟨_, rfl⟩

end GraphLowering
