import GraphLowering.Proofs.Dispatch.Numbering
import GraphLowering.Proofs.Lowering.Statements

/-!
# Lowering — the chunks of a body

What a lowered body looks like.  States are numbered while code is already being written, but the
numbering only grows (`Grows`), so every number in the code is the number in the map that is left
at the end.

* `Lowers m stmt a`: the forms that the code of a statement takes, by its kind, with the numbers
  of `m`.
* `ChunkOf`: the chunk of a scheduled statement.
* `lowerFunction_ok`: a lowered function has the chunk of each scheduled statement, in order, with
  the numbers of the map that comes with it.
-/

namespace GraphLowering

open Dispatch (Action Jump Chunk)

/-! ### Forms of code -/

/-- The jump leads to the state of the statement's target, or out if there is none. -/
def ToTarget (m : StateMap) (stmt : Statement) (j : Jump) : Prop :=
  match stmt.target with
  | some t => ∃ n, m.get? t = some n ∧ j = .toState n
  | none => j = .exit

/-- The jump is taken unless the left operand holds; without one there is only plain code. -/
def Unless (stmt : Statement) (j : Jump) (a : Action) : Prop :=
  match stmt.lhs with
  | some _ => ∃ condition, a = .jumpUnless condition j
  | none => ∃ code, a = .plain code

/-- The code of a statement, with the numbers of `m`. -/
def Lowers (m : StateMap) (stmt : Statement) (a : Action) : Prop :=
  match stmt.kind with
  | .unconditionalGoto => ∃ j, ToTarget m stmt j ∧ a = .jump j
  | .gotoIfNot => ∃ j, ToTarget m stmt j ∧ Unless stmt j a
  | .computedGoto =>
    match stmt.lhs with
    | some _ => ∃ expression, a = .jump (.computed expression)
    | none => ∃ code, a = .plain code
  | .gotoReturn => a = .jump .exit
  | .gotoReturnIfNot => Unless stmt .exit a
  | .endOfThread => a = .jump .pop
  | .endOfThreadIfNot => Unless stmt .pop a
  | .pushState =>
    match stmt.target with
    | some t => ∃ n, m.get? t = some n ∧ a = .push n
    | none => a = .plain []
  | _ => ∃ code, a = .plain code

/-- A jump target opens the case of its state, any other statement none. -/
def Labels (m : StateMap) (id : StmtId) (stmt : Statement) (label : Option Int) : Prop :=
  if stmt.isJumpTarget then ∃ n, m.get? id = some n ∧ label = some n else label = none

/-- The chunk of a scheduled statement. -/
structure ChunkOf (comments : CommentOptions) (env : Lowering.Env) (m : StateMap) (id : StmtId)
    (c : Chunk) : Prop where
  statement : c.statement = id
  code : ∃ s t, (Lowering.lowerStatement comments env id).run s = (.ok c.action, t)
  form : ∃ stmt, env.graph.statement id = .ok stmt ∧ Labels m id stmt c.label ∧
    Lowers m stmt c.action

theorem ToTarget.mono {m m' : StateMap} (h : m ≤ m') {stmt : Statement} {j : Jump}
    (hj : ToTarget m stmt j) : ToTarget m' stmt j := by
  unfold ToTarget at hj ⊢
  split at hj
  · obtain ⟨n, hn, rfl⟩ := hj
    exact ⟨n, StateMap.get?_of_le h hn, rfl⟩
  · exact hj

theorem Lowers.mono {m m' : StateMap} (h : m ≤ m') {stmt : Statement} {a : Action}
    (ha : Lowers m stmt a) : Lowers m' stmt a := by
  unfold Lowers at ha ⊢
  cases hk : stmt.kind with
  | unconditionalGoto =>
      rw [hk] at ha
      obtain ⟨j, hj, rfl⟩ := ha
      exact ⟨j, hj.mono h, rfl⟩
  | gotoIfNot =>
      rw [hk] at ha
      obtain ⟨j, hj, ha⟩ := ha
      exact ⟨j, hj.mono h, ha⟩
  | pushState =>
      rw [hk] at ha
      cases ht : stmt.target with
      | none => rw [ht] at ha; exact ha
      | some t =>
          rw [ht] at ha
          obtain ⟨n, hn, rfl⟩ := ha
          exact ⟨n, StateMap.get?_of_le h hn, rfl⟩
  | _ => rw [hk] at ha; exact ha

theorem Labels.mono {m m' : StateMap} (h : m ≤ m') {id : StmtId} {stmt : Statement}
    {label : Option Int} (hl : Labels m id stmt label) : Labels m' id stmt label := by
  unfold Labels at hl ⊢
  by_cases hj : stmt.isJumpTarget = true
  · rw [if_pos hj] at hl ⊢
    obtain ⟨n, hn, rfl⟩ := hl
    exact ⟨n, StateMap.get?_of_le h hn, rfl⟩
  · rwa [if_neg hj] at hl ⊢

theorem ChunkOf.mono {comments : CommentOptions} {env : Lowering.Env} {m m' : StateMap}
    (h : m ≤ m') {id : StmtId} {c : Chunk} (hc : ChunkOf comments env m id c) :
    ChunkOf comments env m' id c := by
  obtain ⟨stmt, hs, hl, ha⟩ := hc.form
  exact ⟨hc.statement, hc.code, stmt, hs, hl.mono h, ha.mono h⟩

namespace Lowering

/-! ### The numbering grows -/

/-- The numbering of `t` is that of `s` with perhaps some more statements. -/
structure Grows (s t : State) : Prop where
  states : s.states ≤ t.states
  distinct : s.states.Distinct → t.states.Distinct

theorem Grows.refl (s : State) : Grows s s := ⟨le_refl _, id⟩

theorem Grows.trans {s t u : State} (h : Grows s t) (h' : Grows t u) : Grows s u :=
  ⟨le_trans h.states h'.states, fun hs => h'.distinct (h.distinct hs)⟩

theorem grows_localState (target : StmtId) (s : State) :
    Grows s ((localState target).run s).2 :=
  ⟨StateMap.le_stateOf _ _, fun h => h.stateOf target⟩

theorem grows_resumeState (label : StmtId) (s : State) : Grows s ((resumeState label).run s).2 := by
  cases h : s.resumeStates with
  | none =>
      rw [run_resumeState_none h]
      exact grows_localState label s
  | some m =>
      rw [run_resumeState_some h]
      exact ⟨le_refl _, id⟩

/-- No step of lowering takes a number back. -/
theorem grows_closed (s : State) (env : Env) : Closed (fun u v => u = v ∧ Grows s u) env where
  report _ := .of_keeps fun _ h => h.trans ⟨le_refl _, id⟩
  atStatement _ := .of_keeps fun _ h => h.trans ⟨le_refl _, id⟩
  localState target := .of_keeps fun u h => h.trans (grows_localState target u)
  recordInline _ := .of_keeps fun _ h => h.trans ⟨le_refl _, id⟩
  callArguments hr hs hf := callArguments_respects
    (fun _ _ => .of_keeps fun _ h => h.trans ⟨le_refl _, id⟩)
    (fun _ => .of_keeps fun _ h => h.trans ⟨le_refl _, id⟩) hr hs.operands
    (fun label _ => .of_keeps fun u h => h.trans (grows_resumeState label u)) hf

/-- A run of steps that grow grows. -/
theorem Grows.of_run {α : Type} {x : Lower α} {s t : State} {r : Except Fault α}
    (hx : Respects (fun u v => u = v ∧ Grows s u) x) (h : x.run s = (r, t)) : Grows s t := by
  have hg := hx.keeps (Grows.refl s)
  rwa [h] at hg

/-! ### Statements -/

theorem run_localState_ok {target : StmtId} {s t : State} {n : Int}
    (h : (localState target).run s = (.ok n, t)) : t.states.get? target = some n := by
  rw [run_localState] at h
  cases h
  exact StateMap.get?_stateOf _ _

/-- A run that ends in a plain action has some plain action. -/
theorem plain_of_run {x : Lower (List Code)} {s t : State} {a : Action}
    (h : (x >>= fun code => pure (.plain code)).run s = (.ok a, t)) :
    ∃ code, a = Action.plain code := by
  obtain ⟨code, u, -, h⟩ := run_bind_ok h
  exact ⟨code, (run_pure_ok h).1⟩

theorem targetJump_ok {stmt : Statement} {s t : State} {j : Jump}
    (h : (targetJump stmt).run s = (.ok j, t)) : ToTarget t.states stmt j := by
  unfold targetJump at h
  unfold ToTarget
  cases ht : stmt.target with
  | some target =>
      rw [ht] at h
      obtain ⟨n, u, hn, h⟩ := run_bind_ok h
      obtain ⟨rfl, rfl⟩ := run_pure_ok h
      exact ⟨n, run_localState_ok hn, rfl⟩
  | none =>
      rw [ht] at h
      obtain ⟨_, u, -, h⟩ := run_bind_ok h
      exact (run_pure_ok h).1

theorem jumpUnless_ok {env : Env} {stmt : Statement} {target : Jump} {s t : State} {a : Action}
    (h : (jumpUnless env stmt target).run s = (.ok a, t)) : Unless stmt target a := by
  unfold jumpUnless at h
  unfold Unless
  cases hl : stmt.lhs with
  | some _ =>
      rw [hl] at h
      obtain ⟨condition, u, -, h⟩ := run_bind_ok h
      exact ⟨condition, (run_pure_ok h).1⟩
  | none => rw [hl] at h; exact plain_of_run h

theorem lowerPushState_ok {stmt : Statement} {s t : State} {a : Action}
    (h : (lowerPushState stmt).run s = (.ok a, t)) :
    match stmt.target with
    | some target => ∃ n, t.states.get? target = some n ∧ a = .push n
    | none => a = .plain [] := by
  unfold lowerPushState at h
  cases ht : stmt.target with
  | some target =>
      rw [ht] at h
      obtain ⟨n, u, hn, h⟩ := run_bind_ok h
      obtain ⟨rfl, rfl⟩ := run_pure_ok h
      exact ⟨n, run_localState_ok hn, rfl⟩
  | none =>
      rw [ht] at h
      obtain ⟨_, u, -, h⟩ := run_bind_ok h
      exact (run_pure_ok h).1

theorem lowerComputedGoto_ok {env : Env} {stmt : Statement} {s t : State} {a : Action}
    (h : (lowerComputedGoto env stmt).run s = (.ok a, t)) :
    match stmt.lhs with
    | some _ => ∃ expression, a = .jump (.computed expression)
    | none => ∃ code, a = .plain code := by
  unfold lowerComputedGoto at h
  cases hl : stmt.lhs with
  | some _ =>
      rw [hl] at h
      obtain ⟨expression, u, -, h⟩ := run_bind_ok h
      exact ⟨expression, (run_pure_ok h).1⟩
  | none => rw [hl] at h; exact plain_of_run h

/-- The code of a statement has the form that its kind prescribes, with the numbers that are given
out by then. -/
theorem lowerStatement_ok {comments : CommentOptions} {env : Env} {id : StmtId}
    (hs : env.graph.UsesStatement id) {s t : State} {a : Action}
    (h : (lowerStatement comments env id).run s = (.ok a, t)) :
    ∃ stmt, env.graph.statement id = .ok stmt ∧ Lowers t.states stmt a := by
  unfold lowerStatement at h
  obtain ⟨stmt, hstmt, h⟩ := run_liftBind_ok h
  refine ⟨stmt, hstmt, ?_⟩
  unfold Lowers
  cases hk : stmt.kind with
  | unconditionalGoto =>
      rw [hk] at h
      obtain ⟨j, u, hj, h⟩ := run_bind_ok h
      obtain ⟨rfl, rfl⟩ := run_pure_ok h
      exact ⟨j, targetJump_ok hj, rfl⟩
  | gotoIfNot =>
      rw [hk] at h
      obtain ⟨j, u, hj, h⟩ := run_bind_ok h
      -- the target is numbered first, the condition may number more
      have hg := Grows.of_run
        (jumpUnless_respects (grows_closed u env).inner (hs.operands hstmt) j) h
      exact ⟨j, (targetJump_ok hj).mono hg.states, jumpUnless_ok h⟩
  | computedGoto => rw [hk] at h; exact lowerComputedGoto_ok h
  | gotoReturn | endOfThread => rw [hk] at h; exact (run_pure_ok h).1
  | gotoReturnIfNot | endOfThreadIfNot => rw [hk] at h; exact jumpUnless_ok h
  | pushState => rw [hk] at h; exact lowerPushState_ok h
  | nop | comment _ | debugSite | wireTraceSite =>
      rw [hk] at h
      exact ⟨_, (run_pure_ok h).1⟩
  | _ => rw [hk] at h; exact plain_of_run h

/-! ### Chunks -/

theorem caseLabel_ok {env : Env} {isLoop : Bool} {id : StmtId} {s t : State} {label : Option Int}
    {stmt : Statement} (hs : env.graph.statement id = .ok stmt)
    (hl : stmt.isJumpTarget = true → isLoop = true)
    (h : (caseLabel env isLoop id).run s = (.ok label, t)) : Labels t.states id stmt label := by
  unfold caseLabel at h
  unfold Labels
  split at h
  · obtain ⟨stmt', hstmt, h⟩ := run_liftBind_ok h
    obtain rfl : stmt' = stmt := Except.ok.inj (hstmt.symm.trans hs)
    split at h
    · rename_i hj
      obtain ⟨n, u, hn, h⟩ := run_bind_ok h
      obtain ⟨rfl, rfl⟩ := run_pure_ok h
      rw [if_pos hj]
      exact ⟨n, run_localState_ok hn, rfl⟩
    · rename_i hj
      rw [if_neg hj]
      exact (run_pure_ok h).1
  · rename_i hloop
    rw [if_neg fun hj => hloop (hl hj)]
    exact (run_pure_ok h).1

theorem lowerChunk_ok {comments : CommentOptions} {env : Env} {isLoop : Bool} {id : StmtId}
    (hs : id ∈ env.graph.order)
    (hl : ∀ stmt, env.graph.statement id = .ok stmt → stmt.isJumpTarget = true → isLoop = true)
    {s t : State} {c : Chunk} (h : (lowerChunk comments env isLoop id).run s = (.ok c, t)) :
    ChunkOf comments env t.states id c := by
  unfold lowerChunk at h
  obtain ⟨label, u, hlabel, h⟩ := run_bind_ok h
  obtain ⟨_, v, hv, h⟩ := run_bind_ok h
  obtain ⟨a, w, ha, h⟩ := run_bind_ok h
  obtain ⟨rfl, rfl⟩ := run_pure_ok h
  obtain ⟨stmt, hstmt, hform⟩ := lowerStatement_ok (.scheduled hs) ha
  have huv : Grows u v := Grows.of_run ((grows_closed u env).atStatement (some id)) hv
  have hvt : Grows v t :=
    Grows.of_run (lowerStatement_respects (grows_closed v env) comments (.scheduled hs)) ha
  exact ⟨rfl, ⟨_, _, ha⟩, stmt, hstmt,
    (caseLabel_ok hstmt (hl stmt hstmt) hlabel).mono (huv.trans hvt).states, hform⟩

/-- The chunks of a row of statements, with the numbers of any later map. -/
theorem mapM_lowerChunk_ok {comments : CommentOptions} {env : Env} {isLoop : Bool}
    {ids : List StmtId} (hs : ∀ id ∈ ids, id ∈ env.graph.order)
    (hl : ∀ id ∈ ids, ∀ stmt, env.graph.statement id = .ok stmt → stmt.isJumpTarget = true →
      isLoop = true)
    {s t : State} {cs : List Chunk}
    (h : (ids.mapM (lowerChunk comments env isLoop)).run s = (.ok cs, t)) :
    List.Forall₂ (ChunkOf comments env t.states) ids cs := by
  induction ids generalizing s cs with
  | nil =>
      obtain ⟨rfl, -⟩ := run_pure_ok h
      exact .nil
  | cons id ids ih =>
      rw [List.mapM_cons] at h
      obtain ⟨c, u, hc, h⟩ := run_bind_ok h
      obtain ⟨cs, v, hcs, h⟩ := run_bind_ok h
      obtain ⟨rfl, rfl⟩ := run_pure_ok h
      have hrest : ∀ i ∈ ids, i ∈ env.graph.order := fun i hi => hs i (List.mem_cons_of_mem _ hi)
      have hg : Grows u t := Grows.of_run
        (.mapM fun i hi => lowerChunk_respects (grows_closed u env) comments isLoop (hrest i hi))
        hcs
      refine .cons ((lowerChunk_ok (hs id List.mem_cons_self) (hl id List.mem_cons_self) hc).mono
        hg.states) (ih hrest (fun i hi => hl i (List.mem_cons_of_mem _ hi)) hcs)

end Lowering

/-! ### Functions -/

/-- Where a scheduled statement is a jump target there is a dispatch loop. -/
theorem FunctionGraph.needsDispatch_of_isJumpTarget {g : FunctionGraph} {b : Bool}
    (h : g.needsDispatch = .ok b) {id : StmtId} (hid : id ∈ g.order) {stmt : Statement}
    (hs : g.statement id = .ok stmt) (hj : stmt.isJumpTarget = true) : b = true := by
  rcases Lookup.of_anyM_ok h with hb | hall
  · exact hb
  · have hfalse := hall id hid
    rw [hs] at hfalse
    have hnone : (stmt.isJumpTarget || stmt.kind.isJump) = false := Except.ok.inj hfalse
    rw [hj] at hnone
    cases hnone

/-- The lowered function: what its graph prescribes, with the numbers of its own map. -/
structure IsLowered (comments : CommentOptions) (env : Lowering.Env) (f : LoweredFunction) :
    Prop where
  isLoop : env.graph.needsDispatch = .ok f.body.isLoop
  usesFlowStack : env.graph.needsFlowStack = .ok f.body.usesFlowStack
  distinct : f.states.Distinct
  chunks : List.Forall₂ (ChunkOf comments env f.states) env.graph.order f.body.chunks

/-- **The code of a function keeps to its graph.**  However the numbers came about while the code
was written, they are those of the map at the end. -/
theorem lowerFunction_ok {comments : CommentOptions} {cx : Context} {g : FunctionGraph}
    {resumeStates : Option StateMap} {sink : Sink} {f : LoweredFunction} {s : Lowering.State}
    (h : lowerFunction comments cx g resumeStates sink = (.ok f, s)) :
    IsLowered comments ⟨cx, g⟩ f := by
  unfold lowerFunction Lowering.lowerBody at h
  obtain ⟨usesFlowStack, hflow, h⟩ := run_liftBind_ok h
  obtain ⟨isLoop, hloop, h⟩ := run_liftBind_ok h
  obtain ⟨chunks, t, hchunks, h⟩ := run_bind_ok h
  cases h
  have hg := Lowering.Grows.of_run
    (Lowering.lowerChunks_respects (Lowering.grows_closed _ ⟨cx, g⟩) comments isLoop) hchunks
  exact ⟨hloop, hflow, hg.distinct List.nodup_nil, Lowering.mapM_lowerChunk_ok (fun _ hid => hid)
    (fun id hid stmt hs hj => g.needsDispatch_of_isJumpTarget hloop hid hs hj) hchunks⟩

end GraphLowering
