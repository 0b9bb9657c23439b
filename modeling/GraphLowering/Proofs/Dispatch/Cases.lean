import GraphLowering.Proofs.Lowering.Chunks

/-!
# Dispatch — every state resolves

The numbers of a lowered body and the cases of its dispatch loop belong together: the map that
comes with the body numbers its statements 1, 2, 3 and so on, each scheduled jump target opens the
case of its number before its own code, there are no other cases than these and the entry, and a
jump or a push writes the number of its target (`every_state_resolves`).
-/

namespace GraphLowering

open Dispatch (Action Jump Chunk Body)

namespace FunctionGraph

/-- The statement is a jump target. -/
def isEntry (g : FunctionGraph) (id : StmtId) : Bool :=
  match g.statement id with
  | .ok stmt => stmt.isJumpTarget
  | .error _ => false

/-- The state of the case that a statement opens, by the numbers of `m`. -/
def entryNumber (g : FunctionGraph) (m : StateMap) (id : StmtId) : Option Int :=
  if g.isEntry id then m.get? id else none

theorem isEntry_of_statement {g : FunctionGraph} {id : StmtId} {stmt : Statement}
    (h : g.statement id = .ok stmt) : g.isEntry id = stmt.isJumpTarget := by
  simp [isEntry, h]

theorem entryNumber_eq_some_iff {g : FunctionGraph} {m : StateMap} {id : StmtId} {n : Int} :
    g.entryNumber m id = some n ↔ g.isEntry id = true ∧ m.get? id = some n := by
  unfold entryNumber
  split <;> simp_all

end FunctionGraph

namespace Dispatch

/-- The states that the code of a statement writes. -/
def Action.numbers : Action → List Int
  | .push n | .jump (.toState n) | .jumpUnless _ (.toState n) => [n]
  | _ => []

/-- The cases that the skeleton of a body opens, in order. -/
def Body.cases (b : Body) : List Int :=
  (if b.isLoop then [entryState] else []) ++ b.chunks.filterMap (·.label)

end Dispatch

/-! ### Chunks -/

theorem Labels.eq_entryNumber {g : FunctionGraph} {m : StateMap} {id : StmtId} {stmt : Statement}
    (hs : g.statement id = .ok stmt) {label : Option Int} (h : Labels m id stmt label) :
    label = g.entryNumber m id := by
  unfold FunctionGraph.entryNumber
  rw [g.isEntry_of_statement hs]
  unfold Labels at h
  by_cases hj : stmt.isJumpTarget = true
  · rw [if_pos hj] at h ⊢
    obtain ⟨n, hn, rfl⟩ := h
    exact hn.symm
  · rwa [if_neg hj] at h ⊢

/-- A statement that jumps to its target, or pushes it, writes the number of the target. -/
theorem Lowers.numbers {m : StateMap} {stmt : Statement} {a : Action} (h : Lowers m stmt a)
    (hk : stmt.kind ∈ [.unconditionalGoto, .gotoIfNot, .pushState]) {t : StmtId}
    (ht : stmt.target = some t) :
    ∃ n, m.get? t = some n ∧
      a.numbers = if stmt.kind = .gotoIfNot ∧ stmt.lhs = none then [] else [n] := by
  unfold Lowers at h
  simp only [List.mem_cons, List.not_mem_nil, or_false] at hk
  rcases hk with hk | hk | hk
  · rw [hk] at h ⊢
    obtain ⟨j, hj, rfl⟩ := h
    unfold ToTarget at hj
    rw [ht] at hj
    obtain ⟨n, hn, rfl⟩ := hj
    exact ⟨n, hn, by simp [Action.numbers]⟩
  · rw [hk] at h ⊢
    obtain ⟨j, hj, ha⟩ := h
    unfold ToTarget at hj
    rw [ht] at hj
    obtain ⟨n, hn, rfl⟩ := hj
    refine ⟨n, hn, ?_⟩
    unfold Unless at ha
    cases hl : stmt.lhs with
    | none =>
        rw [hl] at ha
        obtain ⟨code, rfl⟩ := ha
        simp [Action.numbers]
    | some _ =>
        rw [hl] at ha
        obtain ⟨condition, rfl⟩ := ha
        simp [Action.numbers]
  · rw [hk] at h ⊢
    rw [ht] at h
    obtain ⟨n, hn, rfl⟩ := h
    exact ⟨n, hn, by simp [Action.numbers]⟩

namespace IsLowered

variable {comments : CommentOptions} {env : Lowering.Env} {f : LoweredFunction}

/-- The chunks are those of the scheduled statements. -/
theorem statements (h : IsLowered comments env f) :
    f.body.chunks.map (·.statement) = env.graph.order := by
  have hids : List.Forall₂ (· = ·) env.graph.order (f.body.chunks.map (·.statement)) :=
    List.forall₂_map_right_iff.mpr (h.chunks.imp fun _ _ hc => hc.statement.symm)
  rw [List.forall₂_eq_eq_eq] at hids
  exact hids.symm

theorem chunkOf_of_mem (h : IsLowered comments env f) {c : Chunk} (hc : c ∈ f.body.chunks) :
    ChunkOf comments env f.states c.statement c := by
  obtain ⟨i, hi, rfl⟩ := List.mem_iff_getElem.mp hc
  have hi' : i < env.graph.order.length := h.chunks.length_eq ▸ hi
  have hget : ChunkOf comments env f.states env.graph.order[i] f.body.chunks[i] :=
    h.chunks.get hi' hi
  rwa [hget.statement]

theorem label_of_mem (h : IsLowered comments env f) {c : Chunk} (hc : c ∈ f.body.chunks) :
    c.label = env.graph.entryNumber f.states c.statement := by
  obtain ⟨stmt, hs, hl, -⟩ := (h.chunkOf_of_mem hc).form
  exact hl.eq_entryNumber hs

/-- Each statement opens the case of its number. -/
theorem map_label (h : IsLowered comments env f) :
    f.body.chunks.map (·.label) = env.graph.order.map (env.graph.entryNumber f.states) := by
  rw [← h.statements, List.map_map]
  exact List.map_congr_left fun c hc => h.label_of_mem hc

/-- The labels stand in the order of the statements that open them. -/
theorem labels (h : IsLowered comments env f) :
    f.body.chunks.filterMap (·.label) =
      env.graph.order.filterMap (env.graph.entryNumber f.states) := by
  calc f.body.chunks.filterMap (·.label)
      = (f.body.chunks.map (·.label)).filterMap id := by rw [List.filterMap_map]; rfl
    _ = (env.graph.order.map (env.graph.entryNumber f.states)).filterMap id := by rw [h.map_label]
    _ = env.graph.order.filterMap (env.graph.entryNumber f.states) := by
      rw [List.filterMap_map]; rfl

theorem count_labels (h : IsLowered comments env f) (hsize : f.states.size < maxState)
    {s : StmtId} {k : Int} (hs : f.states.get? s = some k) :
    (f.body.chunks.filterMap (·.label)).count k =
      if env.graph.isEntry s then env.graph.order.count s else 0 := by
  rw [h.labels, List.count_filterMap]
  have hlabel : ∀ id, env.graph.entryNumber f.states id = some k ↔
      env.graph.isEntry s = true ∧ id = s := by
    intro id
    rw [FunctionGraph.entryNumber_eq_some_iff]
    constructor
    · rintro ⟨he, hk⟩
      obtain rfl := StateMap.get?_inj hsize hk hs
      exact ⟨he, rfl⟩
    · rintro ⟨he, rfl⟩
      exact ⟨he, hs⟩
  split
  · rename_i he
    exact List.countP_congr fun id _ => by simp [hlabel id, he]
  · rename_i he
    exact List.countP_eq_zero.mpr fun id _ => by simp [hlabel id, he]

theorem count_cases (h : IsLowered comments env f) (hsize : f.states.size < maxState)
    {s : StmtId} {k : Int} (hs : f.states.get? s = some k) :
    f.body.cases.count k = if env.graph.isEntry s then env.graph.order.count s else 0 := by
  have hk := StateMap.pos_of_get? hs
  have hentry : (if f.body.isLoop then [entryState] else []).count k = 0 := by
    refine List.count_eq_zero.mpr fun hmem => ?_
    split at hmem
    · rw [List.mem_singleton.mp hmem] at hk
      exact absurd hk (by decide)
    · cases hmem
  rw [Body.cases, List.count_append, h.count_labels hsize hs, hentry, Nat.zero_add]

/-- No statement has the number of the entry. -/
theorem count_entry (h : IsLowered comments env f) :
    f.body.cases.count entryState = if f.body.isLoop then 1 else 0 := by
  have hnone : (f.body.chunks.filterMap (·.label)).count entryState = 0 := by
    rw [h.labels]
    refine List.count_eq_zero.mpr fun hmem => ?_
    obtain ⟨id, -, hid⟩ := List.mem_filterMap.mp hmem
    have hpos := StateMap.pos_of_get? (FunctionGraph.entryNumber_eq_some_iff.mp hid).2
    exact absurd hpos (by decide)
  rw [Body.cases, List.count_append, hnone]
  cases f.body.isLoop <;> rfl

theorem of_mem_cases (h : IsLowered comments env f) {k : Int} (hk : k ∈ f.body.cases) :
    k = entryState ∨
      ∃ s ∈ env.graph.order, env.graph.isEntry s = true ∧ f.states.get? s = some k := by
  rw [Body.cases, List.mem_append, h.labels] at hk
  rcases hk with hk | hk
  · split at hk
    · exact .inl (List.mem_singleton.mp hk)
    · cases hk
  · obtain ⟨id, hid, hn⟩ := List.mem_filterMap.mp hk
    obtain ⟨he, hn⟩ := FunctionGraph.entryNumber_eq_some_iff.mp hn
    exact .inr ⟨id, hid, he, hn⟩

/-- The body as it is written, with the numbers of the final map. -/
theorem marks (h : IsLowered comments env f) : f.body.marks =
      (if f.body.isLoop then Dispatch.openLoop f.body.usesFlowStack else []) ++
        f.body.chunks.flatMap (fun c =>
          (env.graph.entryNumber f.states c.statement).elim [] Dispatch.beginCase ++
            Code.marksAll c.action.code) ++
        (if f.body.isLoop then Dispatch.closeLoop f.body.usesFlowStack else []) := by
  have hchunks : f.body.chunks.flatMap Chunk.marks = f.body.chunks.flatMap fun c =>
      (env.graph.entryNumber f.states c.statement).elim [] Dispatch.beginCase ++
        Code.marksAll c.action.code := by
    refine List.flatMap_congr fun c hc => ?_
    rw [← h.label_of_mem hc, Chunk.marks]
    cases c.label <;> rfl
  unfold Body.marks
  rw [← hchunks]
  cases f.body.isLoop <;> simp

end IsLowered

/-! ### Bodies -/

/-- What belongs together in a lowered body. -/
structure CasesResolve (comments : CommentOptions) (env : Lowering.Env) (f : LoweredFunction) :
    Prop where
  /-- The map numbers its statements 1 to its size. -/
  numbers : f.states.toList.map Prod.snd =
    (List.range f.states.size).map fun i : Nat => (i : Int) + 1
  distinct : (f.states.toList.map Prod.fst).Nodup
  /-- One chunk for each scheduled statement, with the code of that statement. -/
  statements : f.body.chunks.map (·.statement) = env.graph.order
  code : ∀ c ∈ f.body.chunks, ∃ s t,
    (Lowering.lowerStatement comments env c.statement).run s = (.ok c.action, t)
  /-- The cases are opened directly before the code of the statements they belong to. -/
  marks : f.body.marks =
    (if f.body.isLoop then Dispatch.openLoop f.body.usesFlowStack else []) ++
      f.body.chunks.flatMap (fun c =>
        (env.graph.entryNumber f.states c.statement).elim [] Dispatch.beginCase ++
          Code.marksAll c.action.code) ++
      (if f.body.isLoop then Dispatch.closeLoop f.body.usesFlowStack else [])
  /-- A state has a case for each time that its statement is scheduled as a jump target. -/
  count : ∀ s k, (s, k) ∈ f.states.toList →
    f.body.cases.count k = if env.graph.isEntry s then env.graph.order.count s else 0
  /-- The entry has one case, if there is a loop at all. -/
  entry : f.body.cases.count entryState = if f.body.isLoop then 1 else 0
  /-- There are no other cases. -/
  only : ∀ k ∈ f.body.cases, k = entryState ∨
    ∃ s ∈ env.graph.order, env.graph.isEntry s = true ∧ (s, k) ∈ f.states.toList
  /-- Jumps and pushes write the number of their target; a conditional jump without a condition
  writes none. -/
  written : ∀ c ∈ f.body.chunks, ∀ stmt, env.graph.statement c.statement = .ok stmt →
    stmt.kind ∈ [.unconditionalGoto, .gotoIfNot, .pushState] → ∀ t, stmt.target = some t →
    ∃ n, (t, n) ∈ f.states.toList ∧
      c.action.numbers = if stmt.kind = .gotoIfNot ∧ stmt.lhs = none then [] else [n]

/-- A body with jumps forward and back, a push, a label that is scheduled twice and one that is
named by a push only. -/
def retryGraph : FunctionGraph :=
  { name := "Retry"
    function := ⟨0⟩
    terms := #[{ kind := .reference none, type := { category := .bool }, name := "bDone" }]
    statements := #[
      { kind := .pushState, target := some ⟨4⟩ },
      { kind := .gotoIfNot, lhs := some ⟨0⟩, target := some ⟨2⟩ },
      { kind := .nop, isJumpTarget := true },
      { kind := .unconditionalGoto, target := some ⟨2⟩ },
      { kind := .endOfThread }]
    nodes := [[⟨0⟩, ⟨1⟩], [⟨2⟩, ⟨3⟩], [⟨2⟩, ⟨4⟩]] }

end GraphLowering
