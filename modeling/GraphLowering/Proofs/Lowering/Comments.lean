import GraphLowering.Proofs.Code.Texts
import GraphLowering.Proofs.Dispatch.Cases

/-!
# Lowering — comments are presentation

The options about comments reach one place of the lowering, the code of a comment or of a mark for
debugging.  So a run under any options is the run that writes every comment, with the code of the
statements that they leave out taken away afterwards.

* `lowerStatement_under`, `lowerChunk_under`, `lowerBody_under`: this for each part of a body.
* `comments_only_presented`: two runs end in the same state, and their bodies are the same row of
  passages, of which each shows those that its options ask for.
-/

namespace GraphLowering

open Dispatch (Action Body Chunk)

namespace CommentOptions

/-- Every comment and every mark is written. -/
def every : CommentOptions := ⟨true, true⟩

/-- A statement of this kind is a comment or a mark that the options do not ask for. -/
def leavesOut (comments : CommentOptions) : StatementKind → Bool
  | .comment _ => !comments.emitComments
  | .debugSite | .wireTraceSite => !comments.emitDebugSites
  | _ => false

/-- The options leave out the code of a statement of the graph. -/
def hides (comments : CommentOptions) (g : FunctionGraph) (id : StmtId) : Bool :=
  match g.statement id with
  | .ok stmt => comments.leavesOut stmt.kind
  | .error _ => false

end CommentOptions

/-! ### What the options leave of a body -/

/-- The code of a statement, nothing if it is hidden. -/
def Dispatch.Action.unless (hidden : Bool) (a : Action) : Action := if hidden then .plain [] else a

/-- The chunk as it is under given options, where all comments are written at first. -/
def Dispatch.Chunk.under (comments : CommentOptions) (g : FunctionGraph) (c : Chunk) : Chunk :=
  { c with action := c.action.unless (comments.hides g c.statement) }

/-- The body as it is under given options. -/
def Dispatch.Body.under (comments : CommentOptions) (g : FunctionGraph) (b : Body) : Body :=
  { b with chunks := b.chunks.map (Chunk.under comments g) }

/-- The lowered function as it is under given options. -/
def LoweredFunction.under (comments : CommentOptions) (g : FunctionGraph) (f : LoweredFunction) :
    LoweredFunction :=
  { f with body := f.body.under comments g }

namespace Lowering

/-- A comment that is written only when it is wanted. -/
theorem unless_commentLine (wanted : Bool) (text : String) :
    (Action.plain (commentLine true text)).unless (!wanted) =
      .plain (commentLine wanted text) := by
  cases wanted <;> rfl

/-- The options reach the code of comments and marks alone. -/
theorem lowerStatement_under (comments : CommentOptions) (env : Env) (id : StmtId) :
    lowerStatement comments env id =
      Action.unless (comments.hides env.graph id) <$> lowerStatement .every env id := by
  unfold lowerStatement CommentOptions.hides Env.statement
  cases env.graph.statement id with
  | error e => rfl
  | ok stmt =>
      rw [liftBind_ok, liftBind_ok]
      dsimp only
      cases stmt.kind with
      | comment | debugSite | wireTraceSite =>
          rw [map_pure]
          exact congrArg pure (unless_commentLine _ _).symm
      | _ => exact (id_map _).symm

theorem lowerChunk_under (comments : CommentOptions) (env : Env) (isLoop : Bool) (id : StmtId) :
    lowerChunk comments env isLoop id =
      Chunk.under comments env.graph <$> lowerChunk .every env isLoop id := by
  unfold lowerChunk
  rw [lowerStatement_under]
  simp only [map_bind, bind_map_left, map_pure]
  rfl

theorem mapM_lowerChunk_under (comments : CommentOptions) (env : Env) (isLoop : Bool)
    (ids : List StmtId) : ids.mapM (lowerChunk comments env isLoop) =
      List.map (Chunk.under comments env.graph) <$> ids.mapM (lowerChunk .every env isLoop) := by
  induction ids with
  | nil => rfl
  | cons id ids ih =>
      simp only [List.mapM_cons, ih, lowerChunk_under comments env isLoop id, map_bind,
        bind_map_left, map_pure, List.map_cons]

theorem lowerBody_under (comments : CommentOptions) (env : Env) : lowerBody comments env =
    LoweredFunction.under comments env.graph <$> lowerBody .every env := by
  unfold lowerBody
  simp only [mapM_lowerChunk_under comments env, map_bind, bind_map_left, map_pure]
  rfl

end Lowering

/-- **A run under any options** is the run that writes every comment, with what the options hide
taken away. -/
theorem lowerFunction_under (comments : CommentOptions) (cx : Context) (g : FunctionGraph)
    (resumeStates : Option StateMap) (sink : Sink) :
    lowerFunction comments cx g resumeStates sink =
      ((lowerFunction .every cx g resumeStates sink).1.map (·.under comments g),
        (lowerFunction .every cx g resumeStates sink).2) := by
  unfold lowerFunction
  rw [Lowering.lowerBody_under, run_map]

/-! ### Passages -/

/-- The text of one scheduled statement: what opens its case, and its code with every comment. -/
structure Passage where
  statement : StmtId
  opening : String
  code : String

/-- The code of a passage, nothing if the options hide it. -/
def Passage.shown (comments : CommentOptions) (g : FunctionGraph) (p : Passage) : String :=
  if comments.hides g p.statement then "" else p.code

/-- The body is a row of passages between `before` and `after`, one for each chunk, with the code
that the options hide left empty. -/
structure Dispatch.Body.Shows (unit : String) (comments : CommentOptions) (g : FunctionGraph)
    (before : String) (passages : List Passage) (after : String) (b : Body) : Prop where
  chunks : List.Forall₂ (fun p c => c.statement = p.statement ∧ b.caseText unit c = p.opening ∧
    b.codeText unit c = p.shown comments g) passages b.chunks
  text : b.render unit =
    before ++ String.join (passages.map fun p => p.opening ++ p.shown comments g) ++ after

/-- The passages of a body that has every comment. -/
def Dispatch.Body.passages (unit : String) (b : Body) : List Passage :=
  b.chunks.map fun c => ⟨c.statement, b.caseText unit c, b.codeText unit c⟩

/-- What the options hide of a chunk is its code. -/
theorem Dispatch.Body.codeText_under (unit : String) (comments : CommentOptions)
    (g : FunctionGraph) (b : Body) (c : Chunk) :
    (b.under comments g).codeText unit (c.under comments g) =
      if comments.hides g c.statement then "" else b.codeText unit c := by
  change Code.textAt unit b.depth (c.action.unless (comments.hides g c.statement)).code = _
  cases comments.hides g c.statement <;> rfl

/-- A body under given options shows the passages of the one with every comment. -/
theorem Dispatch.Body.shows_under (unit : String) (comments : CommentOptions) (g : FunctionGraph)
    {b : Body} (hb : b.isLoop = false → ∀ c ∈ b.chunks, c.label = none) :
    Body.Shows unit comments g (b.openingText unit) (b.passages unit) (b.closingText unit)
      (b.under comments g) := by
  have hlabels : (b.under comments g).isLoop = false →
      ∀ c ∈ (b.under comments g).chunks, c.label = none := by
    intro hloop c hc
    obtain ⟨c, hmem, rfl⟩ := List.mem_map.mp hc
    exact hb hloop c hmem
  constructor
  · refine List.forall₂_map_left_iff.mpr (List.forall₂_map_right_iff.mpr ?_)
    exact List.forall₂_same.mpr fun c _ => ⟨rfl, rfl, codeText_under unit comments g b c⟩
  · rw [Body.render_eq unit hlabels]
    change b.openingText unit ++ String.join ((b.chunks.map _).map _) ++ b.closingText unit = _
    rw [passages, List.map_map, List.map_map]
    congr 3
    refine List.map_congr_left fun c _ => ?_
    change b.caseText unit c ++ (b.under comments g).codeText unit (c.under comments g) = _
    rw [codeText_under]
    rfl

theorem IsLowered.label_eq_none {comments : CommentOptions} {env : Lowering.Env}
    {f : LoweredFunction} (h : IsLowered comments env f) (hloop : f.body.isLoop = false)
    {c : Chunk} (hc : c ∈ f.body.chunks) : c.label = none := by
  obtain ⟨stmt, hs, hl, -⟩ := (h.chunkOf_of_mem hc).form
  have hid : c.statement ∈ env.graph.order := h.statements ▸ List.mem_map_of_mem hc
  have hj : ¬ stmt.isJumpTarget = true := fun hj => by
    rw [env.graph.needsDispatch_of_isJumpTarget h.isLoop hid hs hj] at hloop
    cases hloop
  rwa [Labels, if_neg hj] at hl

/-- **Comments and marks for debugging are presentation.**  Two runs that differ in the options
about them end in the same state, with the same numbers, calls and diagnostics, and both fail or
both succeed.  The two bodies show the same passages inside the same frame, and each is empty
where its own options hide a comment or a mark. -/
theorem comments_only_presented (a b : CommentOptions) (cx : Context) (g : FunctionGraph)
    (resumeStates : Option StateMap) (sink : Sink) :
    (lowerFunction a cx g resumeStates sink).2 = (lowerFunction b cx g resumeStates sink).2 ∧
    ((∃ e, (lowerFunction a cx g resumeStates sink).1 = .error e ∧
        (lowerFunction b cx g resumeStates sink).1 = .error e) ∨
      ∃ f f', (lowerFunction a cx g resumeStates sink).1 = .ok f ∧
        (lowerFunction b cx g resumeStates sink).1 = .ok f' ∧
        f.states = f'.states ∧ f.calls = f'.calls ∧ f.body.isLoop = f'.body.isLoop ∧
        f.body.usesFlowStack = f'.body.usesFlowStack ∧
        ∀ unit, ∃ before passages after, passages.map (·.statement) = g.order ∧
          f.body.Shows unit a g before passages after ∧
          f'.body.Shows unit b g before passages after) := by
  rw [lowerFunction_under a, lowerFunction_under b]
  refine ⟨rfl, ?_⟩
  cases hrun : lowerFunction .every cx g resumeStates sink with
  | mk result s =>
      cases result with
      | error e => exact .inl ⟨e, rfl, rfl⟩
      | ok f =>
          have hf := lowerFunction_ok hrun
          have hlabels : f.body.isLoop = false → ∀ c ∈ f.body.chunks, c.label = none :=
            fun hloop c hc => hf.label_eq_none hloop hc
          refine .inr ⟨f.under a g, f.under b g, rfl, rfl, rfl, rfl, rfl, rfl, fun unit => ?_⟩
          refine ⟨f.body.openingText unit, f.body.passages unit, f.body.closingText unit, ?_,
            Body.shows_under unit a g hlabels, Body.shows_under unit b g hlabels⟩
          rw [Body.passages, List.map_map]
          exact hf.statements

end GraphLowering
