import GraphLowering.Proofs.Lowering.Parts

/-!
# Lowering — every statement goes through the steps

A relation between states that the steps of lowering respect (`Closed`) is respected by the code
of every statement (`lowerStatement_respects`), and so by the chunks of the body
(`lowerChunks_respects`).  Inside one statement the steps that it takes are enough, and a fatal
problem comes from the marker of a compile error alone (`lowerStatement_inner`).
-/

namespace GraphLowering.Lowering

open FunctionGraph

variable {R : State → State → Prop} {env : Env} {stmt : Statement}

theorem text_respects (hR : InnerClosed R env) {t : TermId} (ht : env.graph.UsesTerm t) :
    Respects R (env.text t) :=
  ((renderer_respects hR).terms ht).1

theorem path_respects (hR : InnerClosed R env) {t : TermId} (ht : env.graph.UsesTerm t) :
    Respects R (env.path t) :=
  ((renderer_respects hR).terms ht).2

theorem malformed_respects (hR : InnerClosed R env) (stmt : Statement) :
    Respects R (malformed stmt) :=
  .bind (hR.report _ (by simp [Problem.severity])) fun _ => .pure _

theorem unsupported_respects (hR : InnerClosed R env) (stmt : Statement) (comment : String) :
    Respects R (unsupported stmt comment) :=
  .bind (hR.report _ (by simp [Problem.severity])) fun _ => .pure _

theorem storing_respects (hR : InnerClosed R env) {lhs : TermId} (ht : env.graph.UsesTerm lhs)
    (body : String → List Code) : Respects R (storing env lhs body) := by
  unfold storing
  refine .liftBind fun term h => ?_
  exact guarded_respects (renderer_respects hR) (fun c hc => .context ht h hc)
    (.bind (path_respects hR ht) fun _ => .pure _)

theorem assignTo_respects (hR : InnerClosed R env) {lhs : TermId} (ht : env.graph.UsesTerm lhs)
    (value : String) : Respects R (assignTo env lhs value) :=
  storing_respects hR ht _

/-! ### Assignments -/

theorem convertedText_respects (hR : InnerClosed R env) (target : ValueType) {rhs : TermId}
    (ht : env.graph.UsesTerm rhs) : Respects R (convertedText env target rhs) := by
  unfold convertedText
  exact .bind (.lift _) fun _ => .bind (.lift _) fun _ => .bind (text_respects hR ht) fun _ =>
    .pure _

theorem lowerAssign_respects (hR : InnerClosed R env) (hs : env.graph.UsesOperands stmt) :
    Respects R (lowerAssign env stmt) := by
  unfold lowerAssign
  split
  · rename_i lhs rhs _ hl hr
    have hlhs := hs.lhs hl
    have hrhs : env.graph.UsesTerm rhs := hs.rhs (by rw [hr]; exact List.mem_cons_self)
    refine .bind (.lift _) fun target => .bind (.lift _) fun source => ?_
    dsimp only
    split
    · split
      · exact .bind (literalText_respects hR.report _ _) fun _ => assignTo_respects hR hlhs _
      · exact .bind (convertedText_respects hR _ hrhs) fun _ => assignTo_respects hR hlhs _
    · exact .bind (convertedText_respects hR _ hrhs) fun _ => assignTo_respects hR hlhs _
  · exact malformed_respects hR stmt

theorem lowerObjectToBool_respects (hR : InnerClosed R env) (hs : env.graph.UsesOperands stmt) :
    Respects R (lowerObjectToBool env stmt) := by
  unfold lowerObjectToBool
  split
  · rename_i lhs rhs _ hl hr
    exact .bind (text_respects hR (hs.rhs (by rw [hr]; exact List.mem_cons_self))) fun _ =>
      assignTo_respects hR (hs.lhs hl) _
  · exact malformed_respects hR stmt

theorem containerElements_respects (hR : InnerClosed R env) (array : String) {ts : List TermId}
    (hts : ∀ t ∈ ts, env.graph.UsesTerm t) (i : Nat) :
    Respects R (containerElements env array i ts) := by
  induction ts generalizing i with
  | nil => exact .pure _
  | cons t ts ih =>
      unfold containerElements
      exact .bind (text_respects hR (hts t List.mem_cons_self)) fun _ =>
        .bind (ih (fun u hu => hts u (List.mem_cons_of_mem _ hu)) _) fun _ => .pure _

theorem lowerCreateContainer_respects (hR : InnerClosed R env) (hs : env.graph.UsesOperands stmt) :
    Respects R (lowerCreateContainer env stmt) := by
  unfold lowerCreateContainer
  split
  · rename_i lhs hl
    exact .bind (path_respects hR (hs.lhs hl)) fun array =>
      .bind (containerElements_respects hR array (fun t ht => hs.rhs ht) 0) fun _ => .pure _
  · exact malformed_respects hR stmt

/-! ### Calls -/

theorem callResult_respects (hR : InnerClosed R env) (f : FunctionId) (returns : List FieldId)
    (call : String) : Respects R (callResult env stmt f returns call) := by
  unfold callResult
  split
  · exact .bind (.lift _) fun _ => .bind (.lift _) fun _ => .bind (.lift _) fun _ => .pure _
  · exact .bind (.lift _) fun _ => .bind (hR.report _ (by simp [Problem.severity])) fun _ => .pure _
  · exact .pure _

theorem callResult_fst {f : FunctionId} {returns : List FieldId} {call : String} {s t : State}
    {lhs : TermId} {value : String}
    (h : (callResult env stmt f returns call).run s = (.ok (some (lhs, value)), t)) :
    stmt.lhs = some lhs := by
  unfold callResult at h
  split at h
  · rename_i hl
    obtain ⟨_, _, -, h⟩ := run_bind_ok h
    obtain ⟨_, _, -, h⟩ := run_bind_ok h
    obtain ⟨_, _, -, h⟩ := run_bind_ok h
    cases h
    exact hl
  · obtain ⟨_, _, -, h⟩ := run_bind_ok h
    obtain ⟨_, _, -, h⟩ := run_bind_ok h
    cases h
  · cases h

/-- Where the result of a call is stored is the left operand of its statement. -/
theorem callResult_bind_respects (hR : InnerClosed R env) (f : FunctionId) (returns : List FieldId)
    (call : String) {β : Type} {k : Option (TermId × String) → Lower β}
    (hk : ∀ result, (∀ lhs value, result = some (lhs, value) → stmt.lhs = some lhs) →
      Respects R (k result)) : Respects R (callResult env stmt f returns call >>= k) := by
  intro s t h
  have hc : Respects R (callResult env stmt f returns call) := callResult_respects hR f returns call
  obtain ⟨he, hr⟩ := hc h
  rw [run_bind, run_bind]
  cases hx : (callResult env stmt f returns call).run s with
  | mk result s' =>
      rw [hx] at he hr
      cases hy : (callResult env stmt f returns call).run t with
      | mk result' t' =>
          rw [hy] at he hr
          cases he
          cases result with
          | error e => exact ⟨rfl, hr⟩
          | ok a => exact hk a (fun lhs value ha => callResult_fst (ha ▸ hx)) hr

theorem lowerCall_respects (hR : InnerClosed R env) (hs : env.graph.UsesCall stmt) :
    Respects R (lowerCall env stmt) := by
  have hr := renderer_respects hR
  unfold lowerCall
  split
  · exact malformed_respects hR stmt
  · rename_i f hf
    refine .bind (.lift _) fun returns => ?_
    dsimp only
    split
    on_goal 1 =>
      refine .bind (.lift _) fun _ => .bind (hR.report _ (by simp [Problem.severity])) fun _ => ?_
    -- The call is made with or without a report.
    all_goals
      refine .bind (callText_respects hR hr hs) fun call => ?_
      refine callResult_bind_respects hR f returns call fun result hresult => ?_
      refine .bind (.lift _) fun decl => guarded_respects hr (fun c hc => ?_) ?_
      · split at hc
        · cases hc
        · exact hs.operands.context hc
      · split
        · exact .bind (path_respects hR (hs.operands.lhs (hresult _ _ rfl))) fun _ => .pure _
        · exact .pure _

theorem lowerCallDelegate_respects (hR : InnerClosed R env) (hs : env.graph.UsesOperands stmt) :
    Respects R (lowerCallDelegate env stmt) := by
  unfold lowerCallDelegate
  split
  · exact malformed_respects hR stmt
  · rename_i delegate hc
    exact .bind (.mapM fun t ht => text_respects hR (hs.rhs ht)) fun _ =>
      storing_respects hR (hs.context hc) _

/-! ### Casts and delegates -/

theorem lowerDynamicCast_respects (hR : InnerClosed R env) (hs : env.graph.UsesOperands stmt) :
    Respects R (lowerDynamicCast env stmt) := by
  unfold lowerDynamicCast
  split
  · rename_i lhs source hl hr
    exact .bind (.lift _) fun _ =>
      .bind (text_respects hR (hs.rhs (List.mem_of_getLast? hr))) fun _ =>
        assignTo_respects hR (hs.lhs hl) _
  · exact malformed_respects hR stmt

theorem lowerMetaCast_respects (hR : InnerClosed R env) (hs : env.graph.UsesOperands stmt) :
    Respects R (lowerMetaCast env stmt) := by
  unfold lowerMetaCast
  split
  · rename_i lhs cls source hl hr
    exact .bind (text_respects hR (hs.rhs (by simp [hr]))) fun _ =>
      .bind (text_respects hR (hs.rhs (by simp [hr]))) fun _ => assignTo_respects hR (hs.lhs hl) _
  · exact malformed_respects hR stmt

theorem lowerInterfaceToObject_respects (hR : InnerClosed R env)
    (hs : env.graph.UsesOperands stmt) :
    Respects R (lowerInterfaceToObject env stmt) := by
  unfold lowerInterfaceToObject
  split
  · rename_i lhs source hl hr
    exact .bind (.lift _) fun _ =>
      .bind (text_respects hR (hs.rhs (List.mem_of_getLast? hr))) fun _ =>
        assignTo_respects hR (hs.lhs hl) _
  · exact malformed_respects hR stmt

theorem lowerInterfaceCast_respects (hR : InnerClosed R env) (hs : env.graph.UsesOperands stmt) :
    Respects R (lowerInterfaceCast env stmt) := by
  unfold lowerInterfaceCast
  split
  · rename_i lhs cls source hl hr
    exact .bind (text_respects hR (hs.rhs (by simp [hr]))) fun _ =>
      .bind (text_respects hR (hs.rhs (by simp [hr]))) fun _ => .bind (.lift _) fun _ =>
        storing_respects hR (hs.lhs hl) _
  · exact malformed_respects hR stmt

theorem delegateEdit?_respects (hR : InnerClosed R env) (hs : env.graph.UsesOperands stmt) :
    Respects R (delegateEdit? env stmt) := by
  unfold delegateEdit?
  split
  · rename_i handler _ hr
    exact .bind (text_respects hR (hs.rhs (by simp [hr]))) fun _ => .pure _
  · rename_i handler _ hr
    exact .bind (text_respects hR (hs.rhs (by simp [hr]))) fun _ => .pure _
  · exact .pure _
  · rename_i name object _ hr
    exact .bind (text_respects hR (hs.rhs (by simp [hr]))) fun _ =>
      .bind (text_respects hR (hs.rhs (by simp [hr]))) fun _ => .pure _
  · exact .pure _

theorem lowerDelegateEdit_respects (hR : InnerClosed R env) (hs : env.graph.UsesOperands stmt) :
    Respects R (lowerDelegateEdit env stmt) := by
  unfold lowerDelegateEdit
  split
  · exact malformed_respects hR stmt
  · rename_i lhs hl
    refine .bind (delegateEdit?_respects hR hs) fun edit => ?_
    split
    · exact malformed_respects hR stmt
    · exact storing_respects hR (hs.lhs hl) _

/-! ### Jumps -/

theorem targetJump_respects (hR : InnerClosed R env) (stmt : Statement) :
    Respects R (targetJump stmt) := by
  unfold targetJump
  split
  · exact .bind (hR.localState _) fun _ => .pure _
  · exact .bind (hR.report _ (by simp [Problem.severity])) fun _ => .pure _

theorem jumpUnless_respects (hR : InnerClosed R env) (hs : env.graph.UsesOperands stmt)
    (target : Dispatch.Jump) : Respects R (jumpUnless env stmt target) := by
  unfold jumpUnless
  split
  · rename_i condition hl
    exact .bind (text_respects hR (hs.lhs hl)) fun _ => .pure _
  · exact .bind (malformed_respects hR stmt) fun _ => .pure _

theorem lowerComputedGoto_respects (hR : InnerClosed R env) (hs : env.graph.UsesOperands stmt) :
    Respects R (lowerComputedGoto env stmt) := by
  unfold lowerComputedGoto
  split
  · rename_i state hl
    exact .bind (text_respects hR (hs.lhs hl)) fun _ => .pure _
  · exact .bind (malformed_respects hR stmt) fun _ => .pure _

theorem lowerPushState_respects (hR : InnerClosed R env) (stmt : Statement) :
    Respects R (lowerPushState stmt) := by
  unfold lowerPushState
  split
  · exact .bind (hR.localState _) fun _ => .pure _
  · exact .bind (hR.report _ (by simp [Problem.severity])) fun _ => .pure _

/-! ### All statements -/

/-- What the steps inside a statement respect, its code respects, if the marker of a compile error
does. -/
theorem lowerStatement_inner (hR : InnerClosed R env) (comments : CommentOptions) {id : StmtId}
    (hs : env.graph.UsesStatement id)
    (hmarker : ∀ stmt message, env.graph.statement id = .ok stmt →
      stmt.kind = .compileError message → Respects R (report (.compileErrorMarker message))) :
    Respects R (lowerStatement comments env id) := by
  unfold lowerStatement
  refine .liftBind fun stmt h => ?_
  have ho := hs.operands h
  cases hk : stmt.kind with
  | nop | gotoReturn | endOfThread | comment _ | debugSite | wireTraceSite => exact .pure _
  | call => exact .bind (lowerCall_respects hR ⟨id, hs, h, hk⟩) fun _ => .pure _
  | callDelegate => exact .bind (lowerCallDelegate_respects hR ho) fun _ => .pure _
  | assign => exact .bind (lowerAssign_respects hR ho) fun _ => .pure _
  | compileError message =>
      exact .bind (.bind (hmarker stmt message h hk) fun _ => .pure _) fun _ => .pure _
  | pushState => exact lowerPushState_respects hR stmt
  | unconditionalGoto => exact .bind (targetJump_respects hR stmt) fun _ => .pure _
  | gotoIfNot => exact .bind (targetJump_respects hR stmt) fun _ => jumpUnless_respects hR ho _
  | computedGoto => exact lowerComputedGoto_respects hR ho
  | gotoReturnIfNot | endOfThreadIfNot => exact jumpUnless_respects hR ho _
  | dynamicCast => exact .bind (lowerDynamicCast_respects hR ho) fun _ => .pure _
  | metaCast => exact .bind (lowerMetaCast_respects hR ho) fun _ => .pure _
  | objectToInterface | interfaceToInterface =>
      exact .bind (lowerInterfaceCast_respects hR ho) fun _ => .pure _
  | interfaceToObject => exact .bind (lowerInterfaceToObject_respects hR ho) fun _ => .pure _
  | objectToBool => exact .bind (lowerObjectToBool_respects hR ho) fun _ => .pure _
  | addMulticastDelegate | removeMulticastDelegate | clearMulticastDelegate | bindDelegate =>
      exact .bind (lowerDelegateEdit_respects hR ho) fun _ => .pure _
  | createContainer => exact .bind (lowerCreateContainer_respects hR ho) fun _ => .pure _
  | returnStatement | switchOnValue | assignOnPersistentFrame =>
      exact .bind (unsupported_respects hR stmt _) fun _ => .pure _

theorem lowerStatement_respects (hR : Closed R env) (comments : CommentOptions) {id : StmtId}
    (hs : env.graph.UsesStatement id) : Respects R (lowerStatement comments env id) :=
  lowerStatement_inner hR.inner comments hs fun _ _ _ _ => hR.report _

theorem caseLabel_respects (hR : InnerClosed R env) (isLoop : Bool) (id : StmtId) :
    Respects R (caseLabel env isLoop id) := by
  unfold caseLabel
  split
  · refine .bind (.lift _) fun stmt => ?_
    split
    · exact .bind (hR.localState _) fun _ => .pure _
    · exact .pure _
  · exact .pure _

theorem lowerChunk_respects (hR : Closed R env) (comments : CommentOptions) (isLoop : Bool)
    {id : StmtId} (hs : id ∈ env.graph.order) : Respects R (lowerChunk comments env isLoop id) := by
  unfold lowerChunk
  exact .bind (caseLabel_respects hR.inner isLoop id) fun _ => .bind (hR.atStatement _) fun _ =>
    .bind (lowerStatement_respects hR comments (.scheduled hs)) fun _ => .pure _

/-- **Lowering touches the state through its steps alone.**  What the steps respect, the lowering
of the scheduled statements respects. -/
theorem lowerChunks_respects (hR : Closed R env) (comments : CommentOptions) (isLoop : Bool) :
    Respects R (env.graph.order.mapM (lowerChunk comments env isLoop)) :=
  .mapM fun _ hs => lowerChunk_respects hR comments isLoop hs

end GraphLowering.Lowering
