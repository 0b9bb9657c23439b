import GraphLowering.Proofs.Lowering.Statements
import GraphLowering.Proofs.Totality.Expressions

/-!
# Totality — statements and functions

The lowering of a graph in range comes to an end (`SoundEnv.lowerBody`), whatever the kinds of its
statements and whether or not they have their operands.
-/

namespace GraphLowering.Lowering

variable {A : Prop} {env : Env} {stmt : Statement}

namespace SoundEnv

theorem text (h : SoundEnv A env) {t : TermId} (ht : t.InRange env.graph) :
    Completes A (env.text t) :=
  (h.rendererFrom env.graph.height t (h.renderable ht)).1

theorem path (h : SoundEnv A env) {t : TermId} (ht : t.InRange env.graph) :
    Completes A (env.path t) :=
  (h.rendererFrom env.graph.height t (h.renderable ht)).2

end SoundEnv

/-! ### Operands -/

theorem mem_operands_of_lhs {t : TermId} (ht : stmt.lhs = some t) : t ∈ stmt.operands := by
  simp [Statement.operands, ht]

theorem mem_operands_of_rhs {t : TermId} (ht : t ∈ stmt.rhs) : t ∈ stmt.operands := by
  simp [Statement.operands, ht]

theorem mem_operands_of_context {t : TermId} (ht : stmt.context = some t) : t ∈ stmt.operands := by
  simp [Statement.operands, ht]

theorem malformed_completes (stmt : Statement) : Completes A (malformed stmt) :=
  .bind (report_completes _) fun _ => .pure _

theorem unsupported_completes (stmt : Statement) (comment : String) :
    Completes A (unsupported stmt comment) :=
  .bind (report_completes _) fun _ => .pure _

namespace SoundEnv

theorem storing (h : SoundEnv A env) {lhs : TermId} (hlhs : lhs.InRange env.graph)
    (body : String → List Code) : Completes A (storing env lhs body) := by
  refine .liftBind (h.term hlhs) fun term ⟨_, hrange⟩ => ?_
  exact h.guarded (h.rendererFrom _) (fun c hc => h.renderable (hrange.context c hc))
    (.bind (h.path hlhs) fun _ => .pure _)

/-! ### Assignments -/

theorem convertedText (h : SoundEnv A env) {target : ValueType}
    (htarget : target.InRange env.cx.extent) {rhs : TermId} (hrhs : rhs.InRange env.graph) :
    Completes A (convertedText env target rhs) :=
  .liftBind (h.term hrhs) fun _ _ => .liftBind (h.conversion? htarget) fun _ _ =>
    .bind (h.text hrhs) fun _ => .pure _

theorem lowerAssign (h : SoundEnv A env) (hs : stmt.InRange env.cx.extent env.graph) :
    Completes A (lowerAssign env stmt) := by
  unfold Lowering.lowerAssign
  split
  · rename_i lhs rhs _ hl hr
    have hlhs := hs.operands lhs (mem_operands_of_lhs hl)
    have hrhs := hs.operands rhs (mem_operands_of_rhs (by simp [hr]))
    refine .liftBind (h.term hlhs) fun target ⟨_, htarget⟩ => ?_
    refine .liftBind (h.term hrhs) fun source ⟨_, hsource⟩ => ?_
    have hconverted :
        Completes A (Lowering.convertedText env target.type rhs >>= assignTo env lhs) :=
      .bind (h.convertedText htarget.type hrhs) fun _ => h.storing hlhs _
    dsimp only
    split
    · rename_i v hv
      have hkind := hsource.kind
      rw [hv] at hkind
      split
      · exact .bind (h.literalText htarget.type hkind) fun _ => h.storing hlhs _
      · exact hconverted
    · exact hconverted
  · exact malformed_completes stmt

theorem lowerObjectToBool (h : SoundEnv A env) (hs : stmt.InRange env.cx.extent env.graph) :
    Completes A (lowerObjectToBool env stmt) := by
  unfold Lowering.lowerObjectToBool
  split
  · rename_i lhs rhs _ hl hr
    exact .bind (h.text (hs.operands rhs (mem_operands_of_rhs (by simp [hr])))) fun _ =>
      h.storing (hs.operands lhs (mem_operands_of_lhs hl)) _
  · exact malformed_completes stmt

theorem containerElements (h : SoundEnv A env) (array : String) {ts : List TermId}
    (hts : ∀ t ∈ ts, t.InRange env.graph) (i : Nat) :
    Completes A (containerElements env array i ts) := by
  induction ts generalizing i with
  | nil => exact .pure _
  | cons t ts ih =>
      exact .bind (h.text (hts t List.mem_cons_self)) fun _ =>
        .bind (ih (fun u hu => hts u (List.mem_cons_of_mem _ hu)) _) fun _ => .pure _

theorem lowerCreateContainer (h : SoundEnv A env) (hs : stmt.InRange env.cx.extent env.graph) :
    Completes A (lowerCreateContainer env stmt) := by
  unfold Lowering.lowerCreateContainer
  split
  · rename_i lhs hl
    have helements := fun array => h.containerElements array
      (fun t ht => hs.operands t (mem_operands_of_rhs ht)) 0
    exact .bind (h.path (hs.operands lhs (mem_operands_of_lhs hl))) fun array =>
      .bind (helements array) fun _ => .pure _
  · exact malformed_completes stmt

/-! ### Calls -/

theorem callResult (h : SoundEnv A env) (hs : stmt.InRange env.cx.extent env.graph)
    {f : FunctionId} (hf : f.InRange env.cx.extent) {returns : List FieldId}
    (hreturns : ∀ p ∈ returns, p.InRange env.cx.extent) (call : String) :
    Completes A (callResult env stmt f returns call) := by
  unfold Lowering.callResult
  split
  · rename_i ret _ lhs hl
    have hlhs := hs.operands lhs (mem_operands_of_lhs hl)
    refine .liftBind (h.term hlhs) fun target ⟨_, htarget⟩ => ?_
    exact .liftBind (h.context.field (hreturns ret List.mem_cons_self)) fun _ _ =>
      .liftBind (h.conversion? htarget.type) fun _ _ => .pure _
  · exact .liftBind (h.context.functionName hf) fun _ _ => .bind (report_completes _) fun _ =>
      .pure _
  · exact .pure _

theorem lowerCall (h : SoundEnv A env) (hs : stmt.InRange env.cx.extent env.graph) :
    Completes A (lowerCall env stmt) := by
  unfold Lowering.lowerCall
  split
  · exact malformed_completes stmt
  · rename_i f hfunction
    have hf := hs.function f hfunction
    have hoperands : Operands A env.graph env.graph.height stmt := by
      intro t ht
      refine h.renderable (hs.operands t ?_)
      simp only [Statement.operands, List.append_assoc]
      exact List.mem_append_right _ ht
    refine .liftBind (h.context.returnFields hf) fun returns hreturns => ?_
    dsimp only
    split
    on_goal 1 =>
      refine .liftBind (h.context.functionName hf) fun _ _ => .bind (report_completes _) fun _ => ?_
    -- The call is made with or without a report.
    all_goals
      refine .bind (h.callText (h.rendererFrom _) hs.function hoperands) fun call => ?_
      refine .bindRun (h.callResult hs hf hreturns call) fun result hresult => ?_
      refine .liftBind (h.context.function hf) fun decl _ => ?_
      refine h.guarded (h.rendererFrom _) (fun c hc => ?_) ?_
      · split at hc
        · cases hc
        · exact h.renderable (hs.operands c (mem_operands_of_context hc))
      · split
        · -- Where the result is stored is the left operand of the statement.
          rename_i lhs value
          obtain ⟨s, t, hrun⟩ := hresult
          have hlhs := hs.operands lhs (mem_operands_of_lhs (callResult_fst hrun))
          exact .bind (h.path hlhs) fun _ => .pure _
        · exact .pure _

theorem lowerCallDelegate (h : SoundEnv A env) (hs : stmt.InRange env.cx.extent env.graph) :
    Completes A (lowerCallDelegate env stmt) := by
  unfold Lowering.lowerCallDelegate
  split
  · exact malformed_completes stmt
  · rename_i delegate hc
    exact .bind (.mapM fun t ht => h.text (hs.operands t (mem_operands_of_rhs ht))) fun _ =>
      h.storing (hs.operands delegate (mem_operands_of_context hc)) _

/-! ### Casts and delegates -/

theorem castClass (h : SoundEnv A env) {lhs : TermId} (hlhs : lhs.InRange env.graph) :
    Ends A (castClass env lhs) :=
  .bind (h.term hlhs) fun _ ⟨_, hrange⟩ => h.context.cppNameOr _ hrange.type.subType

theorem lowerDynamicCast (h : SoundEnv A env) (hs : stmt.InRange env.cx.extent env.graph) :
    Completes A (lowerDynamicCast env stmt) := by
  unfold Lowering.lowerDynamicCast
  split
  · rename_i lhs source hl hr
    have hlhs := hs.operands lhs (mem_operands_of_lhs hl)
    have hsource := hs.operands source (mem_operands_of_rhs (List.mem_of_getLast? hr))
    exact .liftBind (h.castClass hlhs) fun _ _ => .bind (h.text hsource) fun _ => h.storing hlhs _
  · exact malformed_completes stmt

theorem lowerMetaCast (h : SoundEnv A env) (hs : stmt.InRange env.cx.extent env.graph) :
    Completes A (lowerMetaCast env stmt) := by
  unfold Lowering.lowerMetaCast
  split
  · rename_i lhs cls source hl hr
    have hcls := hs.operands cls (mem_operands_of_rhs (by simp [hr]))
    have hsource := hs.operands source (mem_operands_of_rhs (by simp [hr]))
    exact .bind (h.text hcls) fun _ => .bind (h.text hsource) fun _ =>
      h.storing (hs.operands lhs (mem_operands_of_lhs hl)) _
  · exact malformed_completes stmt

theorem lowerInterfaceToObject (h : SoundEnv A env)
    (hs : stmt.InRange env.cx.extent env.graph) :
    Completes A (lowerInterfaceToObject env stmt) := by
  unfold Lowering.lowerInterfaceToObject
  split
  · rename_i lhs source hl hr
    have hlhs := hs.operands lhs (mem_operands_of_lhs hl)
    have hsource := hs.operands source (mem_operands_of_rhs (List.mem_of_getLast? hr))
    exact .liftBind (h.castClass hlhs) fun _ _ => .bind (h.text hsource) fun _ => h.storing hlhs _
  · exact malformed_completes stmt

theorem lowerInterfaceCast (h : SoundEnv A env) (hs : stmt.InRange env.cx.extent env.graph) :
    Completes A (lowerInterfaceCast env stmt) := by
  unfold Lowering.lowerInterfaceCast
  split
  · rename_i lhs cls source hl hr
    have hcls := hs.operands cls (mem_operands_of_rhs (by simp [hr]))
    have hsource := hs.operands source (mem_operands_of_rhs (by simp [hr]))
    exact .bind (h.text hcls) fun _ => .bind (h.text hsource) fun _ =>
      .liftBind (h.term hsource) fun _ _ =>
        h.storing (hs.operands lhs (mem_operands_of_lhs hl)) _
  · exact malformed_completes stmt

theorem delegateEdit? (h : SoundEnv A env) (hs : stmt.InRange env.cx.extent env.graph) :
    Completes A (delegateEdit? env stmt) := by
  have hrhs : ∀ t ∈ stmt.rhs, Completes A (env.text t) := fun t ht =>
    h.text (hs.operands t (mem_operands_of_rhs ht))
  unfold Lowering.delegateEdit?
  split
  · rename_i handler _ hr
    exact .bind (hrhs handler (by simp [hr])) fun _ => .pure _
  · rename_i handler _ hr
    exact .bind (hrhs handler (by simp [hr])) fun _ => .pure _
  · exact .pure _
  · rename_i name object _ hr
    exact .bind (hrhs object (by simp [hr])) fun _ => .bind (hrhs name (by simp [hr])) fun _ =>
      .pure _
  · exact .pure _

theorem lowerDelegateEdit (h : SoundEnv A env) (hs : stmt.InRange env.cx.extent env.graph) :
    Completes A (lowerDelegateEdit env stmt) := by
  unfold Lowering.lowerDelegateEdit
  split
  · exact malformed_completes stmt
  · rename_i lhs hl
    refine .bind (h.delegateEdit? hs) fun edit => ?_
    cases edit with
    | none => exact malformed_completes stmt
    | some edit => exact h.storing (hs.operands lhs (mem_operands_of_lhs hl)) _

end SoundEnv

/-! ### Jumps -/

theorem targetJump_completes (stmt : Statement) : Completes A (targetJump stmt) := by
  unfold targetJump
  split
  · exact .bind (localState_completes _) fun _ => .pure _
  · exact .bind (report_completes _) fun _ => .pure _

theorem lowerPushState_completes (stmt : Statement) : Completes A (lowerPushState stmt) := by
  unfold lowerPushState
  split
  · exact .bind (localState_completes _) fun _ => .pure _
  · exact .bind (report_completes _) fun _ => .pure _

namespace SoundEnv

theorem jumpUnless (h : SoundEnv A env) (hs : stmt.InRange env.cx.extent env.graph)
    (target : Dispatch.Jump) : Completes A (jumpUnless env stmt target) := by
  unfold Lowering.jumpUnless
  split
  · rename_i condition hl
    exact .bind (h.text (hs.operands condition (mem_operands_of_lhs hl))) fun _ => .pure _
  · exact .bind (malformed_completes stmt) fun _ => .pure _

theorem lowerComputedGoto (h : SoundEnv A env) (hs : stmt.InRange env.cx.extent env.graph) :
    Completes A (lowerComputedGoto env stmt) := by
  unfold Lowering.lowerComputedGoto
  split
  · rename_i state hl
    exact .bind (h.text (hs.operands state (mem_operands_of_lhs hl))) fun _ => .pure _
  · exact .bind (malformed_completes stmt) fun _ => .pure _

/-! ### All statements -/

theorem lowerStatement (h : SoundEnv A env) (comments : CommentOptions) {id : StmtId}
    (hid : id.InRange env.graph) : Completes A (lowerStatement comments env id) := by
  refine .liftBind (h.statement hid) fun stmt ⟨_, hs⟩ => ?_
  cases stmt.kind with
  | nop | gotoReturn | endOfThread | comment _ | debugSite | wireTraceSite => exact .pure _
  | call => exact .bind (h.lowerCall hs) fun _ => .pure _
  | callDelegate => exact .bind (h.lowerCallDelegate hs) fun _ => .pure _
  | assign => exact .bind (h.lowerAssign hs) fun _ => .pure _
  | compileError _ => exact .bind (.bind (report_completes _) fun _ => .pure _) fun _ => .pure _
  | pushState => exact lowerPushState_completes stmt
  | unconditionalGoto => exact .bind (targetJump_completes stmt) fun _ => .pure _
  | gotoIfNot => exact .bind (targetJump_completes stmt) fun _ => h.jumpUnless hs _
  | computedGoto => exact h.lowerComputedGoto hs
  | gotoReturnIfNot | endOfThreadIfNot => exact h.jumpUnless hs _
  | dynamicCast => exact .bind (h.lowerDynamicCast hs) fun _ => .pure _
  | metaCast => exact .bind (h.lowerMetaCast hs) fun _ => .pure _
  | objectToInterface | interfaceToInterface =>
      exact .bind (h.lowerInterfaceCast hs) fun _ => .pure _
  | interfaceToObject => exact .bind (h.lowerInterfaceToObject hs) fun _ => .pure _
  | objectToBool => exact .bind (h.lowerObjectToBool hs) fun _ => .pure _
  | addMulticastDelegate | removeMulticastDelegate | clearMulticastDelegate | bindDelegate =>
      exact .bind (h.lowerDelegateEdit hs) fun _ => .pure _
  | createContainer => exact .bind (h.lowerCreateContainer hs) fun _ => .pure _
  | returnStatement | switchOnValue | assignOnPersistentFrame =>
      exact .bind (unsupported_completes stmt _) fun _ => .pure _

/-! ### Functions -/

theorem caseLabel (h : SoundEnv A env) (isLoop : Bool) {id : StmtId} (hid : id.InRange env.graph) :
    Completes A (caseLabel env isLoop id) := by
  unfold Lowering.caseLabel
  split
  · refine .liftBind (h.statement hid) fun stmt _ => ?_
    split
    · exact .bind (localState_completes _) fun _ => .pure _
    · exact .pure _
  · exact .pure _

theorem lowerChunk (h : SoundEnv A env) (comments : CommentOptions) (isLoop : Bool) {id : StmtId}
    (hid : id.InRange env.graph) : Completes A (lowerChunk comments env isLoop id) :=
  .bind (h.caseLabel isLoop hid) fun _ =>
    .bind (fun _ => trivial : Completes A (atStatement (some id))) fun _ =>
      .bind (h.lowerStatement comments hid) fun _ => .pure _

theorem needsFlowStack (h : SoundEnv A env) : Ends A env.graph.needsFlowStack :=
  .anyM fun id hid => .bind (h.statement (h.graph.order id hid)) fun _ _ => .pure trivial

theorem needsDispatch (h : SoundEnv A env) : Ends A env.graph.needsDispatch :=
  .anyM fun id hid => .bind (h.statement (h.graph.order id hid)) fun _ _ => .pure trivial

/-- **The lowering of a graph in range comes to an end.** -/
theorem lowerBody (h : SoundEnv A env) (comments : CommentOptions) :
    Completes A (lowerBody comments env) := by
  refine .liftBind h.needsFlowStack fun usesFlowStack _ => ?_
  refine .liftBind h.needsDispatch fun isLoop _ => ?_
  refine .bind (.mapM fun id hid => h.lowerChunk comments isLoop (h.graph.order id hid))
    fun chunks => ?_
  exact fun _ => trivial

end SoundEnv

end GraphLowering.Lowering
