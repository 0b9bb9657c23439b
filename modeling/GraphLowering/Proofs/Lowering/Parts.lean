import GraphLowering.Proofs.Literals
import GraphLowering.Proofs.Lookup
import GraphLowering.Proofs.Lowering.Runs

/-!
# Lowering — the parts of a function

Which statements and terms of a graph take part in its lowering: the scheduled statements, the
operands of these, the contexts of operands, and the statements that operands stand for
(`UsesStatement`, `UsesTerm`).

A relation between states that the steps of lowering respect (`Closed`) is respected by every
expression of the graph (`renderer_respects`).  An expression moves the sink to no other statement
and reports nothing fatal, so fewer steps are enough (`InnerClosed`).  For calls this is asked of
their arguments as a whole, for each call that takes part.
-/

namespace GraphLowering

/-- The terms that a statement names. -/
def Statement.operands (s : Statement) : List TermId := s.lhs.toList ++ s.rhs ++ s.context.toList

/-- A call with this statement puts the state of `label` into one of its arguments. -/
def Statement.AsksFor (stmt : Statement) (schema : Schema) (label : StmtId) : Prop :=
  ∃ f params i, stmt.function = some f ∧ schema.inputFields f = .ok params ∧
    stmt.resumeArgument = some i ∧ i < params.length ∧ i < stmt.rhs.length ∧
    stmt.target = some label

namespace FunctionGraph

mutual

/-- The statement takes part in the lowering of the graph. -/
inductive UsesStatement (g : FunctionGraph) : StmtId → Prop
  | scheduled {id : StmtId} (h : id ∈ g.order) : UsesStatement g id
  | inlined {t : TermId} {term : Term} {id : StmtId} (ht : UsesTerm g t)
      (h : g.term t = .ok term) (hk : term.kind = .inline id) : UsesStatement g id

/-- The term takes part in the lowering of the graph. -/
inductive UsesTerm (g : FunctionGraph) : TermId → Prop
  | operand {id : StmtId} {stmt : Statement} {t : TermId} (hs : UsesStatement g id)
      (h : g.statement id = .ok stmt) (ht : t ∈ stmt.operands) : UsesTerm g t
  | context {t c : TermId} {term : Term} (ht : UsesTerm g t) (h : g.term t = .ok term)
      (hc : term.context = some c) : UsesTerm g c

end

/-- The operands of a statement take part. -/
def UsesOperands (g : FunctionGraph) (stmt : Statement) : Prop := ∀ t ∈ stmt.operands, g.UsesTerm t

/-- A call that takes part, as a statement or inside an expression. -/
def UsesCall (g : FunctionGraph) (stmt : Statement) : Prop :=
  ∃ id, g.UsesStatement id ∧ g.statement id = .ok stmt ∧ stmt.kind = .call

variable {g : FunctionGraph} {stmt : Statement} {t : TermId}

theorem UsesStatement.operands {id : StmtId} (hs : g.UsesStatement id)
    (h : g.statement id = .ok stmt) : g.UsesOperands stmt :=
  fun _ ht => .operand hs h ht

theorem UsesOperands.lhs (h : g.UsesOperands stmt) (ht : stmt.lhs = some t) : g.UsesTerm t :=
  h t (by simp [Statement.operands, ht])

theorem UsesOperands.rhs (h : g.UsesOperands stmt) (ht : t ∈ stmt.rhs) : g.UsesTerm t :=
  h t (by simp [Statement.operands, ht])

theorem UsesOperands.context (h : g.UsesOperands stmt) (ht : stmt.context = some t) :
    g.UsesTerm t :=
  h t (by simp [Statement.operands, ht])

theorem UsesCall.operands (h : g.UsesCall stmt) : g.UsesOperands stmt := by
  obtain ⟨_, hs, h, -⟩ := h
  exact hs.operands h

end FunctionGraph

namespace Lowering

open FunctionGraph

/-- A renderer of some depth, for which terms that take part are rendered respecting `R`. -/
structure Renderer.Respects (R : State → State → Prop) (env : Env) (r : Renderer) : Prop where
  depth : ∃ n, r = rendererFrom env n
  terms : ∀ ⦃t : TermId⦄, env.graph.UsesTerm t →
    Lowering.Respects R (r.guarded t) ∧ Lowering.Respects R (r.bare t)

/-- `R` is respected by the steps that touch the state. -/
structure Closed (R : State → State → Prop) (env : Env) : Prop where
  report (p : Problem) : Respects R (report p)
  atStatement (id : Option StmtId) : Respects R (atStatement id)
  localState (target : StmtId) : Respects R (localState target)
  recordInline (id : StmtId) : Respects R (recordInline id)
  callArguments {r : Renderer} {stmt : Statement} {f : FunctionId} (hr : r.Respects R env)
    (hs : env.graph.UsesCall stmt) (hf : stmt.function = some f) :
    Respects R (callArguments env r stmt f)

/-- `R` is respected by the steps inside a statement, of which none reports a fatal problem. -/
structure InnerClosed (R : State → State → Prop) (env : Env) : Prop where
  report (p : Problem) (hp : p.severity ≠ .fatal) : Respects R (report p)
  localState (target : StmtId) : Respects R (localState target)
  recordInline (id : StmtId) : Respects R (recordInline id)
  callArguments {r : Renderer} {stmt : Statement} {f : FunctionId} (hr : r.Respects R env)
    (hs : env.graph.UsesCall stmt) (hf : stmt.function = some f) :
    Respects R (callArguments env r stmt f)

variable {R : State → State → Prop} {env : Env} {r : Renderer} {stmt : Statement}

theorem Closed.inner (h : Closed R env) : InnerClosed R env where
  report p _ := h.report p
  localState := h.localState
  recordInline := h.recordInline
  callArguments := h.callArguments

/-! ### Expressions -/

theorem literalText_respects (hp : ∀ p, p.severity ≠ .fatal → Respects R (report p))
    (t : ValueType) (v : Value) :
    Respects R (literalText env t v) := by
  unfold literalText
  refine .liftBind fun result hresult => ?_
  split
  · exact .pure _
  · exact .bind (hp _ (Literal.render_severity hresult)) fun _ => .lift _

theorem referencePath_respects (hr : r.Respects R env) {t : TermId} {term : Term}
    (ht : env.graph.UsesTerm t) (h : env.term t = .ok term) (field : Option FieldId) :
    Respects R (referencePath env r term field) := by
  unfold referencePath
  refine .bind (.lift _) fun name => ?_
  split
  · exact .pure _
  · rename_i c hc
    refine .bind (.lift _) fun context => ?_
    split
    · exact .pure _
    · refine .bind (hr.terms (.context ht h hc)).2 fun path => ?_
      split
      · exact .pure _
      · split
        · refine .bind (.lift _) fun owner => ?_
          split
          · exact .bind (.lift _) fun _ => .pure _
          · exact .pure _
        · exact .pure _

theorem latentInfoText_respects (hp : ∀ p, p.severity ≠ .fatal → Respects R (report p))
    (hr : r.Respects R env)
    {arg : TermId} (ht : env.graph.UsesTerm arg) (state : Int) :
    Respects R (latentInfoText env r arg state) := by
  unfold latentInfoText
  refine .bind (.lift _) fun term => ?_
  split
  · exact .bind (.lift _) fun info => literalText_respects hp _ _
  · exact (hr.terms ht).1

theorem argumentText_respects (hp : ∀ p, p.severity ≠ .fatal → Respects R (report p))
    (hr : r.Respects R env)
    {resume : Option StmtId} (hl : ∀ label, resume = some label → Respects R (resumeState label))
    (param : FieldDecl) {arg : TermId} (ht : env.graph.UsesTerm arg) :
    Respects R (argumentText env r resume param arg) := by
  unfold argumentText
  split
  · rename_i label
    refine .bind (hl label rfl) fun state => .bind (.lift _) fun isLatent => ?_
    split
    · exact latentInfoText_respects hp hr ht state
    · exact .pure _
  · split
    · exact .bind (hr.terms ht).2 fun _ => .pure _
    · exact .bind (.lift _) fun _ => .bind (.lift _) fun _ => .bind (hr.terms ht).1 fun _ => .pure _

theorem argumentTexts_respects (hp : ∀ p, p.severity ≠ .fatal → Respects R (report p))
    (hr : r.Respects R env)
    {args : List (FieldDecl × TermId)} (ht : ∀ a ∈ args, env.graph.UsesTerm a.2) {k : Nat}
    (hl : ∀ i label, stmt.resumeArgument = some i → k ≤ i → i < k + args.length →
      stmt.target = some label → Respects R (resumeState label)) :
    Respects R (argumentTexts env r stmt k args) := by
  induction args generalizing k with
  | nil => exact .pure _
  | cons a args ih =>
      unfold argumentTexts
      refine .bind (argumentText_respects hp hr (fun label h => ?_) a.1 (ht a List.mem_cons_self))
        fun _ => .bind (ih (fun b hb => ht b (List.mem_cons_of_mem _ hb))
          fun i label hi hk hlt => hl i label hi (by omega) (by simp; omega)) fun _ => .pure _
      split at h
      · rename_i hi
        exact hl k label hi (Nat.le_refl k) (by simp) h
      · cases h

/-- The arguments of a call touch the state through the label they ask for, if any, and through the
record of the call. -/
theorem callArguments_respects (hp : ∀ p, p.severity ≠ .fatal → Respects R (report p))
    (hc : ∀ c, Respects R (recordCall c)) (hr : r.Respects R env)
    (hs : env.graph.UsesOperands stmt) {f : FunctionId}
    (hl : ∀ label, stmt.AsksFor env.schema label → Respects R (resumeState label))
    (hf : stmt.function = some f) : Respects R (callArguments env r stmt f) := by
  unfold callArguments
  refine .liftBind fun params hparams => .bind (argumentTexts_respects hp hr ?_ ?_) fun _ =>
    .bind (hc _) fun _ => .pure _
  · rintro ⟨param, arg⟩ h
    exact hs.rhs (List.of_mem_zip h).2
  · intro i label hi _ hlt htarget
    rw [List.length_zip] at hlt
    exact hl label ⟨f, params, i, hf, hparams, hi, by omega, by omega, htarget⟩

/-- The object that a call is made on is the context of its statement. -/
theorem callTarget?_eq_some {c : TermId} (h : callTarget? env stmt = .ok (some c)) :
    stmt.context = some c := by
  unfold callTarget? at h
  split at h
  · cases h
  · rename_i c' hc'
    obtain ⟨term, -, h⟩ := Lookup.of_bind_ok h
    change Except.ok (if term.isSelf = true then none else some c') = _ at h
    split at h <;> cases h
    exact hc'

theorem callText_respects (hR : InnerClosed R env) (hr : r.Respects R env)
    (hs : env.graph.UsesCall stmt) : Respects R (callText env r stmt) := by
  unfold callText
  split
  · exact .bind (hR.report _ (by simp [Problem.severity])) fun _ => .pure _
  · rename_i f hf
    refine .bind (.lift _) fun decl => .bind (hR.callArguments hr hs hf) fun args => ?_
    split
    · exact .bind (.lift _) fun _ => .pure _
    · split
      · dsimp only
        split
        · exact .bind (.pure _) fun _ => .pure _
        · exact .bind (.lift _) fun _ => .pure _
      · refine .liftBind fun target htarget => .bind (.lift _) fun _ => ?_
        -- the object of the call is the context of the statement
        have hbare : ∀ c, target = some c → Respects R (r.bare c) := fun c hc =>
          (hr.terms (hs.operands.context (callTarget?_eq_some (hc ▸ htarget)))).2
        split
        · dsimp only
          split
          · exact .bind (hbare _ rfl) fun _ => .bind (.pure _) fun _ => .bind (.lift _) fun _ =>
              .pure _
          · exact .bind (.pure _) fun _ => .bind (.lift _) fun _ => .pure _
        · split
          · exact .bind (hbare _ rfl) fun _ => .pure _
          · exact .pure _

theorem mem_of_mem_pairs {α : Type} {xs : List α} {p : α × α} (h : p ∈ pairs xs) :
    p.1 ∈ xs ∧ p.2 ∈ xs := by
  fun_induction pairs xs with
  | case1 a b rest ih =>
      rcases List.mem_cons.mp h with rfl | h
      · simp
      · exact ⟨by simp [(ih h).1], by simp [(ih h).2]⟩
  | case2 => cases h

theorem switchText_respects (hR : InnerClosed R env) (hr : r.Respects R env)
    (hs : env.graph.UsesOperands stmt) : Respects R (switchText env r stmt) := by
  unfold switchText
  split
  · rename_i index next rest hrhs
    have used : ∀ {t}, t ∈ index :: next :: rest → Respects R (r.guarded t) :=
      fun h => (hr.terms (hs.rhs (hrhs ▸ h))).1
    have hlast : (next :: rest).getLastD next ∈ next :: rest := by
      rw [List.getLastD_cons]; exact List.getLastD_mem_cons
    refine .bind (.lift _) fun _ => .bind (.lift _) fun _ => .bind (.lift _) fun _ =>
      .bind (.lift _) fun _ => .bind (used List.mem_cons_self) fun _ =>
      .bind (used (List.mem_cons_of_mem _ hlast)) fun _ => .bind (.mapM ?_) fun _ => .pure _
    rintro ⟨key, value⟩ hp
    obtain ⟨hk, hv⟩ := mem_of_mem_pairs hp
    exact .bind (used (List.mem_cons_of_mem _ (List.dropLast_subset _ hk))) fun _ =>
      .bind (used (List.mem_cons_of_mem _ (List.dropLast_subset _ hv))) fun _ => .pure _
  · exact .bind (hR.report _ (by simp [Problem.severity])) fun _ => .pure _

theorem inlineText_respects (hR : InnerClosed R env) (hr : r.Respects R env) {id : StmtId}
    (hs : env.graph.UsesStatement id) : Respects R (inlineText env r id) := by
  unfold inlineText
  refine .liftBind fun stmt h => .bind (hR.recordInline id) fun _ => ?_
  unfold valueText
  split
  · exact switchText_respects hR hr (hs.operands h)
  · rename_i hk
    exact callText_respects hR hr ⟨id, hs, h, hk⟩
  · exact .bind (hR.report _ (by simp [Problem.severity])) fun _ => .pure _

/-! ### Checks -/

/-- What passes from a reference to its context holds of the links of a chain, if of its start. -/
theorem forall_mem_guardLinksFrom {g : FunctionGraph} {P : TermId → Prop}
    (hP : ∀ t c term field, g.term t = .ok term → term.kind = .reference field →
      term.context = some c → P t → P c)
    {n : Nat} {start : Option TermId} {links : List TermId} (hs : ∀ t, start = some t → P t)
    (h : guardLinksFrom g n start = .ok links) : ∀ t ∈ links, P t := by
  induction n generalizing start links with
  | zero =>
      cases start with
      | none => cases h; simp
      | some id => cases h
  | succ n ih =>
      cases start with
      | none => cases h; simp
      | some id =>
          have hid := hs id rfl
          unfold guardLinksFrom at h
          obtain ⟨term, hterm, h⟩ := Lookup.of_bind_ok h
          split at h
          · rename_i hk
            obtain ⟨base, hb, h⟩ := Lookup.of_bind_ok h
            have hbase := ih (fun c hc => hP id c term _ hterm hk hc hid) hb
            change Except.ok (if isNullable term.type = true then base ++ [id] else base) = _ at h
            split at h <;> cases h
            · intro t ht
              rcases List.mem_append.mp ht with ht | ht
              · exact hbase t ht
              · rwa [List.mem_singleton.mp ht]
            · exact hbase
          all_goals cases h; simp

/-- The links of a chain of contexts take part when its start does. -/
theorem usesTerm_of_mem_guardLinksFrom {g : FunctionGraph} {n : Nat} {start : Option TermId}
    {links : List TermId} (hs : ∀ t, start = some t → g.UsesTerm t)
    (h : guardLinksFrom g n start = .ok links) : ∀ t ∈ links, g.UsesTerm t :=
  forall_mem_guardLinksFrom (fun _ _ _ _ hterm _ hc ht => .context ht hterm hc) hs h

theorem checkText_respects (hr : r.Respects R env) {t : TermId} (ht : env.graph.UsesTerm t) :
    Respects R (checkText env r t) := by
  unfold checkText
  exact .bind (hr.terms ht).2 fun _ => .bind (.lift _) fun _ => .pure _

theorem guardChecks_respects (hr : r.Respects R env) {start : Option TermId}
    (hs : ∀ t, start = some t → env.graph.UsesTerm t) : Respects R (guardChecks env r start) := by
  unfold guardChecks
  exact .liftBind fun links h => .mapM fun t ht =>
    checkText_respects hr (usesTerm_of_mem_guardLinksFrom hs h t ht)

theorem guarded_respects (hr : r.Respects R env) {context : Option TermId}
    (hs : ∀ t, context = some t → env.graph.UsesTerm t) {body : Lower (List Code)}
    (hb : Respects R body) : Respects R (guarded env r context body) := by
  unfold guarded
  exact .bind (guardChecks_respects hr hs) fun _ => .bind hb fun _ => .pure _

/-! ### Terms -/

theorem termText_respects (hR : InnerClosed R env) (hr : r.Respects R env) (checked : Bool)
    {t : TermId}
    (ht : env.graph.UsesTerm t) : Respects R (termText env r checked t) := by
  unfold termText
  refine .liftBind fun term h => ?_
  split
  · exact .pure _
  · exact literalText_respects hR.report _ _
  · rename_i hk
    exact inlineText_respects hR hr (.inlined ht h hk)
  · refine .bind (referencePath_respects hr ht h _) fun path => ?_
    split
    · unfold checkedPath
      refine .bind (guardChecks_respects hr fun c hc => .context ht h hc) fun checks => ?_
      split
      · exact .pure _
      · exact .bind (.lift _) fun _ => .pure _
    · exact .pure _

theorem rendererFrom_respects (hR : InnerClosed R env) (n : Nat) :
    (rendererFrom env n).Respects R env := by
  induction n with
  | zero => exact ⟨⟨0, rfl⟩, fun _ _ => ⟨.throw _, .throw _⟩⟩
  | succ n ih =>
      exact ⟨⟨n + 1, rfl⟩, fun _ ht =>
        ⟨termText_respects hR ih true ht, termText_respects hR ih false ht⟩⟩

theorem renderer_respects (hR : InnerClosed R env) : env.renderer.Respects R env :=
  rendererFrom_respects hR _

end Lowering
end GraphLowering
