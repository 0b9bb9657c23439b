import GraphLowering.Proofs.Totality.Literals

/-!
# Totality — expressions

The expression of every term of a graph in range has a text.  Terms that are built from each other
in a circle are the only danger, and an acyclic graph has none.

* `SoundEnv`: what lowering needs of a graph and its context.
* `guardLinks`: the links of a context chain, each a part of the term that it guards.
* `SoundEnv.rendererFrom`: a renderer of depth `n` renders what is nested at most `n` deep.
-/

namespace GraphLowering

namespace Lowering

variable {A : Prop} {α β : Type} {env : Env} {r : Renderer} {n : Nat} {stmt : Statement}

/-- From any state lowering comes to an end; or a chain is endless, which `A` rules out. -/
def Completes (A : Prop) (x : Lower α) : Prop := ∀ s, Ends A (x.run s).1

namespace Completes

variable {x : Lower α} {f : α → Lower β}

theorem pure (a : α) : Completes A (Pure.pure a : Lower α) := fun _ => trivial

theorem lift {e : Except Fault α} (h : Ends A e) : Completes A (liftM e : Lower α) := fun _ => h

theorem endless (h : ¬ A) : Completes A (throw .endless : Lower α) := fun _ => ⟨rfl, h⟩

/-- The next step may rely on what the first one can give. -/
theorem bindRun (hx : Completes A x)
    (hf : ∀ a, (∃ s t, x.run s = (.ok a, t)) → Completes A (f a)) : Completes A (x >>= f) := by
  intro s
  have hxs := hx s
  rw [run_bind]
  cases hrun : x.run s with
  | mk result t =>
      rw [hrun] at hxs
      cases result with
      | error e => exact hxs
      | ok a => exact hf a ⟨s, t, hrun⟩ t

theorem bind (hx : Completes A x) (hf : ∀ a, Completes A (f a)) : Completes A (x >>= f) :=
  hx.bindRun fun a _ => hf a

theorem liftBind {e : Except Fault α} {Q : α → Prop} (he : Answers A e Q)
    (hf : ∀ a, Q a → Completes A (f a)) : Completes A (liftM e >>= f) := by
  intro s
  rw [run_bind, run_lift]
  cases e with
  | error f => exact he
  | ok a => exact hf a he s

theorem mapM {xs : List α} (hf : ∀ x ∈ xs, Completes A (f x)) : Completes A (xs.mapM f) := by
  induction xs with
  | nil => exact .pure _
  | cons x xs ih =>
      rw [List.mapM_cons]
      exact .bind (hf x List.mem_cons_self) fun _ =>
        .bind (ih fun x hx => hf x (List.mem_cons_of_mem _ hx)) fun _ => .pure _

end Completes

theorem report_completes (p : Problem) : Completes A (report p) := fun _ => trivial

theorem recordCall_completes (c : LoweredCall) : Completes A (recordCall c) := fun _ => trivial

theorem recordInline_completes (id : StmtId) : Completes A (recordInline id) := fun _ => trivial

theorem localState_completes (target : StmtId) : Completes A (localState target) :=
  fun _ => trivial

theorem resumeState_completes (label : StmtId) : Completes A (resumeState label) := by
  intro s
  cases hs : s.resumeStates with
  | none =>
      rw [run_resumeState_none hs]
      exact localState_completes label s
  | some m =>
      rw [run_resumeState_some hs]
      exact trivial

/-- Every id is in range, and under `A` every chain ends. -/
structure SoundEnv (A : Prop) (env : Env) : Prop where
  context : Sound A env.cx
  graph : env.graph.InRange env.cx.extent
  subterms : A → Acyclic env.graph.subterms

/-- The term is there, and under `A` it is nested at most `n` deep. -/
structure Renderable (A : Prop) (g : FunctionGraph) (n : Nat) (t : TermId) : Prop where
  inRange : t.InRange g
  within : A → Within g.subterms n t

theorem Renderable.of_reaches {g : FunctionGraph} {t u : TermId} (h : Renderable A g n t)
    (hu : u.InRange g) (hreach : Reaches g.subterms t u) : Renderable A g n u :=
  ⟨hu, fun a => (h.within a).reaches hreach⟩

/-- Terms nested at most `n` deep are rendered. -/
def Renderer.Completes (A : Prop) (env : Env) (n : Nat) (r : Renderer) : Prop :=
  ∀ t, Renderable A env.graph n t →
    Lowering.Completes A (r.guarded t) ∧ Lowering.Completes A (r.bare t)

namespace SoundEnv

theorem term (h : SoundEnv A env) {t : TermId} (ht : t.InRange env.graph) :
    Answers A (env.term t) fun term =>
      env.graph.term t = .ok term ∧ term.InRange env.cx.extent env.graph :=
  .lookup (fun _ => FunctionGraph.term_eq_ok_iff) ht h.graph.terms

theorem statement (h : SoundEnv A env) {id : StmtId} (hid : id.InRange env.graph) :
    Answers A (env.statement id) fun s =>
      env.graph.statement id = .ok s ∧ s.InRange env.cx.extent env.graph :=
  .lookup (fun _ => FunctionGraph.statement_eq_ok_iff) hid h.graph.statements

theorem subterms_inRange (h : SoundEnv A env) {t u : TermId} (hu : u ∈ env.graph.subterms t) :
    u.InRange env.graph := by
  unfold FunctionGraph.subterms at hu
  split at hu
  · rename_i term hterm
    rcases List.mem_append.mp hu with hu | hu
    · exact (h.graph.terms term (FunctionGraph.mem_terms hterm)).context u (Option.mem_toList.mp hu)
    · unfold FunctionGraph.inlineOperands at hu
      split at hu
      · split at hu
        · rename_i s hs
          refine (h.graph.statements s (FunctionGraph.mem_statements hs)).operands u ?_
          simp only [Statement.operands, List.mem_append] at hu ⊢
          exact hu.imp .inr id
        · cases hu
      all_goals cases hu
  · cases hu

theorem termIndex_injective : Function.Injective TermId.index := by
  rintro ⟨i⟩ ⟨j⟩ h
  exact congrArg TermId.mk h

/-- Under `A`, no term is nested deeper than the renderer of the graph allows. -/
theorem renderable (h : SoundEnv A env) {t : TermId} (ht : t.InRange env.graph) :
    Renderable A env.graph env.graph.height t where
  inRange := ht
  within := fun a =>
    ((h.subterms a).within termIndex_injective (fun _ _ hu => h.subterms_inRange hu) ht).succ

/-! ### Literals -/

theorem literalText (h : SoundEnv A env) {t : ValueType} {v : Value}
    (ht : t.InRange env.cx.extent) (hv : v.inRange env.cx.extent = true) :
    Completes A (literalText env t v) := by
  refine .liftBind (h.context.render ht hv) fun r _ => ?_
  cases r with
  | ok text => exact .pure _
  | error problem =>
      exact .bind (report_completes problem) fun _ => .lift (h.context.defaultText ht)

/-! ### Access paths -/

theorem defaultOwner (h : SoundEnv A env) {field : Option FieldId}
    (hfield : ∀ f ∈ field, f.InRange env.cx.extent) {context : Term}
    (hcontext : context.InRange env.cx.extent env.graph) :
    Answers A (defaultOwner env field context) fun r => ∀ id ∈ r, id.InRange env.cx.extent := by
  unfold Lowering.defaultOwner
  split
  · exact .pure hcontext.type.subType
  · rename_i f
    refine .bind (h.context.field (hfield f rfl)) fun decl ⟨_, hrange⟩ => ?_
    have howner := hrange.owner
    split
    · rename_i owner ho
      rw [ho] at howner
      exact .pure fun id hid => by cases hid; exact howner
    · exact .pure hcontext.type.subType

theorem referenceName (h : SoundEnv A env) (term : Term) {field : Option FieldId}
    (hfield : ∀ f ∈ field, f.InRange env.cx.extent) :
    Ends A (referenceName env term field) := by
  cases field with
  | none => exact .pure trivial
  | some f => exact .bind (h.context.field (hfield f rfl)) fun _ _ => .pure trivial

theorem referencePath (h : SoundEnv A env) (hr : r.Completes A env n) {term : Term}
    {field : Option FieldId} (hfield : ∀ f ∈ field, f.InRange env.cx.extent)
    (hcontext : ∀ c ∈ term.context, Renderable A env.graph n c) :
    Completes A (referencePath env r term field) := by
  refine .liftBind (h.referenceName term hfield) fun name _ => ?_
  split
  · exact .pure _
  · rename_i c hc
    have hc := hcontext c hc
    refine .liftBind (h.term hc.inRange) fun context ⟨_, hrange⟩ => ?_
    split
    · exact .pure _
    · refine .bind (hr c hc).2 fun path => ?_
      split
      · exact .pure _
      · split
        · refine .liftBind (h.defaultOwner hfield hrange) fun owner howner => ?_
          split
          · exact .liftBind (h.context.cppName (howner _ rfl)) fun _ _ => .pure _
          · exact .pure _
        · exact .pure _

/-! ### Calls -/

theorem conversion? (h : SoundEnv A env) {target source : ValueType}
    (htarget : target.InRange env.cx.extent) :
    Ends A (conversion? env.schema target source) := by
  unfold Lowering.conversion?
  split
  · exact .bind (h.context.cppType htarget) fun _ _ => .pure trivial
  · split
    · exact .pure trivial
    · split
      · split
        · rename_i narrow wide hnarrow _
          have hnarrow := htarget.subType narrow hnarrow
          refine .bind (h.context.isStrictChildOf hnarrow wide) fun b _ => ?_
          split
          · exact .bind (h.context.cppName hnarrow) fun _ _ => .pure trivial
          · exact .pure trivial
        · exact .pure trivial
      · exact .pure trivial

theorem patchLatentInfo (h : SoundEnv A env) {info : StructValue}
    (hinfo : info.toValue.inRange env.cx.extent = true) (state : Int) :
    Answers A (patchLatentInfo env.schema info state) fun v =>
      v.toValue.inRange env.cx.extent = true := by
  obtain ⟨hid, hmembers⟩ := Value.inRange_struct.mp hinfo
  refine .bind (h.context.allFields hid) fun fields hfields => ?_
  have hflags : Answers A (fields.mapM fun f => return (← env.schema.field f).flags)
      fun flags => ∀ f ∈ flags, True :=
    .mapM fun f hf => .bind (h.context.field (hfields f hf)) fun _ _ => .pure trivial
  refine .bind hflags fun flags _ => ?_
  split
  · refine .pure (Value.inRange_struct.mpr ⟨hid, fun v hv => ?_⟩)
    rcases List.mem_or_eq_of_mem_set hv with hv | rfl
    · exact hmembers v hv
    · rfl
  · exact .pure hinfo

theorem latentInfoText (h : SoundEnv A env) (hr : r.Completes A env n) {arg : TermId}
    (harg : Renderable A env.graph n arg) (state : Int) :
    Completes A (latentInfoText env r arg state) := by
  refine .liftBind (h.term harg.inRange) fun term ⟨_, hrange⟩ => ?_
  have hkind := hrange.kind
  split
  · rename_i type members hliteral
    rw [hliteral] at hkind
    have hinfo : (StructValue.mk type members).toValue.inRange env.cx.extent = true := hkind
    exact .liftBind (h.patchLatentInfo hinfo state) fun info hinfo =>
      h.literalText hrange.type hinfo
  · exact (hr arg harg).1

theorem isLatentInfo (h : SoundEnv A env) {param : FieldDecl}
    (hparam : param.InRange env.cx.extent) : Ends A (isLatentInfo env.schema param) := by
  unfold Lowering.isLatentInfo
  split
  · rename_i t ht
    exact .bind (h.context.type (hparam.type.subType t ht)) fun _ _ => .pure trivial
  · exact .pure trivial

theorem argumentText (h : SoundEnv A env) (hr : r.Completes A env n) (resume : Option StmtId)
    {param : FieldDecl} (hparam : param.InRange env.cx.extent) {arg : TermId}
    (harg : Renderable A env.graph n arg) :
    Completes A (argumentText env r resume param arg) := by
  unfold Lowering.argumentText
  split
  · refine .bind (resumeState_completes _) fun state => ?_
    refine .liftBind (h.isLatentInfo hparam) fun isLatent _ => ?_
    split
    · exact h.latentInfoText hr harg state
    · exact .pure _
  · split
    · exact .bind (hr arg harg).2 fun _ => .pure _
    · exact .liftBind (h.term harg.inRange) fun _ _ =>
        .liftBind (h.conversion? hparam.type) fun _ _ => .bind (hr arg harg).1 fun _ => .pure _

theorem argumentTexts (h : SoundEnv A env) (hr : r.Completes A env n)
    {args : List (FieldDecl × TermId)}
    (hargs : ∀ a ∈ args, a.1.InRange env.cx.extent ∧ Renderable A env.graph n a.2) (i : Nat) :
    Completes A (argumentTexts env r stmt i args) := by
  induction args generalizing i with
  | nil => exact .pure _
  | cons a args ih =>
      obtain ⟨hparam, harg⟩ := hargs a List.mem_cons_self
      exact .bind (h.argumentText hr _ hparam harg) fun _ =>
        .bind (ih (fun b hb => hargs b (List.mem_cons_of_mem _ hb)) (i + 1)) fun _ => .pure _

theorem callArguments (h : SoundEnv A env) (hr : r.Completes A env n) {f : FunctionId}
    (hf : f.InRange env.cx.extent) (hrhs : ∀ t ∈ stmt.rhs, Renderable A env.graph n t) :
    Completes A (callArguments env r stmt f) := by
  refine .liftBind (h.context.inputFields hf) fun params hparams => ?_
  refine .bind (h.argumentTexts hr (fun a ha => ?_) 0) fun _ =>
    .bind (recordCall_completes _) fun _ => .pure _
  exact ⟨hparams a.1 (List.of_mem_zip ha).1, hrhs a.2 (List.of_mem_zip ha).2⟩

/-- The operands from which a nested statement is rendered. -/
def Operands (A : Prop) (g : FunctionGraph) (n : Nat) (stmt : Statement) : Prop :=
  ∀ t ∈ stmt.rhs ++ stmt.context.toList, Renderable A g n t

theorem callTarget? (h : SoundEnv A env) (hs : Operands A env.graph n stmt) :
    Answers A (callTarget? env stmt) fun r => ∀ c ∈ r, Renderable A env.graph n c := by
  unfold Lowering.callTarget?
  split
  · exact .pure fun _ hmem => by cases hmem
  · rename_i c hc
    have hc : Renderable A env.graph n c := hs c (by simp [hc])
    refine .bind (h.term hc.inRange) fun term _ => .pure fun d hd => ?_
    split at hd
    · cases hd
    · cases hd
      exact hc

theorem callText (h : SoundEnv A env) (hr : r.Completes A env n)
    (hfunction : ∀ f ∈ stmt.function, f.InRange env.cx.extent)
    (hs : Operands A env.graph n stmt) : Completes A (callText env r stmt) := by
  unfold Lowering.callText
  split
  · exact .bind (report_completes _) fun _ => .pure _
  · rename_i f hf
    have hf := hfunction f hf
    refine .liftBind (h.context.function hf) fun decl ⟨_, hrange⟩ => ?_
    refine .bind (h.callArguments hr hf fun t ht => hs t (List.mem_append_left _ ht)) fun args => ?_
    split
    · exact .liftBind (h.context.isNativeEvent hf) fun _ _ => .pure _
    · split
      · dsimp only
        split
        · exact .bind (.pure _) fun _ => .pure _
        · exact .liftBind (h.context.cppName hrange.owner) fun _ _ => .pure _
      · refine .liftBind (h.callTarget? hs) fun target htarget => ?_
        refine .liftBind (h.context.type hrange.owner) fun owner _ => ?_
        split
        · dsimp only
          split
          · rename_i c
            exact .bind (hr c (htarget c rfl)).2 fun _ => .bind (.pure _) fun _ =>
              .liftBind (h.context.interfaceCppName hrange.owner) fun _ _ => .pure _
          · exact .bind (.pure _) fun _ =>
              .liftBind (h.context.interfaceCppName hrange.owner) fun _ _ => .pure _
        · split
          · rename_i c
            exact .bind (hr c (htarget c rfl)).2 fun _ => .pure _
          · exact .pure _

theorem switchText (h : SoundEnv A env) (hr : r.Completes A env n)
    (hs : Operands A env.graph n stmt) : Completes A (switchText env r stmt) := by
  unfold Lowering.switchText
  split
  · rename_i index next rest hrhs
    have hterm : ∀ t ∈ index :: next :: rest, Renderable A env.graph n t := fun t ht =>
      hs t (List.mem_append_left _ (hrhs ▸ ht))
    have hlast : (next :: rest).getLastD next ∈ next :: rest := by
      rw [List.getLastD_cons]
      exact List.getLastD_mem_cons
    have hindex := hterm index List.mem_cons_self
    have hdefault := hterm _ (List.mem_cons_of_mem _ hlast)
    refine .liftBind (h.term hindex.inRange) fun i ⟨_, hi⟩ => ?_
    refine .liftBind (h.context.cppType hi.type) fun _ _ => ?_
    refine .liftBind (h.term hdefault.inRange) fun d ⟨_, hd⟩ => ?_
    refine .liftBind (h.context.cppType hd.type) fun _ _ => ?_
    refine .bind (hr _ hindex).1 fun _ => .bind (hr _ hdefault).1 fun _ => ?_
    refine .bind (.mapM ?_) fun _ => .pure _
    rintro ⟨key, value⟩ hp
    obtain ⟨hkey, hvalue⟩ := mem_of_mem_pairs hp
    exact .bind (hr key (hterm key (List.mem_cons_of_mem _ (List.dropLast_subset _ hkey)))).1
      fun _ => .bind (hr value (hterm value
        (List.mem_cons_of_mem _ (List.dropLast_subset _ hvalue)))).1 fun _ => .pure _
  · exact .bind (report_completes _) fun _ => .pure _

theorem inlineText (h : SoundEnv A env) (hr : r.Completes A env n) {id : StmtId}
    (hid : id.InRange env.graph)
    (hs : ∀ stmt, env.graph.statement id = .ok stmt → Operands A env.graph n stmt) :
    Completes A (inlineText env r id) := by
  refine .liftBind (h.statement hid) fun stmt ⟨hstmt, hrange⟩ =>
    .bind (recordInline_completes id) fun _ => ?_
  unfold Lowering.valueText
  split
  · exact h.switchText hr (hs stmt hstmt)
  · exact h.callText hr hrange.function (hs stmt hstmt)
  · exact .bind (report_completes _) fun _ => .pure _

/-! ### Checks -/

theorem mem_subterms_of_context {g : FunctionGraph} {t c : TermId} {term : Term}
    (ht : g.term t = .ok term) (hc : c ∈ term.context) : c ∈ g.subterms t := by
  simp only [FunctionGraph.subterms, ht, List.mem_append]
  exact .inl (Option.mem_toList.mpr hc)

/-- The links of a context chain are parts of its start. -/
theorem guardLinksFrom (h : SoundEnv A env) {m : Nat} {start : Option TermId} {base : TermId}
    (hstart : ∀ c ∈ start, c.InRange env.graph ∧ Reaches env.graph.subterms base c)
    (hfuel : ∀ c ∈ start, A → Within env.graph.subterms m c) :
    Answers A (guardLinksFrom env.graph m start) fun links =>
      ∀ l ∈ links, l.InRange env.graph ∧ Reaches env.graph.subterms base l := by
  induction m generalizing start with
  | zero =>
      cases start with
      | none => exact .pure fun _ hmem => by cases hmem
      | some c => exact .endless fun a => hfuel c rfl a
  | succ m ih =>
      cases start with
      | none => exact .pure fun _ hmem => by cases hmem
      | some c =>
          obtain ⟨hc, hreach⟩ := hstart c rfl
          refine .bind (h.term hc) fun term ⟨hterm, hrange⟩ => ?_
          split
          · have hcontext : ∀ d ∈ term.context, d.InRange env.graph ∧
                Reaches env.graph.subterms base d := fun d hd =>
              ⟨hrange.context d hd, hreach.tail (mem_subterms_of_context hterm hd)⟩
            have hwithin : ∀ d ∈ term.context, A → Within env.graph.subterms m d := fun d hd a =>
              hfuel c rfl a d (mem_subterms_of_context hterm hd)
            refine .bind (ih hcontext hwithin) fun links hlinks => .pure fun l hl => ?_
            split at hl
            · rcases List.mem_append.mp hl with hl | hl
              · exact hlinks l hl
              · rw [List.mem_singleton.mp hl]
                exact ⟨hc, hreach⟩
            · exact hlinks l hl
          all_goals exact .pure fun _ hmem => by cases hmem

theorem guardLinks (h : SoundEnv A env) {start : Option TermId}
    (hstart : ∀ c ∈ start, Renderable A env.graph n c) :
    Answers A (guardLinks env.graph start) fun links =>
      ∀ l ∈ links, Renderable A env.graph n l := by
  cases start with
  | none => exact .pure fun _ hmem => by cases hmem
  | some c =>
      have hc := hstart c rfl
      have hself : ∀ d ∈ some c, d.InRange env.graph ∧ Reaches env.graph.subterms c d := by
        rintro d ⟨⟩
        exact ⟨hc.inRange, .refl⟩
      have hwithin : ∀ d ∈ some c, A → Within env.graph.subterms env.graph.height d := by
        rintro d ⟨⟩
        exact (h.renderable hc.inRange).within
      exact (h.guardLinksFrom hself hwithin).imp fun links hlinks l hl =>
        hc.of_reaches (hlinks l hl).1 (hlinks l hl).2

theorem guardChecks (h : SoundEnv A env) (hr : r.Completes A env n) {start : Option TermId}
    (hstart : ∀ c ∈ start, Renderable A env.graph n c) :
    Completes A (guardChecks env r start) := by
  refine .liftBind (h.guardLinks hstart) fun links hlinks => .mapM fun l hl => ?_
  exact .bind (hr l (hlinks l hl)).2 fun _ => .liftBind (h.term (hlinks l hl).inRange) fun _ _ =>
    .pure _

theorem guarded (h : SoundEnv A env) (hr : r.Completes A env n) {context : Option TermId}
    (hcontext : ∀ c ∈ context, Renderable A env.graph n c) {body : Lower (List Code)}
    (hbody : Completes A body) : Completes A (guarded env r context body) :=
  .bind (h.guardChecks hr hcontext) fun _ => .bind hbody fun _ => .pure _

/-! ### Terms -/

theorem checkedPath (h : SoundEnv A env) (hr : r.Completes A env n) {term : Term}
    (ht : term.type.InRange env.cx.extent)
    (hcontext : ∀ c ∈ term.context, Renderable A env.graph n c) (path : String) :
    Completes A (checkedPath env r term path) := by
  refine .bind (h.guardChecks hr hcontext) fun checks => ?_
  split
  · exact .pure _
  · exact .liftBind (h.context.defaultText ht) fun _ _ => .pure _

theorem termText (h : SoundEnv A env) (hr : r.Completes A env n) (checked : Bool) {t : TermId}
    (ht : Renderable A env.graph (n + 1) t) : Completes A (termText env r checked t) := by
  refine .liftBind (h.term ht.inRange) fun term ⟨hterm, hrange⟩ => ?_
  -- What the term is built from is nested one less deep.
  have hpart : ∀ u ∈ env.graph.subterms t, Renderable A env.graph n u := fun u hu =>
    ⟨h.subterms_inRange hu, fun a => ht.within a u hu⟩
  have hcontext : ∀ c ∈ term.context, Renderable A env.graph n c := fun c hc =>
    hpart c (mem_subterms_of_context hterm hc)
  have hkind := hrange.kind
  split
  · exact .pure _
  · rename_i v hv
    rw [hv] at hkind
    exact h.literalText hrange.type hkind
  · rename_i id hid
    rw [hid] at hkind
    refine h.inlineText hr hkind fun stmt hstmt u hu => hpart u ?_
    simp only [FunctionGraph.subterms, hterm, hid, FunctionGraph.inlineOperands, hstmt]
    exact List.mem_append_right _ hu
  · rename_i field hfield
    rw [hfield] at hkind
    refine .bind (h.referencePath hr hkind hcontext) fun path => ?_
    split
    · exact h.checkedPath hr hrange.type hcontext path
    · exact .pure _

/-- **A renderer of depth `n` renders what is nested at most `n` deep.** -/
theorem rendererFrom (h : SoundEnv A env) (n : Nat) : (rendererFrom env n).Completes A env n := by
  induction n with
  | zero =>
      intro t ht
      exact ⟨.endless ht.within, .endless ht.within⟩
  | succ n ih => exact fun t ht => ⟨h.termText ih true ht, h.termText ih false ht⟩

end SoundEnv

end Lowering

end GraphLowering
