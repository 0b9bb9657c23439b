import GraphLowering.Proofs.Lowering.Chunks
import GraphLowering.Proofs.Lowering.Stability
import GraphLowering.World

/-!
# Lowering — stores behind checks

A statement that stores a value does so through the path of its left operand, and most handlers
put the store inside the checks of that operand's context chain.  Two do not: a call puts it inside
the checks of the object that the call is made on, and the filling of a container inside none.

* `Code.LineIn`: a line of a piece of source, with the checks around it.
* `StoresUnder`: code that stores inside the checks of a context chain.
* `lowerStatement_storesUnder`: what each kind of statement does.
* `stores_checked_iff`: when the stores of a statement are behind the checks of its left operand.
-/

namespace GraphLowering

/-! ### Lines and the checks around them -/

namespace Code

/-- The line stands in the code, inside blocks that run under the checks `around`. -/
inductive LineIn : List Code → List String → String → Prop
  | line {body : List Code} {text : String} (h : .line text ∈ body) : LineIn body [] text
  | nested {body inner : List Code} {around : List String} {text : String}
      (h : .nested inner ∈ body) (hl : LineIn inner around text) : LineIn body around text
  | guarded {body inner : List Code} {checks around : List String} {text : String}
      (h : .guarded checks inner ∈ body) (hl : LineIn inner around text) :
      LineIn body (checks ++ around) text

/-- Code inside a block with these checks, if there are any. -/
def under (checks : List String) (body : List Code) : List Code :=
  if checks.isEmpty then body else [.guarded checks body]

variable {checks around : List String} {body : List Code} {text : String}

theorem LineIn.under (h : LineIn body [] text) (checks : List String) :
    LineIn (under checks body) checks text := by
  cases checks with
  | nil => exact h
  | cons c cs =>
      have hguarded := LineIn.guarded (List.mem_singleton_self (Code.guarded (c :: cs) body)) h
      rwa [List.append_nil] at hguarded

theorem LineIn.of_subset {body' : List Code} (h : LineIn body around text) (hsub : body ⊆ body') :
    LineIn body' around text := by
  cases h with
  | line h => exact .line (hsub h)
  | nested h hl => exact .nested (hsub h) hl
  | guarded h hl => exact .guarded (hsub h) hl

theorem subset_of_lineIn_under (h : LineIn (under checks body) around text) : checks ⊆ around := by
  cases checks with
  | nil => exact List.nil_subset _
  | cons c cs =>
      change LineIn [.guarded (c :: cs) body] around text at h
      cases h with
      | line h => cases List.mem_singleton.mp h
      | nested h => cases List.mem_singleton.mp h
      | guarded h =>
          cases List.mem_singleton.mp h
          exact List.subset_append_left _ _

end Code

/-- The line works on what the path leads to. -/
def Through (path text : String) : Prop := path.toList <+: text.toList

theorem through_append (path rest : String) : Through path (path ++ rest) := by
  rw [Through, String.toList_append]
  exact List.prefix_append _ _

/-- Every line that works on what the path leads to stands inside all of the checks. -/
def StoresChecked (checks : List String) (path : String) (code : List Code) : Prop :=
  ∀ around text, Code.LineIn code around text → Through path text → checks ⊆ around

/-! ### Statements that store -/

namespace Statement

/-- The statement stores into `lhs`, and has the operands that this takes. -/
def StoresInto (schema : Schema) (stmt : Statement) (lhs : TermId) : Prop :=
  stmt.lhs = some lhs ∧
    match stmt.kind with
    | .assign | .objectToBool | .dynamicCast | .interfaceToObject => stmt.rhs ≠ []
    | .metaCast | .objectToInterface | .interfaceToInterface | .bindDelegate => stmt.rhs.length = 2
    | .addMulticastDelegate | .removeMulticastDelegate => stmt.rhs.length = 1
    | .clearMulticastDelegate | .createContainer => True
    | .call => ∃ f ret rest, stmt.function = some f ∧ schema.returnFields f = .ok (ret :: rest)
    | _ => False

/-- The context chain whose checks are around the store of a statement. -/
def ChecksContext (schema : Schema) (stmt : Statement) (dest : Term) (context : Option TermId) :
    Prop :=
  match stmt.kind with
  | .call => ∃ f decl, stmt.function = some f ∧ schema.function f = .ok decl ∧
      context = if decl.flags.has .isStatic then none else stmt.context
  | .createContainer => context = none
  | _ => context = dest.context

theorem ChecksContext.eq_context {schema : Schema} {stmt : Statement} {dest : Term}
    {context : Option TermId} (h : stmt.ChecksContext schema dest context)
    (hcall : stmt.kind ≠ .call) (hcontainer : stmt.kind ≠ .createContainer) :
    context = dest.context := by
  unfold ChecksContext at h
  split at h
  · exact absurd ‹_› hcall
  · exact absurd ‹_› hcontainer
  · exact h

end Statement

namespace Lowering

open Dispatch (Action Chunk)

variable {α β : Type} {env : Env} {stmt : Statement} {lhs : TermId} {dest : Term} {s t u : State}

/-- Every run of `x` that succeeds ends with `P`. -/
def Yields (P : α → State → Prop) (x : Lower α) : Prop :=
  ∀ ⦃s a t⦄, x.run s = (.ok a, t) → P a t

namespace Yields

variable {P : β → State → Prop} {x : Lower α} {f : α → Lower β}

theorem imp {P' : β → State → Prop} {y : Lower β} (hy : Yields P y)
    (h : ∀ b t, P b t → P' b t) : Yields P' y :=
  fun _ b t hrun => h b t (hy hrun)

theorem pure {b : β} (h : ∀ s, P b s) : Yields P (Pure.pure b) := by
  intro s b' t hrun
  obtain ⟨rfl, -⟩ := run_pure_ok hrun
  exact h t

theorem after (h : ∀ a, Yields P (f a)) : Yields P (x >>= f) := by
  intro s b t hrun
  obtain ⟨a, u, -, hrun⟩ := run_bind_ok hrun
  exact h a hrun

theorem ite {c : Prop} [Decidable c] {y z : Lower β} (hy : Yields P y) (hz : Yields P z) :
    Yields P (if c then y else z) := by
  split
  · exact hy
  · exact hz

theorem lookUp {e : Except Fault α} (h : ∀ a, e = .ok a → Yields P (f a)) :
    Yields P ((liftM e : Lower α) >>= f) := by
  intro s b t hrun
  obtain ⟨a, he, hrun⟩ := run_liftBind_ok hrun
  exact h a he hrun

theorem bind {Q : α → Prop} (hx : Yields (fun a _ => Q a) x) (h : ∀ a, Q a → Yields P (f a)) :
    Yields P (x >>= f) := by
  intro s b t hrun
  obtain ⟨a, u, hxs, hrun⟩ := run_bind_ok hrun
  exact h a (hx hxs) hrun

end Yields

/-- The code stores into `lhs` inside the checks of a context chain. -/
def StoresUnder (env : Env) (lhs : TermId) (context : Option TermId) (code : List Code)
    (t : State) : Prop :=
  ∃ target checks body, Settles (env.path lhs) target t ∧
    Settles (guardChecks env env.renderer context) checks t ∧ code = Code.under checks body ∧
    ∃ text, Code.LineIn body [] text ∧ Through target text

theorem StoresUnder.mono {context : Option TermId} {code : List Code}
    (h : StoresUnder env lhs context code t) (htu : t.resumeMap ≤ u.resumeMap) :
    StoresUnder env lhs context code u := by
  obtain ⟨target, checks, body, htarget, hchecks, hcode, hline⟩ := h
  exact ⟨target, checks, body, htarget.mono htu, hchecks.mono htu, hcode, hline⟩

/-- The store for a path, inside the checks of a context chain. -/
theorem guarded_storesUnder (context : Option TermId) {body : String → List Code}
    (hbody : ∀ target, ∃ text, Code.LineIn (body target) [] text ∧ Through target text) :
    Yields (StoresUnder env lhs context) (guarded env env.renderer context do
      let target ← env.path lhs
      return body target) := by
  intro s code t hrun
  obtain ⟨checks, u, hchecks, hrun⟩ := run_bind_ok hrun
  obtain ⟨inner, v, hinner, hrun⟩ := run_bind_ok hrun
  obtain ⟨target, w, htarget, hinner⟩ := run_bind_ok hinner
  obtain ⟨rfl, rfl⟩ := run_pure_ok hinner
  obtain ⟨rfl, rfl⟩ := run_pure_ok hrun
  obtain ⟨-, hchecks⟩ := guardChecks_stable env context hchecks
  obtain ⟨hle, htarget⟩ := path_stable env lhs htarget
  exact ⟨target, checks, body target, htarget, hchecks.mono hle, rfl, hbody target⟩

theorem storing_storesUnder (hdest : env.term lhs = .ok dest) {body : String → List Code}
    (hbody : ∀ target, ∃ text, Code.LineIn (body target) [] text ∧ Through target text) :
    Yields (StoresUnder env lhs dest.context) (storing env lhs body) := by
  refine .lookUp fun term hterm => ?_
  obtain rfl := Except.ok.inj (hdest.symm.trans hterm)
  exact guarded_storesUnder dest.context hbody

/-- A store that is one line. -/
theorem lineIn_singleton (target rest : String) :
    ∃ text, Code.LineIn [.line (target ++ rest)] [] text ∧ Through target text :=
  ⟨target ++ rest, .line List.mem_cons_self, through_append target rest⟩

theorem assignTo_storesUnder (hdest : env.term lhs = .ok dest) (value : String) :
    Yields (StoresUnder env lhs dest.context) (assignTo env lhs value) := by
  refine storing_storesUnder hdest fun target => ?_
  rw [String.append_assoc, String.append_assoc]
  exact lineIn_singleton target _

/-! ### Handlers -/

theorem lowerAssign_storesUnder (hl : stmt.lhs = some lhs) (hr : stmt.rhs ≠ [])
    (hdest : env.term lhs = .ok dest) :
    Yields (StoresUnder env lhs dest.context) (lowerAssign env stmt) := by
  obtain ⟨rhs, rest, hrhs⟩ := List.exists_cons_of_ne_nil hr
  unfold lowerAssign
  rw [hl, hrhs]
  refine .after fun target => .after fun source => ?_
  dsimp only
  split
  · split
    · exact .after fun value => assignTo_storesUnder hdest value
    · exact .after fun value => assignTo_storesUnder hdest value
  · exact .after fun value => assignTo_storesUnder hdest value

theorem lowerObjectToBool_storesUnder (hl : stmt.lhs = some lhs) (hr : stmt.rhs ≠ [])
    (hdest : env.term lhs = .ok dest) :
    Yields (StoresUnder env lhs dest.context) (lowerObjectToBool env stmt) := by
  obtain ⟨rhs, rest, hrhs⟩ := List.exists_cons_of_ne_nil hr
  unfold lowerObjectToBool
  rw [hl, hrhs]
  exact .after fun value => assignTo_storesUnder hdest _

theorem lowerDynamicCast_storesUnder (hl : stmt.lhs = some lhs) (hr : stmt.rhs ≠ [])
    (hdest : env.term lhs = .ok dest) :
    Yields (StoresUnder env lhs dest.context) (lowerDynamicCast env stmt) := by
  unfold lowerDynamicCast
  rw [hl, List.getLast?_eq_some_getLast hr]
  exact .after fun cls => .after fun value => assignTo_storesUnder hdest _

theorem lowerInterfaceToObject_storesUnder (hl : stmt.lhs = some lhs) (hr : stmt.rhs ≠ [])
    (hdest : env.term lhs = .ok dest) :
    Yields (StoresUnder env lhs dest.context) (lowerInterfaceToObject env stmt) := by
  unfold lowerInterfaceToObject
  rw [hl, List.getLast?_eq_some_getLast hr]
  exact .after fun cls => .after fun value => assignTo_storesUnder hdest _

theorem lowerMetaCast_storesUnder (hl : stmt.lhs = some lhs) (hr : stmt.rhs.length = 2)
    (hdest : env.term lhs = .ok dest) :
    Yields (StoresUnder env lhs dest.context) (lowerMetaCast env stmt) := by
  obtain ⟨cls, source, hrhs⟩ := List.length_eq_two.mp hr
  unfold lowerMetaCast
  rw [hl, hrhs]
  exact .after fun cls => .after fun value => assignTo_storesUnder hdest _

/-- The conversion into an interface value sets the object of the destination. -/
theorem lineIn_interfaceStore (object cls target : String) :
    ∃ text, Code.LineIn (interfaceStore object cls target) [] text ∧ Through target text := by
  refine ⟨target ++ ".SetObject(" ++ object ++ ");", ?_, ?_⟩
  · exact .nested (List.mem_cons_of_mem _ (List.mem_cons_of_mem _ List.mem_cons_self))
      (.line List.mem_cons_self)
  · rw [String.append_assoc, String.append_assoc]
    exact through_append target _

theorem lineIn_boundInterfaceStore (source cls target : String) :
    ∃ text, Code.LineIn (boundInterfaceStore source cls target) [] text ∧ Through target text := by
  obtain ⟨text, hline, hthrough⟩ := lineIn_interfaceStore castSource cls target
  exact ⟨text, .nested (List.mem_cons_of_mem _ List.mem_cons_self)
    (hline.of_subset (List.subset_cons_self _ _)), hthrough⟩

theorem lowerInterfaceCast_storesUnder (hl : stmt.lhs = some lhs) (hr : stmt.rhs.length = 2)
    (hdest : env.term lhs = .ok dest) :
    Yields (StoresUnder env lhs dest.context) (lowerInterfaceCast env stmt) := by
  obtain ⟨cls, source, hrhs⟩ := List.length_eq_two.mp hr
  unfold lowerInterfaceCast
  rw [hl, hrhs]
  refine .after fun cls => .after fun sourceText => .after fun source => ?_
  refine storing_storesUnder hdest fun target => ?_
  split
  · exact lineIn_boundInterfaceStore _ _ _
  · split
    · exact lineIn_interfaceStore _ _ _
    · exact lineIn_boundInterfaceStore _ _ _

/-- A delegate with the operands for its edit is edited. -/
theorem delegateEdit?_yields (h : stmt.kind = .clearMulticastDelegate ∨
    (stmt.kind = .addMulticastDelegate ∨ stmt.kind = .removeMulticastDelegate) ∧
      stmt.rhs.length = 1 ∨ stmt.kind = .bindDelegate ∧ stmt.rhs.length = 2) :
    Yields (fun edit _ => ∃ text, edit = some text) (delegateEdit? env stmt) := by
  unfold delegateEdit?
  rcases h with hk | ⟨hk | hk, hr⟩ | ⟨hk, hr⟩
  · rw [hk]
    exact .pure fun _ => ⟨_, rfl⟩
  · obtain ⟨handler, hrhs⟩ := List.length_eq_one_iff.mp hr
    rw [hk, hrhs]
    exact .after fun text => .pure fun _ => ⟨_, rfl⟩
  · obtain ⟨handler, hrhs⟩ := List.length_eq_one_iff.mp hr
    rw [hk, hrhs]
    exact .after fun text => .pure fun _ => ⟨_, rfl⟩
  · obtain ⟨name, object, hrhs⟩ := List.length_eq_two.mp hr
    rw [hk, hrhs]
    exact .after fun object => .after fun name => .pure fun _ => ⟨_, rfl⟩

theorem lowerDelegateEdit_storesUnder (hl : stmt.lhs = some lhs)
    (hedit : Yields (fun edit _ => ∃ text, edit = some text) (delegateEdit? env stmt))
    (hdest : env.term lhs = .ok dest) :
    Yields (StoresUnder env lhs dest.context) (lowerDelegateEdit env stmt) := by
  unfold lowerDelegateEdit
  rw [hl]
  refine .bind hedit ?_
  rintro edit ⟨text, rfl⟩
  refine storing_storesUnder hdest fun target => ?_
  rw [String.append_assoc, String.append_assoc]
  exact lineIn_singleton target _

theorem containerElements_stable (env : Env) (array : String) (i : Nat) (ts : List TermId) :
    Stable (containerElements env array i ts) := by
  induction ts generalizing i with
  | nil => exact .quiet (.pure _)
  | cons t ts ih =>
      exact .bind (rendererFrom_stable env _ t).1 fun _ => .bind (ih (i + 1)) fun _ =>
        .quiet (.pure _)

theorem lowerCreateContainer_storesUnder (hl : stmt.lhs = some lhs) :
    Yields (StoresUnder env lhs none) (lowerCreateContainer env stmt) := by
  intro s code t hrun
  unfold lowerCreateContainer at hrun
  rw [hl] at hrun
  obtain ⟨array, u, harray, hrun⟩ := run_bind_ok hrun
  obtain ⟨elements, v, helements, hrun⟩ := run_bind_ok hrun
  obtain ⟨rfl, rfl⟩ := run_pure_ok hrun
  obtain ⟨-, harray⟩ := path_stable env lhs harray
  obtain ⟨hle, -⟩ := containerElements_stable env array 0 stmt.rhs helements
  have hchecks : (guardChecks env env.renderer none).run t = (.ok [], t) := rfl
  refine ⟨array, [], _, harray.mono hle, (guardChecks_stable env none hchecks).2, rfl, _,
    .line List.mem_cons_self, ?_⟩
  rw [String.append_assoc, String.append_assoc]
  exact through_append array _

theorem callResult_yields {f : FunctionId} {ret : FieldId} {rest : List FieldId} {call : String}
    (hl : stmt.lhs = some lhs) :
    Yields (fun result _ => ∃ value, result = some (lhs, value))
      (callResult env stmt f (ret :: rest) call) := by
  unfold callResult
  rw [hl]
  exact .after fun target => .after fun source => .after fun conversion => .pure fun _ => ⟨_, rfl⟩

theorem lowerCall_storesUnder {f : FunctionId} {ret : FieldId} {rest : List FieldId}
    (hl : stmt.lhs = some lhs) (hf : stmt.function = some f)
    (hreturns : env.schema.returnFields f = .ok (ret :: rest)) :
    Yields (fun code t => ∃ decl, env.schema.function f = .ok decl ∧
      StoresUnder env lhs (if decl.flags.has .isStatic then none else stmt.context) code t)
      (lowerCall env stmt) := by
  unfold lowerCall
  rw [hf]
  refine .lookUp fun returns hreturns' => ?_
  obtain rfl := Except.ok.inj (hreturns.symm.trans hreturns')
  -- With or without a report about the return values.
  refine .ite (.after fun _ => .after fun _ => ?_) ?_
  all_goals
    refine .after fun call => .bind (callResult_yields hl) ?_
    rintro result ⟨value, rfl⟩
    refine .lookUp fun decl hdecl => ?_
    refine (guarded_storesUnder _ fun target => ?_).imp fun code t h => ⟨decl, hdecl, h⟩
    rw [String.append_assoc, String.append_assoc]
    exact lineIn_singleton target _

/-! ### Statements and functions -/

/-- The code of a plain action is what its handler gave. -/
theorem run_of_plain {x : Lower (List Code)} {a : Action}
    (h : (x >>= fun code => pure (.plain code)).run s = (.ok a, t)) :
    x.run s = (.ok a.code, t) := by
  obtain ⟨code, u, hx, h⟩ := run_bind_ok h
  obtain ⟨rfl, rfl⟩ := run_pure_ok h
  exact hx

/-- **What is around the store of a statement**: the checks of the context chain that its handler
chooses. -/
theorem lowerStatement_storesUnder {comments : CommentOptions} {id : StmtId} {a : Action}
    (hstmt : env.graph.statement id = .ok stmt) (hstores : stmt.StoresInto env.schema lhs)
    (hdest : env.term lhs = .ok dest)
    (hrun : (lowerStatement comments env id).run s = (.ok a, t)) :
    ∃ context, stmt.ChecksContext env.schema dest context ∧
      StoresUnder env lhs context a.code t := by
  obtain ⟨stmt', hstmt', hrun⟩ := run_liftBind_ok hrun
  obtain rfl := Except.ok.inj (hstmt.symm.trans hstmt')
  obtain ⟨hl, hr⟩ := hstores
  unfold Statement.ChecksContext
  cases hk : stmt.kind with
  | assign =>
      rw [hk] at hr hrun
      exact ⟨_, rfl, lowerAssign_storesUnder hl hr hdest (run_of_plain hrun)⟩
  | objectToBool =>
      rw [hk] at hr hrun
      exact ⟨_, rfl, lowerObjectToBool_storesUnder hl hr hdest (run_of_plain hrun)⟩
  | dynamicCast =>
      rw [hk] at hr hrun
      exact ⟨_, rfl, lowerDynamicCast_storesUnder hl hr hdest (run_of_plain hrun)⟩
  | interfaceToObject =>
      rw [hk] at hr hrun
      exact ⟨_, rfl, lowerInterfaceToObject_storesUnder hl hr hdest (run_of_plain hrun)⟩
  | metaCast =>
      rw [hk] at hr hrun
      exact ⟨_, rfl, lowerMetaCast_storesUnder hl hr hdest (run_of_plain hrun)⟩
  | objectToInterface | interfaceToInterface =>
      rw [hk] at hr hrun
      exact ⟨_, rfl, lowerInterfaceCast_storesUnder hl hr hdest (run_of_plain hrun)⟩
  | clearMulticastDelegate =>
      rw [hk] at hrun
      exact ⟨_, rfl, lowerDelegateEdit_storesUnder hl (delegateEdit?_yields (.inl hk)) hdest
        (run_of_plain hrun)⟩
  | addMulticastDelegate =>
      rw [hk] at hr hrun
      exact ⟨_, rfl, lowerDelegateEdit_storesUnder hl
        (delegateEdit?_yields (.inr (.inl ⟨.inl hk, hr⟩))) hdest (run_of_plain hrun)⟩
  | removeMulticastDelegate =>
      rw [hk] at hr hrun
      exact ⟨_, rfl, lowerDelegateEdit_storesUnder hl
        (delegateEdit?_yields (.inr (.inl ⟨.inr hk, hr⟩))) hdest (run_of_plain hrun)⟩
  | bindDelegate =>
      rw [hk] at hr hrun
      exact ⟨_, rfl, lowerDelegateEdit_storesUnder hl
        (delegateEdit?_yields (.inr (.inr ⟨hk, hr⟩))) hdest (run_of_plain hrun)⟩
  | createContainer =>
      rw [hk] at hrun
      exact ⟨_, rfl, lowerCreateContainer_storesUnder hl (run_of_plain hrun)⟩
  | call =>
      rw [hk] at hr hrun
      obtain ⟨f, ret, rest, hf, hreturns⟩ := hr
      obtain ⟨decl, hdecl, hcode⟩ := lowerCall_storesUnder hl hf hreturns (run_of_plain hrun)
      exact ⟨_, ⟨f, decl, hf, hdecl, rfl⟩, hcode⟩
  | _ =>
      rw [hk] at hr
      exact hr.elim

/-- What one chunk of a body came from, and that the numbering has only grown since. -/
theorem run_of_mem_chunks {comments : CommentOptions} {isLoop : Bool} {ids : List StmtId}
    (hs : ∀ id ∈ ids, id ∈ env.graph.order) {chunks : List Chunk}
    (h : (ids.mapM (lowerChunk comments env isLoop)).run s = (.ok chunks, t)) {c : Chunk}
    (hc : c ∈ chunks) :
    ∃ s' t', (lowerStatement comments env c.statement).run s' = (.ok c.action, t') ∧
      t'.resumeMap ≤ t.resumeMap := by
  induction ids generalizing s chunks with
  | nil =>
      obtain ⟨rfl, -⟩ := run_pure_ok h
      cases hc
  | cons id ids ih =>
      rw [List.mapM_cons] at h
      obtain ⟨first, u, hfirst, h⟩ := run_bind_ok h
      obtain ⟨rest, v, hrest, h⟩ := run_bind_ok h
      obtain ⟨rfl, rfl⟩ := run_pure_ok h
      have hids : ∀ i ∈ ids, i ∈ env.graph.order := fun i hi => hs i (List.mem_cons_of_mem _ hi)
      rcases List.mem_cons.mp hc with rfl | hc
      · obtain ⟨label, w, -, hfirst⟩ := run_bind_ok hfirst
        obtain ⟨_, w', -, hfirst⟩ := run_bind_ok hfirst
        obtain ⟨a, w'', hrun, hfirst⟩ := run_bind_ok hfirst
        obtain ⟨rfl, rfl⟩ := run_pure_ok hfirst
        refine ⟨w', u, hrun, ?_⟩
        have hgrows := (Respects.mapM fun i hi =>
          lowerChunk_respects (resumeMap_closed u env) comments isLoop (hids i hi)).keeps (le_refl _)
        rwa [hrest] at hgrows
      · exact ih hids hrest hc

/-- What a chunk of a function came from, and that the numbering has only grown since. -/
theorem run_of_mem_body {comments : CommentOptions} {resumeStates : Option StateMap} {sink : Sink}
    {f : LoweredFunction} {last : State}
    (h : lowerFunction comments env.cx env.graph resumeStates sink = (.ok f, last)) {c : Chunk}
    (hc : c ∈ f.body.chunks) :
    ∃ s t, (lowerStatement comments env c.statement).run s = (.ok c.action, t) ∧
      t.resumeMap ≤ last.resumeMap := by
  unfold lowerFunction lowerBody at h
  obtain ⟨usesFlowStack, -, h⟩ := run_liftBind_ok h
  obtain ⟨isLoop, -, h⟩ := run_liftBind_ok h
  obtain ⟨chunks, t, hchunks, h⟩ := run_bind_ok h
  cases h
  exact run_of_mem_chunks (fun _ hid => hid) hchunks hc

/-- **When the stores of a statement are checked.**  What is around a store are the checks of the
context chain that the handler chooses.  Every handler but two chooses that of the left operand.  A
call chooses the object that it is made on, if any, and the filling of a container nothing at all:
their stores are behind the checks of the left operand only if these are among the others. -/
theorem stores_checked_iff {comments : CommentOptions} {resumeStates : Option StateMap}
    {sink : Sink} {f : LoweredFunction} {last : State} {c : Chunk} {wanted : List String}
    (h : lowerFunction comments env.cx env.graph resumeStates sink = (.ok f, last))
    (hc : c ∈ f.body.chunks) (hstmt : env.statement c.statement = .ok stmt)
    (hstores : stmt.StoresInto env.schema lhs) (hdest : env.term lhs = .ok dest)
    (hwanted : ((guardChecks env env.renderer dest.context).run last).1 = .ok wanted) :
    ∃ context given target, stmt.ChecksContext env.schema dest context ∧
      ((guardChecks env env.renderer context).run last).1 = .ok given ∧
      ((env.path lhs).run last).1 = .ok target ∧
      (StoresChecked wanted target c.action.code ↔ wanted ⊆ given) ∧
      (stmt.kind ≠ .call → stmt.kind ≠ .createContainer →
        StoresChecked wanted target c.action.code) := by
  obtain ⟨s, t, hrun, hle⟩ := run_of_mem_body h hc
  obtain ⟨context, hcontext, hunder⟩ := lowerStatement_storesUnder hstmt hstores hdest hrun
  obtain ⟨target, given, body, htarget, hgiven, hcode, text, hline, hthrough⟩ := hunder.mono hle
  have hiff : StoresChecked wanted target c.action.code ↔ wanted ⊆ given := by
    rw [hcode]
    refine ⟨fun hall => hall given text (hline.under given) hthrough, ?_⟩
    intro hsub around text' hline' _
    exact List.Subset.trans hsub (Code.subset_of_lineIn_under hline')
  refine ⟨context, given, target, hcontext, hgiven.result, htarget.result, hiff, ?_⟩
  intro hcall hcontainer
  rw [hcontext.eq_context hcall hcontainer] at hgiven
  have hsame := hgiven.result.symm.trans hwanted
  exact hiff.mpr (Except.ok.inj hsame ▸ List.Subset.refl _)

/-! ### Scores of another hero -/

/-- A class with a reference to another instance, scores and a function that counts them. -/
def scoreContext : Context :=
  ((World.build [.addClass "Hero" none, .addField ⟨0⟩ "Target" (.object ⟨0⟩),
    .addField ⟨0⟩ "Scores" (.array .int), .addField ⟨0⟩ "Score" .int, .addFunction ⟨0⟩ "Reset",
    .addFunction ⟨0⟩ "Count",
    .addParam ⟨1⟩ "ReturnValue" .int ⟨[.outParam, .returnParam]⟩]).toOption.getD {}).context ⟨0⟩

/-- Stores into the scores of the other instance: of a new array, of a count of one's own and of
one by a third instance, and of a number. -/
def scoreGraph : FunctionGraph :=
  { name := "Reset"
    function := ⟨0⟩
    terms := #[{ kind := .reference (some ⟨0⟩), type := .object ⟨0⟩ },
      { kind := .reference (some ⟨1⟩), type := .array .int, context := some ⟨0⟩ },
      { kind := .literal (.int 4), type := .int },
      { kind := .reference (some ⟨2⟩), type := .int, context := some ⟨0⟩ },
      { kind := .reference (some ⟨0⟩), type := .object ⟨0⟩, context := some ⟨0⟩ }]
    statements := #[
      { kind := .createContainer, lhs := some ⟨1⟩, rhs := [⟨2⟩] },
      { kind := .call, function := some ⟨1⟩, lhs := some ⟨3⟩ },
      { kind := .call, function := some ⟨1⟩, lhs := some ⟨3⟩, context := some ⟨4⟩ },
      { kind := .assign, lhs := some ⟨3⟩, rhs := [⟨2⟩] }]
    nodes := [[⟨0⟩, ⟨1⟩, ⟨2⟩, ⟨3⟩]] }

def scoreEnv : Env := ⟨scoreContext, scoreGraph⟩

def scoreFunction : LoweredFunction :=
  (lowerFunction {} scoreContext scoreGraph none {}).1.toOption.getD default

/-- What lowering leaves behind. -/
def scoreState : State := (lowerFunction {} scoreContext scoreGraph none {}).2

/-- The code of a statement. -/
def scoreCode (i : Nat) : List Code := (scoreFunction.body.chunks.getD i default).action.code

/-- The count by the third instance is stored behind the checks of that instance, which the checks
of the other one are among, and the number behind those alone. -/
theorem stores_checked_iff_scores :
    scoreCode 2 = [.guarded ["IsValid(Target)", "IsValid(Target->Target)"]
      [.line "Target->Score = Target->Target->Count();"]] ∧
    scoreCode 3 = [.guarded ["IsValid(Target)"] [.line "Target->Score = 4;"]] ∧
    StoresChecked ["IsValid(Target)"] "Target->Score" (scoreCode 2) ∧
    StoresChecked ["IsValid(Target)"] "Target->Score" (scoreCode 3) := by
  have hlowered : lowerFunction {} scoreEnv.cx scoreEnv.graph none {} =
      (.ok scoreFunction, scoreState) := rfl
  have hthird : scoreFunction.body.chunks[2]? =
      some (scoreFunction.body.chunks.getD 2 default) := rfl
  have hnumber : scoreFunction.body.chunks[3]? =
      some (scoreFunction.body.chunks.getD 3 default) := rfl
  refine ⟨rfl, rfl, ?_, ?_⟩
  · obtain ⟨context, given, target, ⟨f, decl, hf, hdecl, rfl⟩, hgiven, htarget, hiff, -⟩ :=
      stores_checked_iff hlowered (List.mem_of_getElem? hthird) rfl
        ⟨rfl, ⟨1⟩, _, _, rfl, rfl⟩ rfl rfl
    cases hf
    cases hdecl
    cases htarget
    cases hgiven
    exact hiff.mpr (List.cons_subset_cons _ (List.nil_subset _))
  · obtain ⟨context, given, target, -, -, htarget, -, hchecked⟩ :=
      stores_checked_iff hlowered (List.mem_of_getElem? hnumber) rfl
        ⟨rfl, List.cons_ne_nil _ _⟩ rfl rfl
    cases htarget
    exact hchecked (by decide) (by decide)

/-- The new array and the count of one's own are stored through the other instance, and nothing
checks it. -/
theorem container_and_call_unchecked :
    ((guardChecks scoreEnv scoreEnv.renderer (some ⟨0⟩)).run scoreState).1 =
      .ok ["IsValid(Target)"] ∧
    scoreCode 0 =
      [.line "Target->Scores.SetNum(1, true);", .line "Target->Scores[0] = 4;"] ∧
    scoreCode 1 = [.line "Target->Score = Count();"] ∧
    ¬ StoresChecked ["IsValid(Target)"] "Target->Scores" (scoreCode 0) ∧
    ¬ StoresChecked ["IsValid(Target)"] "Target->Score" (scoreCode 1) := by
  refine ⟨rfl, rfl, rfl, fun hall => ?_, fun hall => ?_⟩
  · have hsub := hall [] "Target->Scores.SetNum(1, true);" (.line List.mem_cons_self)
      (through_append "Target->Scores" ".SetNum(1, true);")
    cases hsub List.mem_cons_self
  · have hsub := hall [] "Target->Score = Count();" (.line List.mem_cons_self)
      (through_append "Target->Score" " = Count();")
    cases hsub List.mem_cons_self

end Lowering
end GraphLowering
