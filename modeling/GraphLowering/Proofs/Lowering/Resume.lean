import GraphLowering.Proofs.Lowering.Chunks

/-!
# Lowering — calls that resume in the event graph

A call with a resume argument passes on where the event graph is to be entered: the state of the
call's target there.

* `ResumeText`: the text of such an argument, for a state.
* `lowerFunction_enters`: calls pass on the numbers that the event graph has given out, whatever
  is numbered in between.
* `lowerFunction_resumeStates`: a function whose labels all have a number leaves the numbering of
  the event graph as it is.
* `lowerFunction_sink`: what a function is lowered to does not depend on what was reported before.
-/

namespace GraphLowering

/-- The struct that describes a latent action; its first member receives the state. -/
def Schema.IsLatentInfo (schema : Schema) (t : TypeId) : Prop :=
  (∃ decl, schema.type t = .ok decl ∧ decl.wellKnown = some .latentActionInfo) ∧
    ∃ linkage rest decl, schema.allFields t = .ok (linkage :: rest) ∧
      schema.field linkage = .ok decl ∧ decl.flags.has .needsLatentFixup = true

namespace Lowering

/-! ### The argument -/

/-- The text of an argument that receives the state `n`. -/
structure ResumeText (env : Env) (param : FieldDecl) (arg : TermId) (n : Int) (text : String) :
    Prop where
  /-- A parameter of any other type receives the number. -/
  number : isLatentInfo env.schema param = .ok false → text = toString n
  /-- The literal of a latent action is written with the number in its first place, and
  otherwise as it is. -/
  literal : ∀ t term linkage uuid function object, param.type.subType = some t →
    env.schema.IsLatentInfo t → env.term arg = .ok term → term.type = .struct t →
    term.kind = .literal (.struct t [.int linkage, .int uuid, .name function, .object object]) →
    ∃ rest, (Literal.render env.cx (.struct t)
        (.struct t [.int linkage, .int uuid, .name function, .object object])).run =
          .ok (.ok ("FLatentActionInfo(" ++ toString linkage.toInt ++ rest)) ∧
      text = "FLatentActionInfo(" ++ toString n ++ rest
  /-- A latent action that is no literal is written as any expression. -/
  expression : ∀ term, isLatentInfo env.schema param = .ok true → env.term arg = .ok term →
    (∀ t members, term.kind ≠ .literal (.struct t members)) →
    ∃ d s s', ((rendererFrom env d).guarded arg).run s = (.ok text, s')

/-- The literal of a latent action, behind its first member. -/
def latentRest (uuid : Int32) (function : String) : String :=
  ", " ++ toString uuid.toInt ++ ", " ++ Literal.engineText function ++ ", this)"

theorem render_latentInfo {cx : Context} {t : TypeId} (ht : cx.schema.IsLatentInfo t)
    (linkage uuid : Int32) (function : String) (object : Option ObjectId) :
    (Literal.render cx (.struct t)
        (.struct t [.int linkage, .int uuid, .name function, .object object])).run =
      .ok (.ok ("FLatentActionInfo(" ++ toString linkage.toInt ++ latentRest uuid function)) := by
  obtain ⟨⟨decl, hdecl, hkind⟩, -⟩ := ht
  simp only [latentRest, ← String.append_assoc]
  change (Literal.renderStruct cx ⟨t, _⟩).run = _
  unfold Literal.renderStruct
  rw [hdecl]
  cases decl
  cases hkind
  rfl

theorem isLatentInfo_eq {schema : Schema} {param : FieldDecl} {t : TypeId}
    (hparam : param.type.subType = some t) (ht : schema.IsLatentInfo t) :
    isLatentInfo schema param = .ok true := by
  obtain ⟨⟨decl, hdecl, hkind⟩, -⟩ := ht
  unfold isLatentInfo
  rw [hparam]
  change (schema.type t >>= _) = _
  rw [hdecl]
  change Except.ok (decide (decl.wellKnown = _)) = _
  rw [hkind]
  rfl

/-- The state goes into the first member. -/
theorem patchLatentInfo_eq {schema : Schema} {t : TypeId} (ht : schema.IsLatentInfo t) {v : Value}
    {members : List Value} {state : Int} {info : StructValue}
    (h : patchLatentInfo schema ⟨t, v :: members⟩ state = .ok info) :
    info = ⟨t, .int (.ofInt state) :: members⟩ := by
  obtain ⟨-, linkage, rest, decl, hfields, hfield, hflag⟩ := ht
  unfold patchLatentInfo at h
  obtain ⟨fields, hall, h⟩ := Lookup.of_bind_ok h
  obtain rfl := Except.ok.inj (hfields.symm.trans hall)
  obtain ⟨flags, hflags, h⟩ := Lookup.of_bind_ok h
  cases Lookup.of_mapM_ok hflags with
  | cons hhead _ =>
      obtain ⟨decl', hdecl', hhead⟩ := Lookup.of_bind_ok hhead
      obtain rfl := Except.ok.inj (hfield.symm.trans hdecl')
      obtain rfl := Except.ok.inj hhead
      rw [List.findIdx?_cons, if_pos hflag] at h
      exact (Except.ok.inj h).symm

theorem toInt_ofInt_of_get? {m : StateMap} {label : StmtId} {n : Int}
    (h : m.get? label = some n) : (Int32.ofInt n).toInt = n := by
  have hpos := StateMap.pos_of_get? h
  have hmax := StateMap.le_maxState_of_get? h
  simp only [maxState] at hmax
  exact Int32.toInt_ofInt_of_le (by omega) (by omega)

theorem run_literalText_ok {env : Env} {t : ValueType} {v : Value} {s s' : State}
    {text text' : String} (hr : (Literal.render env.cx t v).run = .ok (.ok text))
    (h : (literalText env t v).run s = (.ok text', s')) : text' = text := by
  unfold literalText at h
  rw [hr] at h
  obtain ⟨result, hresult, h⟩ := run_liftBind_ok h
  obtain rfl := Except.ok.inj hresult
  exact (run_pure_ok h).1

/-- A label that the event graph has numbered is passed on with that number. -/
theorem run_resumeState_ok {m m' : StateMap} {label : StmtId} {n k : Int} {s t : State}
    (hs : s.resumeStates = some m') (hm : m ≤ m') (hn : m.get? label = some n)
    (h : (resumeState label).run s = (.ok k, t)) : k = n := by
  rw [run_resumeState_some hs, StateMap.stateOf_of_get? (StateMap.get?_of_le hm hn)] at h
  exact (Except.ok.inj (Prod.mk.inj h).1).symm

theorem argumentText_ok {env : Env} {r : Renderer} (hr : ∃ d, r = rendererFrom env d)
    {m m' : StateMap} {label : StmtId} {n : Int} {param : FieldDecl} {arg : TermId} {s t : State}
    {text : String} (hs : s.resumeStates = some m') (hm : m ≤ m') (hn : m.get? label = some n)
    (h : (argumentText env r (some label) param arg).run s = (.ok text, t)) :
    ResumeText env param arg n text := by
  obtain ⟨d, rfl⟩ := hr
  obtain ⟨k, u, hk, h⟩ := run_bind_ok h
  obtain rfl := (run_resumeState_ok hs hm hn hk).symm
  obtain ⟨isLatent, hlatent, h⟩ := run_liftBind_ok h
  cases isLatent with
  | false =>
      refine ⟨fun _ => (run_pure_ok h).1, fun t term _ _ _ _ hsub ht => ?_, fun term htrue => ?_⟩
      · rw [isLatentInfo_eq hsub ht] at hlatent
        cases hlatent
      · rw [hlatent] at htrue
        cases htrue
  | true =>
      refine ⟨fun hfalse => ?_,
        fun t term linkage uuid function object _ ht hterm htype hkind => ?_,
        fun term _ hterm hkind => ?_⟩
      · rw [hlatent] at hfalse
        cases hfalse
      · refine ⟨latentRest uuid function, render_latentInfo ht linkage uuid function object, ?_⟩
        obtain ⟨term', hterm', h⟩ := run_liftBind_ok h
        obtain rfl := Except.ok.inj (hterm.symm.trans hterm')
        rw [hkind, htype] at h
        obtain ⟨info, hinfo, h⟩ := run_liftBind_ok h
        rw [patchLatentInfo_eq ht hinfo] at h
        have hrender := render_latentInfo ht (.ofInt n) uuid function object
        rw [toInt_ofInt_of_get? hn] at hrender
        exact run_literalText_ok hrender h
      · obtain ⟨term', hterm', h⟩ := run_liftBind_ok h
        obtain rfl := Except.ok.inj (hterm.symm.trans hterm')
        split at h
        · rename_i hlit
          exact absurd hlit (hkind _ _)
        · exact ⟨d, u, t, h⟩

/-! ### Calls -/

/-- The call passes on the number that `m` gives its target, if it has an argument for it. -/
def EntersWith (env : Env) (m : StateMap) (c : LoweredCall) : Prop :=
  ∀ f params i label n param arg, c.statement.function = some f →
    env.schema.inputFields f = .ok params → c.statement.resumeArgument = some i →
    c.statement.target = some label → m.get? label = some n → params[i]? = some param →
    c.statement.rhs[i]? = some arg →
    ∃ text, c.arguments[i]? = some text ∧ ResumeText env param arg n text

/-- The numbering of the event graph is `m`, or has grown from it. -/
def Resumes (m : StateMap) (s : State) : Prop := ∃ m', s.resumeStates = some m' ∧ m ≤ m'

theorem Resumes.resumeState {m : StateMap} {s : State} (h : Resumes m s) (label : StmtId) :
    Resumes m ((resumeState label).run s).2 := by
  obtain ⟨m', hs, hm⟩ := h
  rw [run_resumeState_some hs]
  exact ⟨_, rfl, le_trans hm (StateMap.le_stateOf m' label)⟩

theorem argumentTexts_resumes {env : Env} {r : Renderer} {stmt : Statement} {G : State → Prop}
    {m : StateMap} (hr : r.Respects (fun s t => s = t ∧ G s) env) (hG : ∀ s, G s → Resumes m s)
    (hp : ∀ p, Respects (fun s t => s = t ∧ G s) (report p))
    (hl : ∀ label, Respects (fun s t => s = t ∧ G s) (resumeState label))
    {args : List (FieldDecl × TermId)} (ht : ∀ a ∈ args, env.graph.UsesTerm a.2) {k i : Nat}
    {s t : State} {texts : List String} (hs : G s)
    (h : (argumentTexts env r stmt k args).run s = (.ok texts, t)) {param : FieldDecl}
    {arg : TermId} (harg : args[i]? = some (param, arg)) {label : StmtId} {n : Int}
    (hi : stmt.resumeArgument = some (k + i)) (hlabel : stmt.target = some label)
    (hn : m.get? label = some n) :
    ∃ text, texts[i]? = some text ∧ ResumeText env param arg n text := by
  induction args generalizing k i s texts with
  | nil => cases harg
  | cons a args ih =>
      obtain ⟨text, u, htext, h⟩ := run_bind_ok h
      obtain ⟨texts', v, htexts, h⟩ := run_bind_ok h
      obtain ⟨rfl, rfl⟩ := run_pure_ok h
      cases i with
      | zero =>
          obtain rfl := Option.some.inj harg
          obtain ⟨m', hm', hle⟩ := hG s hs
          rw [Nat.add_zero] at hi
          rw [if_pos hi, hlabel] at htext
          exact ⟨text, rfl, argumentText_ok hr.depth hm' hle hn htext⟩
      | succ i =>
          have hu : G u := by
            have hkeeps : G ((argumentText env r
                (if stmt.resumeArgument = some k then stmt.target else none) a.1 a.2).run s).2 :=
              (argumentText_respects (fun p _ => hp p) hr (fun label _ => hl label) a.1
                (ht a List.mem_cons_self)).keeps hs
            rwa [htext] at hkeeps
          rw [show k + (i + 1) = k + 1 + i by omega] at hi
          rw [List.getElem?_cons_succ] at harg ⊢
          exact ih (fun b hb => ht b (List.mem_cons_of_mem _ hb)) hu htexts harg hi

/-- The calls recorded so far enter the event graph with the numbers of `m`. -/
def Enters (env : Env) (m : StateMap) (s : State) : Prop :=
  Resumes m s ∧ ∀ c ∈ s.calls, EntersWith env m c

theorem enters_closed (env : Env) (m : StateMap) :
    Closed (fun s t => s = t ∧ Enters env m s) env := by
  have hp : ∀ p, Respects (fun s t => s = t ∧ Enters env m s) (report p) :=
    fun p => .of_keeps fun s h => h
  have hl : ∀ label, Respects (fun s t => s = t ∧ Enters env m s) (resumeState label) := by
    refine fun label => .of_keeps fun s h => ⟨h.1.resumeState label, ?_⟩
    obtain ⟨m', hm', -⟩ := h.1
    rw [run_resumeState_some hm']
    exact h.2
  refine ⟨hp, fun _ => .of_keeps fun s h => h, fun _ => .of_keeps fun s h => h,
    fun _ => .of_keeps fun s h => h, ?_⟩
  intro r stmt f hr hs hf
  have ht (params : List FieldDecl) : ∀ a ∈ params.zip stmt.rhs, env.graph.UsesTerm a.2 :=
    fun a ha => hs.operands.rhs (List.of_mem_zip ha).2
  unfold callArguments
  refine .liftBind fun params hparams => .of_keeps fun s h => ?_
  have hkeeps : Enters env m ((argumentTexts env r stmt 0 (params.zip stmt.rhs)).run s).2 :=
    (argumentTexts_respects (fun p _ => hp p) hr (ht params)
      fun _ label _ _ _ _ => hl label).keeps h
  rw [run_bind]
  cases hrun : (argumentTexts env r stmt 0 (params.zip stmt.rhs)).run s with
  | mk result t =>
      rw [hrun] at hkeeps
      cases result with
      | error e => exact hkeeps
      | ok texts =>
          refine ⟨hkeeps.1, fun c hc => ?_⟩
          rcases List.mem_append.mp hc with hc | hc
          · exact hkeeps.2 c hc
          · rw [List.mem_singleton.mp hc]
            intro f' params' i label n param arg hf' hparams' hi hlabel hn hparam harg
            obtain rfl := Option.some.inj (hf.symm.trans hf')
            obtain rfl := Except.ok.inj (hparams.symm.trans hparams')
            refine argumentTexts_resumes hr (fun _ h => h.1) hp hl (ht params) h hrun ?_ ?_
              hlabel hn
            · rw [List.getElem?_zip_eq_some]
              exact ⟨hparam, harg⟩
            · rw [Nat.zero_add]
              exact hi

/-! ### Functions -/

/-- What the steps respect, the lowering of a body respects, if it says what the body comes
with. -/
theorem lowerBody_respects {R : State → State → Prop} {env : Env} (hR : Closed R env)
    (hout : ∀ {s t}, R s t → s.states = t.states ∧ s.calls = t.calls) (comments : CommentOptions) :
    Respects R (lowerBody comments env) := by
  unfold lowerBody
  refine .bind (.lift _) fun usesFlowStack => .bind (.lift _) fun isLoop =>
    .bind (lowerChunks_respects hR comments isLoop) fun chunks =>
      .bind (hR.atStatement _) fun _ => ?_
  intro s t h
  obtain ⟨hstates, hcalls⟩ := hout h
  refine ⟨?_, h⟩
  change Except.ok (LoweredFunction.mk _ s.states s.calls) = .ok ⟨_, t.states, t.calls⟩
  rw [hstates, hcalls]

/-- The states are the same but for what has been reported. -/
def SameButSink (s t : State) : Prop :=
  s.states = t.states ∧ s.resumeStates = t.resumeStates ∧ s.calls = t.calls

theorem sameButSink_closed (env : Env) : Closed SameButSink env := by
  have hp : ∀ p, Respects SameButSink (report p) := fun p s t h => ⟨rfl, h⟩
  have hlocal : ∀ target, Respects SameButSink (localState target) := by
    rintro target s t ⟨hstates, hresume, hcalls⟩
    rw [run_localState, run_localState, hstates]
    exact ⟨rfl, rfl, hresume, hcalls⟩
  have hl : ∀ label, Respects SameButSink (resumeState label) := by
    rintro label s t ⟨hstates, hresume, hcalls⟩
    cases ht : t.resumeStates with
    | none =>
        rw [run_resumeState_none ht, run_resumeState_none (hresume.trans ht)]
        exact hlocal label ⟨hstates, hresume, hcalls⟩
    | some m =>
        rw [run_resumeState_some ht, run_resumeState_some (hresume.trans ht)]
        exact ⟨rfl, hstates, rfl, hcalls⟩
  have hc : ∀ c, Respects SameButSink (recordCall c) := by
    rintro c s t ⟨hstates, hresume, hcalls⟩
    rw [run_recordCall, run_recordCall, hcalls]
    exact ⟨rfl, hstates, hresume, rfl⟩
  exact ⟨hp, fun _ s t h => ⟨rfl, h⟩, hlocal, fun _ s t h => ⟨rfl, h⟩, fun hr hs hf =>
    callArguments_respects (fun p _ => hp p) hc hr hs.operands (fun label _ => hl label) hf⟩

/-- Labels that have a number add nothing to the numbering of the event graph. -/
theorem resumeStates_closed {env : Env} {m : StateMap}
    (hm : ∀ stmt label, env.graph.UsesCall stmt → stmt.AsksFor env.schema label →
      ∃ n, m.get? label = some n) :
    Closed (fun s t => s = t ∧ s.resumeStates = some m) env := by
  have hp : ∀ p, Respects (fun s t => s = t ∧ s.resumeStates = some m) (report p) :=
    fun p => .of_keeps fun s h => h
  refine ⟨hp, fun _ => .of_keeps fun s h => h, fun _ => .of_keeps fun s h => h,
    fun _ => .of_keeps fun s h => h, ?_⟩
  intro r stmt f hr hs hf
  refine callArguments_respects (fun p _ => hp p) (fun _ => .of_keeps fun s h => h) hr hs.operands
    (fun label hlabel => .of_keeps fun s h => ?_) hf
  obtain ⟨n, hn⟩ := hm stmt label hs hlabel
  rw [run_resumeState_some h, StateMap.stateOf_of_get? hn]

end Lowering

open Lowering

variable {comments : CommentOptions} {cx : Context} {g : FunctionGraph} {sink : Sink}
  {f : LoweredFunction} {s : Lowering.State}

/-- **Calls enter the event graph with its numbers.**  The numbering may grow while a function is
lowered, but never changes. -/
theorem lowerFunction_enters {m m' : StateMap} (hm : m ≤ m')
    (h : lowerFunction comments cx g (some m') sink = (.ok f, s)) :
    (∀ c ∈ f.calls, EntersWith ⟨cx, g⟩ m c) ∧ Resumes m s := by
  have hkeeps := (lowerBody_respects (enters_closed ⟨cx, g⟩ m) (fun h => h.1 ▸ ⟨rfl, rfl⟩)
    comments).keeps (s := { sink := sink.enterFunction (some g.name), resumeStates := some m' })
    ⟨⟨m', rfl, hm⟩, fun c hc => by cases hc⟩
  have hcalls : f.calls = s.calls := by
    unfold lowerFunction Lowering.lowerBody at h
    obtain ⟨_, -, h⟩ := run_liftBind_ok h
    obtain ⟨_, -, h⟩ := run_liftBind_ok h
    obtain ⟨chunks, t, -, h⟩ := run_bind_ok h
    cases h
    rfl
  unfold lowerFunction at h
  rw [h] at hkeeps
  exact ⟨fun c hc => hkeeps.2 c (hcalls ▸ hc), hkeeps.1⟩

/-- Labels that have a number leave the numbering of the event graph as it is. -/
theorem lowerFunction_resumeStates (comments : CommentOptions) (sink : Sink) {m : StateMap}
    (hm : ∀ stmt label, g.UsesCall stmt → stmt.AsksFor cx.schema label →
      ∃ n, m.get? label = some n) :
    (lowerFunction comments cx g (some m) sink).2.resumeStates = some m :=
  (lowerBody_respects (resumeStates_closed hm : Closed _ ⟨cx, g⟩) (fun h => h.1 ▸ ⟨rfl, rfl⟩)
    comments).keeps rfl

/-- What a function is lowered to does not depend on what was reported before. -/
theorem lowerFunction_sink (resumeStates : Option StateMap) (sink sink' : Sink) :
    (lowerFunction comments cx g resumeStates sink).1 =
      (lowerFunction comments cx g resumeStates sink').1 := by
  have hstart : SameButSink { sink := sink.enterFunction (some g.name), resumeStates }
      { sink := sink'.enterFunction (some g.name), resumeStates } := ⟨rfl, rfl, rfl⟩
  exact (lowerBody_respects (sameButSink_closed ⟨cx, g⟩) (fun h => ⟨h.1, h.2.2⟩) comments hstart).1

end GraphLowering
