import GraphLowering.Proofs.Lowering.Parts
import GraphLowering.Proofs.Lowering.Renderings
import GraphLowering.World
import Mathlib.Data.Nat.Find

/-!
# Lowering — nested statements are rendered once for each path

The access path of a term may start at a nested statement, whose text then stands at the start of
every path that passes through the term.  A checked reference has one such path of its own and one
in each of its checks, so the nested statement is rendered, and runs, once for each of them.

* `Renders`, `Alike`: which nested statements a step renders, and that two steps render the same.
* `exists_once`: what is rendered wherever the text of a nested statement stands.
* `FunctionGraph.StartsAt`: the nested statement that the path of a term starts at.
* `nested_rendered_per_check`: what a checked reference and a guarded store render.
-/

namespace GraphLowering

/-- The path of the term starts at a nested statement: the term stands for it, or is reached
through references from a term that does. -/
inductive FunctionGraph.StartsAt (g : FunctionGraph) (id : StmtId) : TermId → Prop
  | inline {t : TermId} {term : Term} (h : g.term t = .ok term) (hk : term.kind = .inline id) :
      StartsAt g id t
  | context {t c : TermId} {term : Term} {field : Option FieldId} (h : g.term t = .ok term)
      (hk : term.kind = .reference field) (hc : term.context = some c) (hrest : StartsAt g id c) :
      StartsAt g id t

namespace Lowering

open FunctionGraph

variable {α β : Type} {A : StmtId → Prop} {env : Env} {r r' : Renderer} {id : StmtId} {n : Nat}

/-! ### What a step renders -/

/-- Every run of `x` that succeeds renders these nested statements, in this order. -/
def Renders (x : Lower α) (ids : List StmtId) : Prop :=
  ∀ ⦃s a t⦄, x.run s = (.ok a, t) → t.inlined = s.inlined ++ ids

namespace Renders

variable {x : Lower α} {f : α → Lower β} {ids ids' : List StmtId}

theorem quiet (h : Quiet x) : Renders x [] := by
  obtain ⟨result, hx⟩ := h
  intro s a t hrun
  obtain ⟨sink, hs⟩ := hx s
  rw [hs] at hrun
  cases hrun
  exact (List.append_nil _).symm

theorem throw (e : Fault) : Renders (MonadExcept.throw e : Lower α) ids := by
  intro s a t hrun
  cases hrun

theorem recordCall (c : LoweredCall) : Renders (recordCall c) [] := by
  intro s a t hrun
  cases hrun
  exact (List.append_nil _).symm

theorem recordInline (id : StmtId) : Renders (recordInline id) [id] := by
  intro s a t hrun
  cases hrun
  rfl

theorem resumeState (label : StmtId) : Renders (resumeState label) [] := by
  intro s a t hrun
  rw [List.append_nil]
  cases h : s.resumeStates with
  | none =>
      rw [run_resumeState_none h] at hrun
      cases hrun
      rfl
  | some m =>
      rw [run_resumeState_some h] at hrun
      cases hrun
      rfl

theorem lookUp {e : Except Fault α} (h : ∀ a, e = .ok a → Renders (f a) ids) :
    Renders ((liftM e : Lower α) >>= f) ids := by
  intro s b t hrun
  obtain ⟨a, ha, hrun⟩ := run_liftBind_ok hrun
  exact h a ha hrun

theorem bind (hx : Renders x ids) (hf : ∀ a, Renders (f a) ids') :
    Renders (x >>= f) (ids ++ ids') := by
  intro s b t hrun
  obtain ⟨a, u, hxs, hrun⟩ := run_bind_ok hrun
  rw [hf a hrun, hx hxs, List.append_assoc]

theorem thenQuiet (hx : Renders x ids) (hf : ∀ a, Quiet (f a)) : Renders (x >>= f) ids := by
  have h := hx.bind fun a => .quiet (hf a)
  rwa [List.append_nil] at h

theorem mapM {xs : List α} (h : ∀ a ∈ xs, Renders (f a) ids) :
    Renders (xs.mapM f) (List.replicate xs.length ids).flatten := by
  induction xs with
  | nil => exact .quiet (.pure _)
  | cons a xs ih =>
      rw [List.mapM_cons, List.length_cons, List.replicate_succ, List.flatten_cons]
      exact .bind (h a List.mem_cons_self) fun _ =>
        .thenQuiet (ih fun b hb => h b (List.mem_cons_of_mem _ hb)) fun _ => .pure _

end Renders

/-! ### Steps that render the same -/

/-- Where both `x` and `y` succeed they render the same nested statements, all of them in `A`. -/
def Alike (A : StmtId → Prop) (x y : Lower α) : Prop :=
  ∀ ⦃s a t s' b t'⦄, x.run s = (.ok a, t) → y.run s' = (.ok b, t') →
    ∃ ids, t.inlined = s.inlined ++ ids ∧ t'.inlined = s'.inlined ++ ids ∧ ∀ id ∈ ids, A id

namespace Alike

variable {x y : Lower α} {f g : α → Lower β} {ids : List StmtId}

theorem of_renders (hx : Renders x ids) (hy : Renders y ids) (h : ∀ id ∈ ids, A id) :
    Alike A x y :=
  fun _ _ _ _ _ _ hrun hrun' => ⟨ids, hx hrun, hy hrun', h⟩

theorem silent (hx : Renders x []) (hy : Renders y []) : Alike A x y :=
  .of_renders hx hy fun _ h => by cases h

theorem imp {A' : StmtId → Prop} (h : Alike A x y) (hA : ∀ id, A id → A' id) : Alike A' x y := by
  intro s a t s' b t' hrun hrun'
  obtain ⟨ids, ht, ht', hids⟩ := h hrun hrun'
  exact ⟨ids, ht, ht', fun id hid => hA id (hids id hid)⟩

theorem lookUp {e : Except Fault α} (h : ∀ a, Alike A (f a) (g a)) :
    Alike A ((liftM e : Lower α) >>= f) ((liftM e : Lower α) >>= g) := by
  intro s b t s' b' t' hrun hrun'
  obtain ⟨a, ha, hrun⟩ := run_liftBind_ok hrun
  obtain ⟨a', ha', hrun'⟩ := run_liftBind_ok hrun'
  obtain rfl := Except.ok.inj (ha.symm.trans ha')
  exact h a hrun hrun'

theorem bind (hx : Alike A x y) (hf : ∀ a b, Alike A (f a) (g b)) :
    Alike A (x >>= f) (y >>= g) := by
  intro s b t s' b' t' hrun hrun'
  obtain ⟨a, u, hxs, hrun⟩ := run_bind_ok hrun
  obtain ⟨a', u', hys, hrun'⟩ := run_bind_ok hrun'
  obtain ⟨first, hu, hu', hfirst⟩ := hx hxs hys
  obtain ⟨rest, ht, ht', hrest⟩ := hf a a' hrun hrun'
  refine ⟨first ++ rest, ?_, ?_, fun id hid => (List.mem_append.mp hid).elim (hfirst id) (hrest id)⟩
  · rw [ht, hu, List.append_assoc]
  · rw [ht', hu', List.append_assoc]

end Alike

/-- Terms are rendered alike. -/
def Renderer.Alike (A : StmtId → Prop) (r r' : Renderer) : Prop :=
  ∀ t, Lowering.Alike A (r.guarded t) (r'.guarded t) ∧ Lowering.Alike A (r.bare t) (r'.bare t)

/-- Steps put together alike, from terms that are rendered alike. -/
theorem Parallel.alike {x y : Lower α} (h : Parallel r r' x y) (hr : r.Alike A r') :
    Alike A x y := by
  induction h with
  | quiet hx hy => exact .silent (.quiet hx) (.quiet hy)
  | guarded t => exact (hr t).1
  | bare t => exact (hr t).2
  | resume label => exact .silent (.resumeState label) (.resumeState label)
  | call c c' => exact .silent (.recordCall c) (.recordCall c')
  | lookUp _ ih => exact .lookUp ih
  | bind _ _ ih ihf => exact .bind ih ihf

/-! ### Nested statements -/

/-- The nested statement can be rendered at this depth. -/
def RenderedAt (env : Env) (n : Nat) (id : StmtId) : Prop :=
  ∃ s text t, (inlineText env (rendererFrom env n) id).run s = (.ok text, t)

/-- The nested statement can be rendered at a depth below this one. -/
def RenderedBelow (env : Env) (n : Nat) (id : StmtId) : Prop := ∃ m < n, RenderedAt env m id

theorem RenderedBelow.succ (h : RenderedBelow env n id) : RenderedBelow env (n + 1) id := by
  obtain ⟨m, hm, hrun⟩ := h
  exact ⟨m, Nat.lt_succ_of_lt hm, hrun⟩

theorem inlineText_alike {m : Nat}
    (hr : (rendererFrom env n).Alike (RenderedBelow env n) (rendererFrom env m)) (id : StmtId) :
    Alike (RenderedBelow env (n + 1)) (inlineText env (rendererFrom env n) id)
      (inlineText env (rendererFrom env m) id) := by
  intro s a t s' b t' hrun hrun'
  -- The statement itself is rendered here; what is rendered inside it, one level further down.
  have hid : ∀ i ∈ [id], RenderedBelow env (n + 1) i := by
    intro i hi
    rw [List.mem_singleton.mp hi]
    exact ⟨n, Nat.lt_succ_self n, s, a, t, hrun⟩
  have hvalue : ∀ stmt, Alike (RenderedBelow env (n + 1)) (valueText env (rendererFrom env n) stmt)
      (valueText env (rendererFrom env m) stmt) := fun stmt =>
    ((valueText_parallel stmt).alike hr).imp fun _ h => h.succ
  have halike : Alike (RenderedBelow env (n + 1)) (inlineText env (rendererFrom env n) id)
      (inlineText env (rendererFrom env m) id) :=
    .lookUp fun stmt => .bind (.of_renders (.recordInline id) (.recordInline id) hid) fun _ _ =>
      hvalue stmt
  exact halike hrun hrun'

theorem termText_alike {m : Nat}
    (hr : (rendererFrom env n).Alike (RenderedBelow env n) (rendererFrom env m)) (checked : Bool)
    (t : TermId) :
    Alike (RenderedBelow env (n + 1)) (termText env (rendererFrom env n) checked t)
      (termText env (rendererFrom env m) checked t) := by
  refine .lookUp fun term => ?_
  split
  · exact .silent (.quiet (.pure _)) (.quiet (.pure _))
  · exact .silent (.quiet (literalText_quiet _ _)) (.quiet (literalText_quiet _ _))
  · exact inlineText_alike hr _
  · exact ((referenceText_parallel checked term _).alike hr).imp fun _ h => h.succ

/-- **What is rendered depends on neither the depth nor the state**, and each nested statement in it
is rendered further down. -/
theorem rendererFrom_alike (env : Env) (n m : Nat) :
    (rendererFrom env n).Alike (RenderedBelow env n) (rendererFrom env m) := by
  induction n generalizing m with
  | zero =>
      intro t
      constructor <;> intro s a t s' b t' hrun <;> cases hrun
  | succ n ih =>
      cases m with
      | zero =>
          intro t
          constructor <;> intro s a t s' b t' _ hrun' <;> cases hrun'
      | succ m => exact fun t => ⟨termText_alike (ih m) true t, termText_alike (ih m) false t⟩

/-- **Where the text of a nested statement stands**, it is rendered once, and with it always the
same statements inside it. -/
theorem exists_once (env : Env) (id : StmtId) :
    ∃ once, once.count id = 1 ∧ ∀ n, Renders (inlineText env (rendererFrom env n) id) once := by
  classical
  by_cases hsome : ∃ n, RenderedAt env n id
  · obtain ⟨s, text, t, hrun⟩ := Nat.find_spec hsome
    obtain ⟨stmt, -, hvalue⟩ := run_liftBind_ok hrun
    obtain ⟨_, u, hu, hvalue⟩ := run_bind_ok hvalue
    obtain ⟨nested, ht, -, hnested⟩ :=
      (valueText_parallel stmt).alike (rendererFrom_alike env _ _) hvalue hvalue
    -- At the least depth that will do, it cannot be rendered once more inside itself.
    have hnew : id ∉ nested := by
      intro hmem
      obtain ⟨m, hm, hrendered⟩ := hnested id hmem
      exact Nat.find_min hsome hm hrendered
    refine ⟨id :: nested, ?_, fun m s' text' t' hrun' => ?_⟩
    · rw [List.count_cons_self, List.count_eq_zero.mpr hnew]
    · obtain ⟨ids, hids, hids', -⟩ := inlineText_alike (rendererFrom_alike env _ m) id hrun hrun'
      rw [ht, Renders.recordInline id hu, List.append_assoc] at hids
      rw [hids', ← List.append_cancel_left hids]
      rfl
  · refine ⟨[id], List.count_singleton_self, fun n s text t hrun => ?_⟩
    exact absurd ⟨n, s, text, t, hrun⟩ hsome

/-! ### Where paths start -/

theorem startsAt_iff_of_context {g : FunctionGraph} {t c : TermId} {term : Term}
    {field : Option FieldId} (hterm : g.term t = .ok term) (hk : term.kind = .reference field)
    (hc : term.context = some c) : g.StartsAt id t ↔ g.StartsAt id c := by
  refine ⟨fun h => ?_, fun h => .context hterm hk hc h⟩
  cases h with
  | inline hterm' hk' =>
      obtain rfl := Except.ok.inj (hterm.symm.trans hterm')
      rw [hk] at hk'
      cases hk'
  | context hterm' hk' hc' hrest =>
      obtain rfl := Except.ok.inj (hterm.symm.trans hterm')
      rw [hc] at hc'
      cases hc'
      exact hrest

theorem StartsAt.unique {g : FunctionGraph} {id' : StmtId} {t : TermId} (h : g.StartsAt id t)
    (h' : g.StartsAt id' t) : id = id' := by
  induction h with
  | inline hterm hk =>
      cases h' with
      | inline hterm' hk' =>
          obtain rfl := Except.ok.inj (hterm.symm.trans hterm')
          rw [hk] at hk'
          cases hk'
          rfl
      | context hterm' hk' =>
          obtain rfl := Except.ok.inj (hterm.symm.trans hterm')
          rw [hk] at hk'
          cases hk'
  | context hterm hk hc _ ih => exact ih ((startsAt_iff_of_context hterm hk hc).mp h')

/-- What is rendered where the path of a term starts: what its nested statement renders, if it
starts at one, and nothing otherwise. -/
structure OpensWith (env : Env) (once : List StmtId) (t : TermId) : Prop where
  nested : ∀ id, env.graph.StartsAt id t → ∀ n, Renders (inlineText env (rendererFrom env n) id) once
  plain : (∀ id, ¬ env.graph.StartsAt id t) → once = []

theorem exists_opensWith (env : Env) (t : TermId) :
    ∃ once, OpensWith env once t ∧ ∀ id, env.graph.StartsAt id t → once.count id = 1 := by
  by_cases hsome : ∃ id, env.graph.StartsAt id t
  · obtain ⟨id, hid⟩ := hsome
    obtain ⟨once, hcount, honce⟩ := exists_once env id
    refine ⟨once, ⟨fun id' hid' => ?_, fun hnone => absurd hid (hnone id)⟩, fun id' hid' => ?_⟩
    · rw [← StartsAt.unique hid hid']
      exact honce
    · rw [← StartsAt.unique hid hid']
      exact hcount
  · exact ⟨[], ⟨fun id hid => absurd ⟨id, hid⟩ hsome, fun _ => rfl⟩,
      fun id hid => absurd ⟨id, hid⟩ hsome⟩

namespace OpensWith

variable {once : List StmtId} {t c : TermId} {term : Term} {field : Option FieldId}

theorem context (h : OpensWith env once t) (hterm : env.graph.term t = .ok term)
    (hk : term.kind = .reference field) (hc : term.context = some c) : OpensWith env once c where
  nested id hid := h.nested id ((startsAt_iff_of_context hterm hk hc).mpr hid)
  plain hnone := h.plain fun id hid => hnone id ((startsAt_iff_of_context hterm hk hc).mp hid)

/-- A path that ends at a term of another kind starts at no nested statement. -/
theorem eq_nil_of_kind (h : OpensWith env once t) (hterm : env.graph.term t = .ok term)
    (hinline : ∀ id, term.kind ≠ .inline id) (href : ∀ field, term.kind ≠ .reference field) :
    once = [] := by
  refine h.plain fun id hid => ?_
  cases hid with
  | inline hterm' hk =>
      obtain rfl := Except.ok.inj (hterm.symm.trans hterm')
      exact hinline id hk
  | context hterm' hk =>
      obtain rfl := Except.ok.inj (hterm.symm.trans hterm')
      exact href _ hk

theorem eq_nil_of_no_context (h : OpensWith env once t) (hterm : env.graph.term t = .ok term)
    (hk : term.kind = .reference field) (hc : term.context = none) : once = [] := by
  refine h.plain fun id hid => ?_
  cases hid with
  | inline hterm' hk' =>
      obtain rfl := Except.ok.inj (hterm.symm.trans hterm')
      rw [hk] at hk'
      cases hk'
  | context hterm' _ hc' =>
      obtain rfl := Except.ok.inj (hterm.symm.trans hterm')
      rw [hc] at hc'
      cases hc'

/-- A reference renders what its context does. -/
theorem referencePath (h : OpensWith env once t) (hterm : env.graph.term t = .ok term)
    (hk : term.kind = .reference field)
    (hr : ∀ c, term.context = some c → Renders (r.bare c) once) :
    Renders (referencePath env r term field) once := by
  refine .lookUp fun name _ => ?_
  cases hc : term.context with
  | none =>
      rw [h.eq_nil_of_no_context hterm hk hc]
      exact .quiet (.pure _)
  | some c =>
      refine .lookUp fun context hcontext => ?_
      split
      · rename_i hself
        have hkind : context.kind = .self := by
          unfold Term.isSelf at hself
          split at hself
          · assumption
          · cases hself
        rw [(h.context hterm hk hc).eq_nil_of_kind hcontext (by simp [hkind]) (by simp [hkind])]
        exact .quiet (.pure _)
      · refine .thenQuiet (hr c hc) fun path => ?_
        refine .ite (.pure _) (.ite (.bind (.lift _) fun owner => ?_) (.pure _))
        cases owner with
        | none => exact .pure _
        | some owner => exact .bind (.lift _) fun _ => .pure _

/-- The path of a term renders what it opens with, at any depth. -/
theorem bare (h : OpensWith env once t) (n : Nat) : Renders ((rendererFrom env n).bare t) once := by
  induction n generalizing t with
  | zero => exact .throw _
  | succ n ih =>
      refine .lookUp fun term hterm => ?_
      cases hk : term.kind with
      | self =>
          rw [h.eq_nil_of_kind hterm (by simp [hk]) (by simp [hk])]
          exact .quiet (.pure _)
      | literal v =>
          rw [h.eq_nil_of_kind hterm (by simp [hk]) (by simp [hk])]
          exact .quiet (literalText_quiet _ _)
      | inline id => exact h.nested id (.inline hterm hk) n
      | reference field =>
          have hpath := h.referencePath (r := rendererFrom env n) hterm hk fun c hc =>
            ih (h.context hterm hk hc)
          exact hpath.thenQuiet fun _ => .pure _

/-- Each check of a chain renders what the chain opens with. -/
theorem guardChecks {links : List TermId} (h : OpensWith env once t)
    (hterm : env.graph.term t = .ok term) (hk : term.kind = .reference field)
    (hlinks : guardLinks env.graph term.context = .ok links) (n : Nat) :
    Renders (guardChecks env (rendererFrom env n) term.context)
      (List.replicate links.length once).flatten := by
  refine .lookUp fun links' hlinks' => ?_
  obtain rfl := Except.ok.inj (hlinks.symm.trans hlinks')
  have hopen : ∀ l ∈ links, OpensWith env once l :=
    forall_mem_guardLinksFrom (fun _ _ _ _ hterm hk hc h => h.context hterm hk hc)
      (fun c hc => h.context hterm hk hc) hlinks
  exact .mapM fun l hl => .thenQuiet ((hopen l hl).bare n) fun _ => .bind (.lift _) fun _ => .pure _

end OpensWith

/-- **A nested statement is rendered once for each check and once for the path.**  `once` is what is
rendered where the path of `t` starts, and the nested statement there is in it just once.  The
expression of `t` and a store into `t` both render it as often as there are checks, and once more.
So the nested statement is rendered at most once exactly where nothing is checked. -/
theorem nested_rendered_per_check {t : TermId} {term : Term} {field : Option FieldId}
    {links : List TermId} (hterm : env.term t = .ok term) (hk : term.kind = .reference field)
    (hlinks : guardLinks env.graph term.context = .ok links) :
    ∃ once, (∀ id, env.graph.StartsAt id t → once.count id = 1) ∧
      ((∀ id, ¬ env.graph.StartsAt id t) → once = []) ∧
      Renders (env.text t) (List.replicate (links.length + 1) once).flatten ∧
      (∀ body, Renders (storing env t body) (List.replicate (links.length + 1) once).flatten) ∧
      ∀ id, env.graph.StartsAt id t →
        ((List.replicate (links.length + 1) once).flatten.count id ≤ 1 ↔ links = []) := by
  obtain ⟨once, hopens, hcount⟩ := exists_opensWith env t
  refine ⟨once, hcount, hopens.plain, ?_, fun body => ?_, fun id hid => ?_⟩
  · -- The path comes first, then the checks.
    rw [List.replicate_succ, List.flatten_cons]
    refine .lookUp fun term' hterm' => ?_
    obtain rfl := Except.ok.inj (hterm.symm.trans hterm')
    rw [hk]
    refine .bind (hopens.referencePath hterm hk fun c hc => (hopens.context hterm hk hc).bare _)
      fun path => .thenQuiet (hopens.guardChecks hterm hk hlinks _) fun checks => ?_
    exact .ite (.pure _) (.bind (.lift _) fun _ => .pure _)
  · -- The checks come first, then the path.
    rw [List.replicate_succ', List.flatten_append, List.flatten_singleton]
    refine .lookUp fun term' hterm' => ?_
    obtain rfl := Except.ok.inj (hterm.symm.trans hterm')
    exact .bind (hopens.guardChecks hterm hk hlinks _) fun checks =>
      .thenQuiet (.thenQuiet (hopens.bare _) fun _ => .pure _) fun _ => .pure _
  · rw [List.count_flatten, List.map_replicate, hcount id hid, List.sum_replicate_nat, Nat.mul_one,
      ← List.length_eq_zero_iff]
    omega

/-! ### The health of a spawned hero's target -/

/-- A class with a reference to another instance, a health and a function that makes instances. -/
def spawnContext : Context :=
  ((World.build [.addClass "Hero" none, .addField ⟨0⟩ "Target" (.object ⟨0⟩),
    .addField ⟨0⟩ "Health" .float, .addFunction ⟨0⟩ "Tick", .addFunction ⟨0⟩ "Spawn",
    .addParam ⟨1⟩ "ReturnValue" (.object ⟨0⟩) ⟨[.outParam, .returnParam]⟩]).toOption.getD
      {}).context ⟨0⟩

/-- A new instance, its target, and the health of that. -/
def spawnGraph : FunctionGraph :=
  { name := "Tick"
    function := ⟨0⟩
    terms := #[{ kind := .inline ⟨0⟩, type := .object ⟨0⟩ },
      { kind := .reference (some ⟨0⟩), type := .object ⟨0⟩, context := some ⟨0⟩ },
      { kind := .reference (some ⟨1⟩), type := .float, context := some ⟨1⟩ }]
    statements := #[{ kind := .call, function := some ⟨1⟩ }] }

def spawnEnv : Env := ⟨spawnContext, spawnGraph⟩

/-- The target of the new instance is read without a check, and the instance is made once. -/
theorem nested_rendered_per_check_target :
    ((spawnEnv.text ⟨1⟩).run { sink := {} }).1 = .ok "Spawn()->Target" ∧
    ∃ rendered, Renders (spawnEnv.text ⟨1⟩) rendered ∧
      (∀ body, Renders (storing spawnEnv ⟨1⟩ body) rendered) ∧ rendered.count ⟨0⟩ ≤ 1 := by
  have hstarts : spawnEnv.graph.StartsAt ⟨0⟩ ⟨1⟩ := .context rfl rfl rfl (.inline rfl rfl)
  have hterm : spawnEnv.term ⟨1⟩ = .ok _ := rfl
  obtain ⟨once, -, -, htext, hstore, hiff⟩ := nested_rendered_per_check hterm rfl rfl
  exact ⟨rfl, _, htext, hstore, (hiff ⟨0⟩ hstarts).mpr rfl⟩

/-- The health of that target is read behind a check of it, and for both an instance is made; so it
is stored. -/
theorem checked_nested_rendered_twice :
    ((spawnEnv.text ⟨2⟩).run { sink := {} }).1 =
      .ok "((IsValid(Spawn()->Target)) ? (Spawn()->Target->Health) : (0.000000))" ∧
    ((spawnEnv.text ⟨2⟩).run { sink := {} }).2.inlined = [⟨0⟩, ⟨0⟩] ∧
    ((assignTo spawnEnv ⟨2⟩ "0.5").run { sink := {} }).1 =
      .ok [.guarded ["IsValid(Spawn()->Target)"] [.line "Spawn()->Target->Health = 0.5;"]] ∧
    ((assignTo spawnEnv ⟨2⟩ "0.5").run { sink := {} }).2.inlined = [⟨0⟩, ⟨0⟩] :=
  ⟨rfl, rfl, rfl, rfl⟩

end Lowering
end GraphLowering
