import GraphLowering.Proofs.Lowering.Depth
import GraphLowering.Proofs.Lowering.Stability
import GraphLowering.Proofs.Totality.Expressions
import GraphLowering.World

/-!
# Lowering — what the checks of a path cover

A term is read along its chain of contexts.  The references on the chain, up to the first term of
another kind, are what its path is written from; those among them that can be null are checked, the
base first.  So no check goes through a reference that a check to its left has not passed.

* `FunctionGraph.OnPath`, `FunctionGraph.Through`: the references that a path is written from.
* `guardLinksFrom_spec`: which of them are checked, and in what order.
* `run_bare_of_through`: the text of a path goes on from the texts of what it leads through.
* `guard_covers_path`: the condition that is written.
-/

namespace GraphLowering

namespace FunctionGraph

variable {g : FunctionGraph} {t u v c : TermId} {term : Term} {field : Option FieldId}

/-- The term that a term is read from. -/
def contexts (g : FunctionGraph) (t : TermId) : List TermId :=
  match g.term t with
  | .ok term => term.context.toList
  | .error _ => []

/-- `u` is on the chain of contexts from `t`, and the chain is of references up to there. -/
inductive OnPath (g : FunctionGraph) : TermId → TermId → Prop
  | start {t : TermId} {term : Term} {field : Option FieldId} (h : g.term t = .ok term)
      (hk : term.kind = .reference field) : OnPath g t t
  | context {t c u : TermId} {term : Term} {field : Option FieldId} (h : g.term t = .ok term)
      (hk : term.kind = .reference field) (hc : term.context = some c) (hrest : OnPath g c u) :
      OnPath g t u

/-- The path of the reference `t` leads through the reference `u`. -/
inductive Through (g : FunctionGraph) (t u : TermId) : Prop
  | intro {term : Term} {field : Option FieldId} {c : TermId} (h : g.term t = .ok term)
      (hk : term.kind = .reference field) (hc : term.context = some c) (hrest : OnPath g c u)

/-- The value of the term is an object or an interface, and not an array of these. -/
def CanBeNull (g : FunctionGraph) (t : TermId) : Prop :=
  ∃ term, g.term t = .ok term ∧
    (term.type.category = .object ∨ term.type.category = .interface) ∧ term.type.isArray = false

theorem exists_term (h : t.InRange g) : ∃ term, g.term t = .ok term :=
  ⟨_, term_eq_ok_iff.mpr (Array.getElem?_eq_getElem h)⟩

theorem mem_contexts (h : g.term t = .ok term) (hc : term.context = some c) :
    c ∈ g.contexts t := by
  simp [contexts, h, hc]

theorem contexts_subset_subterms (g : FunctionGraph) (t : TermId) :
    g.contexts t ⊆ g.subterms t := by
  cases h : g.term t <;> simp [contexts, subterms, h]

theorem OnPath.reaches (h : g.OnPath t u) : Reaches g.contexts t u := by
  induction h with
  | start => exact .refl
  | context h _ hc _ ih => exact .head (mem_contexts h hc) ih

theorem Through.transGen (h : g.Through t u) :
    Relation.TransGen (fun x y => y ∈ g.contexts x) t u := by
  obtain ⟨h, -, hc, hrest⟩ := h
  exact .head' (mem_contexts h hc) hrest.reaches

theorem Through.onPath (h : g.Through t u) : g.OnPath t u := by
  obtain ⟨h, hk, hc, hrest⟩ := h
  exact .context h hk hc hrest

/-- What a path leads through comes behind what it starts at. -/
theorem OnPath.trans_through (h : g.OnPath t u) (hu : g.Through u v) : g.Through t v := by
  induction h with
  | start => exact hu
  | context h hk hc _ ih => exact ⟨h, hk, hc, (ih hu).onPath⟩

theorem onPath_iff (h : g.term t = .ok term) (hk : term.kind = .reference field) :
    g.OnPath t u ↔ u = t ∨ g.Through t u := by
  constructor
  · intro hpath
    cases hpath with
    | start => exact .inl rfl
    | context h hk hc hrest => exact .inr ⟨h, hk, hc, hrest⟩
  · rintro (rfl | hu)
    · exact .start h hk
    · exact hu.onPath

theorem through_iff (h : g.term t = .ok term) (hk : term.kind = .reference field)
    (hc : term.context = some c) : g.Through t u ↔ g.OnPath c u := by
  refine ⟨fun ⟨h', _, hc', hrest⟩ => ?_, fun hrest => ⟨h, hk, hc, hrest⟩⟩
  obtain rfl := Except.ok.inj (h.symm.trans h')
  rw [hc] at hc'
  cases hc'
  exact hrest

theorem not_through_of_no_context (h : g.term t = .ok term) (hc : term.context = none) :
    ¬ g.Through t u := by
  rintro ⟨h', -, hc', -⟩
  obtain rfl := Except.ok.inj (h.symm.trans h')
  rw [hc] at hc'
  cases hc'

/-- A path stops at a term that is no reference. -/
theorem not_onPath (h : g.term t = .ok term) (hk : ∀ field, term.kind ≠ .reference field) :
    ¬ g.OnPath t u := by
  rintro (⟨h', hk'⟩ | ⟨h', hk', -, -⟩) <;>
    exact hk _ (Except.ok.inj (h.symm.trans h') ▸ hk')

end FunctionGraph

namespace Lowering

open FunctionGraph

variable {env : Env} {g : FunctionGraph} {r : Renderer} {t u l : TermId} {n : Nat}

/-! ### Which references are checked -/

theorem isNullable_iff {g : FunctionGraph} {t : TermId} {term : Term} (h : g.term t = .ok term) :
    isNullable term.type = true ↔ g.CanBeNull t := by
  simp [isNullable, CanBeNull, h]

theorem guardLinksFrom_none (g : FunctionGraph) (n : Nat) :
    guardLinksFrom g n none = .ok [] := by
  cases n <;> rfl

/-- `links` are the references of `P` that can be null, those that a path meets last first. -/
structure Links (g : FunctionGraph) (P : TermId → Prop) (links : List TermId) : Prop where
  mem_iff : ∀ u, u ∈ links ↔ P u ∧ g.CanBeNull u
  baseFirst : links.Pairwise fun u l => g.Through l u

theorem Links.nil {P : TermId → Prop} (h : ∀ u, ¬ P u) : Links g P [] where
  mem_iff u := by simp [h u]
  baseFirst := .nil

theorem Links.congr {P Q : TermId → Prop} {links : List TermId} (h : Links g P links)
    (hPQ : ∀ u, P u ↔ Q u) : Links g Q links where
  mem_iff u := by rw [h.mem_iff, hPQ]
  baseFirst := h.baseFirst

/-- The reference itself is the last of the links of its path, if it can be null. -/
theorem Links.snoc {base : List TermId} {term : Term} {field : Option FieldId}
    (h : Links g (g.Through t) base) (hterm : g.term t = .ok term)
    (hk : term.kind = .reference field) :
    Links g (g.OnPath t) (if isNullable term.type then base ++ [t] else base) where
  mem_iff u := by
    have hnull := isNullable_iff hterm
    rw [onPath_iff hterm hk]
    split
    · rw [List.mem_append, h.mem_iff, List.mem_singleton]
      grind
    · rw [h.mem_iff]
      grind
  baseFirst := by
    split
    · refine List.pairwise_append.mpr ⟨h.baseFirst, List.pairwise_singleton _ _, ?_⟩
      intro u hu l hl
      rw [List.mem_singleton.mp hl]
      exact ((h.mem_iff u).mp hu).1
    · exact h.baseFirst

/-- **The links of a chain** of at most `n` terms are the references on its path that can be
null. -/
theorem guardLinksFrom_spec (hwithin : Within g.contexts n t)
    (hrange : ∀ u, Reaches g.contexts t u → u.InRange g) :
    ∃ links, guardLinksFrom g n (some t) = .ok links ∧ Links g (g.OnPath t) links := by
  induction n generalizing t with
  | zero => exact hwithin.elim
  | succ n ih =>
      obtain ⟨term, hterm⟩ := exists_term (hrange t .refl)
      rw [guardLinksFrom, Lookup.bind_of_ok hterm]
      cases hk : term.kind with
      | reference field =>
          -- The rest of the path is that of the context.
          have hbase : ∃ base, guardLinksFrom g n term.context = .ok base ∧
              Links g (g.Through t) base := by
            cases hc : term.context with
            | none =>
                exact ⟨[], guardLinksFrom_none g n,
                  .nil fun u => not_through_of_no_context hterm hc⟩
            | some c =>
                have hmem := mem_contexts hterm hc
                obtain ⟨base, hok, hlinks⟩ := ih (hwithin c hmem) fun u hu =>
                  hrange u (.head hmem hu)
                exact ⟨base, hok, hlinks.congr fun u => (through_iff hterm hk hc).symm⟩
          obtain ⟨base, hok, hlinks⟩ := hbase
          exact ⟨_, Lookup.bind_of_ok hok _, hlinks.snoc hterm hk⟩
      | self => exact ⟨[], rfl, .nil fun u => not_onPath hterm (by simp [hk])⟩
      | literal v => exact ⟨[], rfl, .nil fun u => not_onPath hterm (by simp [hk])⟩
      | inline id => exact ⟨[], rfl, .nil fun u => not_onPath hterm (by simp [hk])⟩

/-- What a path leads through and can be null is checked before what the path leads to. -/
theorem Links.mem_before {links before after : List TermId} (h : Links g (g.OnPath t) links)
    (hacyclic : Acyclic g.contexts) (hsplit : links = before ++ l :: after) (hu : g.Through l u)
    (hnull : g.CanBeNull u) : u ∈ before := by
  subst hsplit
  have hl := ((h.mem_iff l).mp (by simp)).1
  have hmem := (h.mem_iff u).mpr ⟨(hl.trans_through hu).onPath, hnull⟩
  rcases List.mem_append.mp hmem with hbefore | hmem
  · exact hbefore
  · rcases List.mem_cons.mp hmem with rfl | hafter
    · exact absurd hu.transGen (hacyclic u)
    · have hback := (List.pairwise_cons.mp (List.pairwise_append.mp h.baseFirst).2.1).1 u hafter
      exact absurd (hu.transGen.trans hback.transGen) (hacyclic l)

theorem Links.nodup {P : TermId → Prop} {links : List TermId} (h : Links g P links)
    (hacyclic : Acyclic g.contexts) : links.Nodup := by
  refine h.baseFirst.imp ?_
  rintro u l hthrough rfl
  exact hacyclic u hthrough.transGen

/-! ### The texts of paths -/

/-- The path of a reference goes on from that of the reference it is read from, behind an arrow if
that one can be null, and renders nothing more. -/
theorem run_referencePath {term context : Term} {field field' : Option FieldId} {c : TermId}
    {s s' : State} {text : String} (hc : term.context = some c)
    (hcontext : env.term c = .ok context) (hk : context.kind = .reference field')
    (h : (referencePath env r term field).run s = (.ok text, s')) :
    ∃ path front back, (r.bare c).run s = (.ok path, s') ∧ text = front ++ path ++ back ∧
      (isNullable context.type = true → ∃ name, back = "->" ++ name) := by
  unfold referencePath at h
  rw [hc] at h
  obtain ⟨name, -, h⟩ := run_liftBind_ok h
  obtain ⟨_, hfound, h⟩ := run_liftBind_ok h
  obtain rfl := Except.ok.inj (hcontext.symm.trans hfound)
  rw [if_neg (by simp [Term.isSelf, hk])] at h
  obtain ⟨path, s₁, hpath, h⟩ := run_bind_ok h
  split at h
  · rename_i hvalue
    obtain ⟨rfl, rfl⟩ := run_pure_ok h
    have hstruct : context.type.category = .struct := (of_decide_eq_true hvalue).1
    exact ⟨path, "", "." ++ name, hpath, by simp [String.append_assoc],
      by simp [isNullable, hstruct]⟩
  · split at h
    · rename_i hclass
      obtain ⟨owner, -, h⟩ := run_liftBind_ok h
      have hnot : isNullable context.type = false := by simp [isNullable, hclass.1]
      cases owner with
      | none =>
          obtain ⟨rfl, rfl⟩ := run_pure_ok h
          exact ⟨path, "", "->" ++ name, hpath, by simp [String.append_assoc], by simp [hnot]⟩
      | some owner =>
          obtain ⟨cls, -, h⟩ := run_liftBind_ok h
          obtain ⟨rfl, rfl⟩ := run_pure_ok h
          exact ⟨path, "GetDefaultValueSafe<" ++ cls ++ ">(", ")->" ++ name, hpath,
            by simp [String.append_assoc], by simp [hnot]⟩
    · obtain ⟨rfl, rfl⟩ := run_pure_ok h
      exact ⟨path, "", "->" ++ name, hpath, by simp [String.append_assoc], fun _ => ⟨name, rfl⟩⟩

/-- The step of `run_referencePath`, for the renderers of a graph. -/
theorem run_bare_of_context {c : TermId} {term context : Term} {field field' : Option FieldId}
    {s s' : State} {text : String} (hterm : env.graph.term t = .ok term)
    (hk : term.kind = .reference field) (hc : term.context = some c)
    (hcontext : env.graph.term c = .ok context) (hk' : context.kind = .reference field')
    (h : ((rendererFrom env n).bare t).run s = (.ok text, s')) :
    ∃ m < n, ∃ path front back, ((rendererFrom env m).bare c).run s = (.ok path, s') ∧
      text = front ++ path ++ back ∧
      (env.graph.CanBeNull c → ∃ name, back = "->" ++ name) := by
  cases n with
  | zero => cases h
  | succ n =>
      obtain ⟨_, hfound, h⟩ := run_liftBind_ok h
      obtain rfl := Except.ok.inj (hterm.symm.trans hfound)
      rw [hk] at h
      obtain ⟨_, _, h, hpure⟩ := run_bind_ok h
      obtain ⟨rfl, rfl⟩ := run_pure_ok hpure
      obtain ⟨path, front, back, hpath, htext, harrow⟩ := run_referencePath hc hcontext hk' h
      exact ⟨n, Nat.lt_succ_self n, path, front, back, hpath, htext, fun hnull =>
        harrow ((isNullable_iff hcontext).mpr hnull)⟩

/-- **The path of a reference is written around that of each reference it leads through**, which is
followed by an arrow if it can be null. -/
theorem run_bare_of_through {s s' : State} {text : String} (hu : env.graph.Through t u)
    (hnull : env.graph.CanBeNull u) (h : ((rendererFrom env n).bare t).run s = (.ok text, s')) :
    ∃ m < n, ∃ path front back, ((rendererFrom env m).bare u).run s = (.ok path, s') ∧
      text = front ++ path ++ "->" ++ back := by
  obtain @⟨term, field, c, hterm, hk, hc, hrest⟩ := hu
  induction hrest generalizing t term field text n with
  | start hcontext hkind =>
      obtain ⟨m, hm, path, front, back, hpath, rfl, harrow⟩ :=
        run_bare_of_context hterm hk hc hcontext hkind h
      obtain ⟨name, rfl⟩ := harrow hnull
      exact ⟨m, hm, path, front, name, hpath, by simp [String.append_assoc]⟩
  | context hcontext hkind hc' _ ih =>
      obtain ⟨m, hm, path, front, back, hpath, rfl, -⟩ :=
        run_bare_of_context hterm hk hc hcontext hkind h
      obtain ⟨m', hm', inner, front', back', hinner, rfl⟩ := ih hnull hpath hcontext hkind hc'
      exact ⟨m', Nat.lt_trans hm' hm, inner, front ++ front', back' ++ back, hinner,
        by simp [String.append_assoc]⟩

/-- Where the path of a reference is settled, so is each that it leads through. -/
theorem settles_of_through {s : State} {text : String} (hu : env.graph.Through t u)
    (hnull : env.graph.CanBeNull u) (h : Settles (env.path t) text s) :
    ∃ path front back, Settles (env.path u) path s ∧ text = front ++ path ++ "->" ++ back := by
  obtain ⟨v, hrun, hv⟩ := h s (le_refl _)
  obtain ⟨m, hm, path, front, back, hpath, htext⟩ := run_bare_of_through hu hnull hrun
  have hsettled := (path_stable env u ((rendererFrom_extends env (Nat.le_of_lt hm)).bare u hpath)).2
  exact ⟨path, front, back, hsettled.mono hv.le, htext⟩

/-! ### The condition -/

/-- The condition that a chain of contexts is checked by; none if there is nothing to check. -/
def guardCondition (env : Env) (r : Renderer) (start : Option TermId) : Lower (Option String) := do
  let checks ← guardChecks env r start
  return if checks.isEmpty then none else some (Code.conjunction checks)

/-- An expression is behind the condition of its context. -/
theorem checkedPath_eq (env : Env) (r : Renderer) (term : Term) (path : String) :
    checkedPath env r term path = do
      match ← guardCondition env r term.context with
      | none => return path
      | some condition =>
        let default ← Literal.defaultText env.cx term.type
        return "((" ++ condition ++ ") ? (" ++ path ++ ") : (" ++ default ++ "))" := by
  simp only [checkedPath, guardCondition, bind_assoc, pure_bind]
  refine bind_congr fun checks => ?_
  split <;> rfl

/-- A store is in a block behind the condition of its context. -/
theorem marksAll_guarded (env : Env) (r : Renderer) (context : Option TermId)
    (body : Lower (List Code)) :
    Code.marksAll <$> guarded env r context body = do
      let condition ← guardCondition env r context
      let code ← body
      return match condition with
        | none => Code.marksAll code
        | some condition => [.line (Code.ifLine condition), .line "\x7b", .indent] ++
            Code.marksAll code ++ [.dedent, .line "\x7d"] := by
  simp only [guarded, guardCondition, map_bind, bind_assoc, pure_bind, map_pure]
  refine bind_congr fun checks => bind_congr fun code => ?_
  split
  · rfl
  · simp [Code.marksAll, Code.marks]

/-- The text checks the reference `l`, whose path is settled: an interface through the object it
wraps. -/
def IsCheck (env : Env) (s : State) (l : TermId) (text : String) : Prop :=
  ∃ term path, env.term l = .ok term ∧ Settles (env.path l) path s ∧
    text = "IsValid(" ++ (if term.type.category = .interface then path ++ ".GetObject()" else path)
      ++ ")"

theorem isCheck_of_run {s s' : State} {text : String}
    (h : (checkText env env.renderer l).run s = (.ok text, s')) : IsCheck env s' l text := by
  obtain ⟨path, s₁, hpath, h⟩ := run_bind_ok h
  obtain ⟨term, hterm, h⟩ := run_liftBind_ok h
  obtain ⟨rfl, rfl⟩ := run_pure_ok h
  refine ⟨term, path, hterm, (path_stable env l hpath).2, ?_⟩
  split <;> simp [String.append_assoc]

theorem IsCheck.mono {s s' : State} {text : String} (h : IsCheck env s l text)
    (hs : s.resumeMap ≤ s'.resumeMap) : IsCheck env s' l text := by
  obtain ⟨term, path, hterm, hpath, htext⟩ := h
  exact ⟨term, path, hterm, hpath.mono hs, htext⟩

theorem checkTexts_stable (env : Env) (links : List TermId) :
    Stable (links.mapM (checkText env env.renderer)) :=
  Parallel.stable (.mapM fun l _ => .bind (.bare l) fun _ _ => .lookUp fun _ => .pure _ _)
    (rendererFrom_stable env _)

/-- Each link of a chain has its check. -/
theorem isCheck_of_run_mapM {links : List TermId} {s s' : State} {checks : List String}
    (h : (links.mapM (checkText env env.renderer)).run s = (.ok checks, s')) :
    List.Forall₂ (IsCheck env s') links checks := by
  induction links generalizing s checks with
  | nil =>
      obtain ⟨rfl, -⟩ := run_pure_ok h
      exact .nil
  | cons l links ih =>
      rw [List.mapM_cons] at h
      obtain ⟨check, s₁, hcheck, h⟩ := run_bind_ok h
      obtain ⟨rest, s₂, hrest, h⟩ := run_bind_ok h
      obtain ⟨rfl, rfl⟩ := run_pure_ok h
      exact .cons ((isCheck_of_run hcheck).mono (checkTexts_stable env links hrest).1) (ih hrest)

theorem run_guardCondition {start : Option TermId} {links : List TermId} {s s' : State}
    {condition : Option String} (hlinks : guardLinks env.graph start = .ok links)
    (hn : n ≤ env.graph.height)
    (h : (guardCondition env (rendererFrom env n) start).run s = (.ok condition, s')) :
    ∃ checks, List.Forall₂ (IsCheck env s') links checks ∧
      condition = if links = [] then none else some (" && ".intercalate checks) := by
  obtain ⟨checks, s₁, hchecks, h⟩ := run_bind_ok h
  obtain ⟨rfl, rfl⟩ := run_pure_ok h
  have hchecks := (rendererFrom_extends env hn).guardChecks start hchecks
  obtain ⟨_, hfound, hchecks⟩ := run_liftBind_ok hchecks
  obtain rfl := Except.ok.inj (hlinks.symm.trans hfound)
  have hforall := isCheck_of_run_mapM hchecks
  refine ⟨checks, hforall, ?_⟩
  cases hforall with
  | nil => rfl
  | cons => rfl

theorem guardCondition_completes {A : Prop} (h : SoundEnv A env) {start : TermId}
    (hstart : start.InRange env.graph) :
    Completes A (guardCondition env env.renderer (some start)) := by
  refine .bind (h.guardChecks (h.rendererFrom _) fun c hc => ?_) fun _ => .pure _
  cases hc
  exact h.renderable hstart

/-- **The condition of a chain checks what can be null on its path, and can itself be evaluated.**
No chain of contexts leads back, and the terms on the one from `start` are there.  The links are the
references on its path that can be null, each once, the base first.  The condition is made of one
check for each in this order, and there is none if there are no links; it stands before every
checked expression and every guarded store.  The path of a check is written around the path of each
reference that it leads through, and each of these that can be null has been checked by then. -/
theorem guard_covers_path {start : TermId} (hacyclic : Acyclic env.graph.contexts)
    (hrange : ∀ u, Reaches env.graph.contexts start u → u.InRange env.graph) :
    ∃ links, guardLinks env.graph (some start) = .ok links ∧
      (∀ u, u ∈ links ↔ env.graph.OnPath start u ∧ env.graph.CanBeNull u) ∧ links.Nodup ∧
      links.Pairwise (fun u l => env.graph.Through l u) ∧
      (∀ n ≤ env.graph.height, ∀ s condition t,
        (guardCondition env (rendererFrom env n) (some start)).run s = (.ok condition, t) →
        ∃ checks, List.Forall₂ (IsCheck env t) links checks ∧
          condition = if links = [] then none else some (" && ".intercalate checks)) ∧
      (SoundEnv True env → ∀ s, ∃ condition t,
        (guardCondition env env.renderer (some start)).run s = (.ok condition, t)) ∧
      (∀ r term path, term.context = some start → checkedPath env r term path = do
        match ← guardCondition env r (some start) with
        | none => return path
        | some condition =>
          let default ← Literal.defaultText env.cx term.type
          return "((" ++ condition ++ ") ? (" ++ path ++ ") : (" ++ default ++ "))") ∧
      (∀ r body, Code.marksAll <$> guarded env r (some start) body = do
        let condition ← guardCondition env r (some start)
        let code ← body
        return match condition with
          | none => Code.marksAll code
          | some condition => [.line (Code.ifLine condition), .line "\x7b", .indent] ++
              Code.marksAll code ++ [.dedent, .line "\x7d"]) ∧
      ∀ before l after, links = before ++ l :: after →
        ∀ u, env.graph.Through l u → env.graph.CanBeNull u → u ∈ before ∧
          ∀ t path, Settles (env.path l) path t → ∃ inner front back,
            Settles (env.path u) inner t ∧ path = front ++ inner ++ "->" ++ back := by
  have hwithin : Within env.graph.contexts env.graph.height start :=
    (hacyclic.within_of_reaches SoundEnv.termIndex_injective hrange).succ
  obtain ⟨links, hok, hlinks⟩ := guardLinksFrom_spec hwithin hrange
  refine ⟨links, hok, hlinks.mem_iff, hlinks.nodup hacyclic, hlinks.baseFirst,
    fun n hn s condition t hrun => run_guardCondition hok hn hrun, fun hsound s => ?_,
    fun r term path hc => hc ▸ checkedPath_eq env r term path,
    fun r body => marksAll_guarded env r _ body,
    fun before l after hsplit u hu hnull => ⟨hlinks.mem_before hacyclic hsplit hu hnull,
      fun t path hpath => settles_of_through hu hnull hpath⟩⟩
  obtain ⟨condition, hcondition, -⟩ :=
    (guardCondition_completes hsound (hrange start .refl) s).exists_ok trivial
  exact ⟨condition, _, Prod.ext hcondition rfl⟩

/-! ### The item of a target's body -/

/-- A class with a reference to another instance, and a struct that holds an interface. -/
def bodyContext : Context :=
  ((World.build [.addClass "Hero" none, .addInterface "Usable", .addStruct "Body",
    .addField ⟨0⟩ "Target" (.object ⟨0⟩), .addField ⟨0⟩ "Body" (.struct ⟨2⟩),
    .addField ⟨2⟩ "Item" (.interface ⟨1⟩), .addFunction ⟨0⟩ "Tick"]).toOption.getD {}).context ⟨0⟩

/-- The instance itself, its target, the body of that, and the item in it. -/
def bodyGraph : FunctionGraph :=
  { name := "Tick"
    function := ⟨0⟩
    terms := #[{ kind := .self, type := .self ⟨0⟩ },
      { kind := .reference (some ⟨0⟩), type := .object ⟨0⟩, context := some ⟨0⟩ },
      { kind := .reference (some ⟨1⟩), type := .struct ⟨2⟩, context := some ⟨1⟩ },
      { kind := .reference (some ⟨2⟩), type := .interface ⟨1⟩, context := some ⟨2⟩ }] }

def bodyEnv : Env := ⟨bodyContext, bodyGraph⟩

/-- The target is checked before the item that is reached through it; the body in between is not. -/
theorem guard_covers_path_item :
    Acyclic bodyEnv.graph.contexts ∧
    (∀ u, Reaches bodyEnv.graph.contexts ⟨3⟩ u → u.InRange bodyEnv.graph) ∧
    SoundEnv True bodyEnv ∧ bodyEnv.graph.Through ⟨3⟩ ⟨1⟩ ∧
    guardLinks bodyEnv.graph (some ⟨3⟩) = .ok [⟨1⟩, ⟨3⟩] ∧
    ((guardCondition bodyEnv bodyEnv.renderer (some ⟨3⟩)).run { sink := {} }).1 =
      .ok (some "IsValid(Target) && IsValid(Target->Body.Item.GetObject())") ∧
    (∀ s, ∃ checks t, List.Forall₂ (IsCheck bodyEnv t) [⟨1⟩, ⟨3⟩] checks ∧
      (guardCondition bodyEnv bodyEnv.renderer (some ⟨3⟩)).run s =
        (.ok (some (" && ".intercalate checks)), t)) ∧
    ∀ before l after, [⟨1⟩, ⟨3⟩] = before ++ l :: after →
      bodyEnv.graph.Through l ⟨1⟩ → (⟨1⟩ : TermId) ∈ before := by
  have hsubterms : Acyclic bodyEnv.graph.subterms :=
    acyclic_subterms (n := 4) (by decide +kernel)
  have hparents : Acyclic bodyContext.schema.parents :=
    Schema.acyclic_parents (n := 3) (by decide +kernel)
  have hsound : SoundEnv True bodyEnv :=
    { context :=
        { schema := by decide +kernel
          objects := by decide +kernel
          unit := by decide +kernel
          owners := fun _ => ObjectStore.acyclic_owners (n := 0) (by decide +kernel)
          supers := fun _ => hparents.mono bodyContext.schema.supers_subset_parents
          parts := fun _ => Schema.acyclic_parts (n := 3) (by decide +kernel)
          parents := fun _ => hparents
          functionsOwned := fun _ => by decide +kernel }
      graph := by decide +kernel
      subterms := fun _ => hsubterms }
  have hacyclic : Acyclic bodyEnv.graph.contexts :=
    hsubterms.mono bodyEnv.graph.contexts_subset_subterms
  have hrange : ∀ u, Reaches bodyEnv.graph.contexts ⟨3⟩ u → u.InRange bodyEnv.graph := by
    intro u hu
    rcases hu.cases_tail with rfl | ⟨v, -, hstep⟩
    · decide
    · exact hsound.subterms_inRange (contexts_subset_subterms _ _ hstep)
  have hthrough : bodyEnv.graph.Through ⟨3⟩ ⟨1⟩ :=
    ⟨rfl, rfl, rfl, .context rfl rfl rfl (.start rfl rfl)⟩
  have hnull : bodyEnv.graph.CanBeNull ⟨1⟩ := ⟨_, rfl, .inl rfl, rfl⟩
  obtain ⟨links, hok, -, -, -, hcondition, hgiven, -, -, hbefore⟩ :=
    guard_covers_path hacyclic hrange
  obtain rfl : [⟨1⟩, ⟨3⟩] = links := Except.ok.inj hok
  refine ⟨hacyclic, hrange, hsound, hthrough, hok, rfl, fun s => ?_, fun before l after hsplit hl =>
    (hbefore before l after hsplit ⟨1⟩ hl hnull).1⟩
  obtain ⟨condition, t, hrun⟩ := hgiven hsound s
  obtain ⟨checks, hchecks, rfl⟩ := hcondition _ (Nat.le_refl _) s condition t hrun
  exact ⟨checks, t, hchecks, hrun⟩

end Lowering
end GraphLowering
