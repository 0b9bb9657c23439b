import GraphLowering.Proofs.Lowering.Runs

/-!
# Lowering — renderings side by side

An expression is put together from the texts of its terms.  How it is put together depends on the
graph and the schema only, not on the texts and not on the state; these have a say in the quiet
parts at most, which leave no trace but reports.

* `Quiet`: a step of this sort.
* `Parallel r r'`: two steps that are put together alike, from the terms that `r` and `r'` render.
* `valueText_parallel`, `referenceText_parallel`: the expressions of a graph, by two renderers.
-/

namespace GraphLowering.Lowering

variable {α β : Type} {env : Env} {r r' : Renderer}

/-! ### Quiet steps -/

/-- The step ends the same in every state, and at most reports something. -/
def Quiet (x : Lower α) : Prop := ∃ result, ∀ s, ∃ sink, x.run s = (result, { s with sink })

namespace Quiet

variable {x y : Lower α} {f : α → Lower β}

theorem pure (a : α) : Quiet (Pure.pure a : Lower α) := ⟨.ok a, fun s => ⟨s.sink, rfl⟩⟩

theorem lift (e : Except Fault α) : Quiet (liftM e : Lower α) := ⟨e, fun s => ⟨s.sink, rfl⟩⟩

theorem report (p : Problem) : Quiet (report p) := ⟨.ok (), fun s => ⟨s.sink.report p, rfl⟩⟩

theorem bind (hx : Quiet x) (hf : ∀ a, Quiet (f a)) : Quiet (x >>= f) := by
  obtain ⟨result, hx⟩ := hx
  cases result with
  | error e =>
      refine ⟨.error e, fun s => ?_⟩
      obtain ⟨sink, hsink⟩ := hx s
      exact ⟨sink, by rw [run_bind, hsink]⟩
  | ok a =>
      obtain ⟨result, hf⟩ := hf a
      refine ⟨result, fun s => ?_⟩
      obtain ⟨sink, hsink⟩ := hx s
      obtain ⟨sink', hsink'⟩ := hf { s with sink }
      refine ⟨sink', ?_⟩
      rw [run_bind, hsink]
      exact hsink'

theorem ite {c : Prop} [Decidable c] (hx : Quiet x) (hy : Quiet y) :
    Quiet (if c then x else y) := by
  split
  · exact hx
  · exact hy

end Quiet

/-! ### Steps side by side -/

/-- Two steps put together alike: the terms that the one takes from `r` the other takes from `r'`,
in the same order. -/
inductive Parallel (r r' : Renderer) : {α : Type} → Lower α → Lower α → Prop
  | quiet {α : Type} {x y : Lower α} (hx : Quiet x) (hy : Quiet y) : Parallel r r' x y
  | guarded (t : TermId) : Parallel r r' (r.guarded t) (r'.guarded t)
  | bare (t : TermId) : Parallel r r' (r.bare t) (r'.bare t)
  | resume (label : StmtId) : Parallel r r' (resumeState label) (resumeState label)
  | call (c c' : LoweredCall) : Parallel r r' (recordCall c) (recordCall c')
  /-- What is looked up is the same on both sides. -/
  | lookUp {α β : Type} {e : Except Fault α} {f g : α → Lower β}
      (h : ∀ a, Parallel r r' (f a) (g a)) :
      Parallel r r' ((liftM e : Lower α) >>= f) ((liftM e : Lower α) >>= g)
  /-- What is rendered may differ, and makes no difference. -/
  | bind {α β : Type} {x y : Lower α} {f g : α → Lower β} (hx : Parallel r r' x y)
      (h : ∀ a b, Parallel r r' (f a) (g b)) : Parallel r r' (x >>= f) (y >>= g)

namespace Parallel

variable {x y : Lower α} {f g : α → Lower β}

theorem pure (a b : α) : Parallel r r' (Pure.pure a) (Pure.pure b) := .quiet (.pure a) (.pure b)

theorem ite {c : Prop} [Decidable c] {x' y' : Lower α} (h : Parallel r r' x y)
    (h' : Parallel r r' x' y') :
    Parallel r r' (if c then x else x') (if c then y else y') := by
  by_cases hc : c
  · rw [if_pos hc, if_pos hc]
    exact h
  · rw [if_neg hc, if_neg hc]
    exact h'

theorem mapM {xs : List α} (h : ∀ a ∈ xs, Parallel r r' (f a) (g a)) :
    Parallel r r' (xs.mapM f) (xs.mapM g) := by
  induction xs with
  | nil => exact .pure _ _
  | cons a xs ih =>
      rw [List.mapM_cons, List.mapM_cons]
      exact .bind (h a List.mem_cons_self) fun _ _ =>
        .bind (ih fun b hb => h b (List.mem_cons_of_mem _ hb)) fun _ _ => .pure _ _

end Parallel

/-! ### Access paths -/

theorem literalText_quiet (t : ValueType) (v : Value) : Quiet (literalText env t v) := by
  refine .bind (.lift _) fun result => ?_
  cases result with
  | ok text => exact .pure _
  | error problem => exact .bind (.report _) fun _ => .lift _

theorem referencePath_parallel (term : Term) (field : Option FieldId) :
    Parallel r r' (referencePath env r term field) (referencePath env r' term field) := by
  refine .lookUp fun name => ?_
  cases term.context with
  | none => exact .pure _ _
  | some c =>
      refine .lookUp fun context => .ite (.pure _ _) (.bind (.bare c) fun path path' => ?_)
      refine .ite (.pure _ _) (.ite (.lookUp fun owner => ?_) (.pure _ _))
      cases owner with
      | none => exact .pure _ _
      | some owner => exact .lookUp fun _ => .pure _ _

/-! ### Calls -/

theorem latentInfoText_parallel (arg : TermId) (state state' : Int) :
    Parallel r r' (latentInfoText env r arg state) (latentInfoText env r' arg state') := by
  refine .lookUp fun term => ?_
  split
  · exact .quiet (.bind (.lift _) fun _ => literalText_quiet _ _)
      (.bind (.lift _) fun _ => literalText_quiet _ _)
  · exact .guarded arg

theorem argumentText_parallel (resume : Option StmtId) (param : FieldDecl) (arg : TermId) :
    Parallel r r' (argumentText env r resume param arg) (argumentText env r' resume param arg) := by
  cases resume with
  | some label =>
      exact .bind (.resume label) fun state state' => .lookUp fun isLatent =>
        .ite (latentInfoText_parallel arg state state') (.pure _ _)
  | none =>
      exact .ite (.bind (.bare arg) fun _ _ => .pure _ _)
        (.lookUp fun _ => .lookUp fun _ => .bind (.guarded arg) fun _ _ => .pure _ _)

theorem argumentTexts_parallel (stmt : Statement) (i : Nat) (args : List (FieldDecl × TermId)) :
    Parallel r r' (argumentTexts env r stmt i args) (argumentTexts env r' stmt i args) := by
  induction args generalizing i with
  | nil => exact .pure _ _
  | cons a args ih =>
      exact .bind (argumentText_parallel _ a.1 a.2) fun _ _ => .bind (ih (i + 1)) fun _ _ =>
        .pure _ _

theorem callArguments_parallel (stmt : Statement) (f : FunctionId) :
    Parallel r r' (callArguments env r stmt f) (callArguments env r' stmt f) :=
  .lookUp fun _ => .bind (argumentTexts_parallel stmt 0 _) fun _ _ => .bind (.call _ _) fun _ _ =>
    .pure _ _

theorem reported_parallel (p : Problem) (text : String) :
    Parallel r r' (do report p; return text) (do report p; return text) :=
  .quiet (.bind (.report p) fun _ => .pure _) (.bind (.report p) fun _ => .pure _)

theorem callText_parallel (stmt : Statement) :
    Parallel r r' (callText env r stmt) (callText env r' stmt) := by
  unfold callText
  cases stmt.function with
  | none => exact reported_parallel _ _
  | some f =>
      refine .lookUp fun decl => .bind (callArguments_parallel stmt f) fun args args' => ?_
      dsimp only
      refine .ite (.lookUp fun _ => .pure _ _) (.ite ?_ ?_)
      · exact .ite (.bind (.pure _ _) fun _ _ => .pure _ _) (.lookUp fun _ => .pure _ _)
      · refine .lookUp fun target => .lookUp fun owner => ?_
        cases target with
        | none => exact .ite (.bind (.pure _ _) fun _ _ => .lookUp fun _ => .pure _ _) (.pure _ _)
        | some c =>
            exact .ite (.bind (.bare c) fun _ _ => .bind (.pure _ _) fun _ _ => .lookUp fun _ =>
              .pure _ _) (.bind (.bare c) fun _ _ => .pure _ _)

/-! ### Values of statements -/

theorem switchText_parallel (stmt : Statement) :
    Parallel r r' (switchText env r stmt) (switchText env r' stmt) := by
  unfold switchText
  split
  · refine .lookUp fun _ => .lookUp fun _ => .lookUp fun _ => .lookUp fun _ =>
      .bind (.guarded _) fun _ _ => .bind (.guarded _) fun _ _ =>
        .bind (.mapM fun p _ => ?_) fun _ _ => .pure _ _
    exact .bind (.guarded p.1) fun _ _ => .bind (.guarded p.2) fun _ _ => .pure _ _
  · exact reported_parallel _ _

theorem valueText_parallel (stmt : Statement) :
    Parallel r r' (valueText env r stmt) (valueText env r' stmt) := by
  unfold valueText
  split
  · exact switchText_parallel stmt
  · exact callText_parallel stmt
  · exact reported_parallel _ _

/-! ### References -/

theorem guardChecks_parallel (start : Option TermId) :
    Parallel r r' (guardChecks env r start) (guardChecks env r' start) :=
  .lookUp fun _ => .mapM fun t _ => .bind (.bare t) fun _ _ => .lookUp fun _ => .pure _ _

theorem checkedPath_parallel (term : Term) (path path' : String) :
    Parallel r r' (checkedPath env r term path) (checkedPath env r' term path') := by
  refine .bind (guardChecks_parallel term.context) fun checks checks' => .quiet ?_ ?_
  · exact .ite (.pure _) (.bind (.lift _) fun _ => .pure _)
  · exact .ite (.pure _) (.bind (.lift _) fun _ => .pure _)

/-- The expression of a reference, with or without its checks. -/
theorem referenceText_parallel (checked : Bool) (term : Term) (field : Option FieldId) :
    Parallel r r'
      (do
        let path ← referencePath env r term field
        if checked then checkedPath env r term path else return path)
      (do
        let path ← referencePath env r' term field
        if checked then checkedPath env r' term path else return path) :=
  .bind (referencePath_parallel term field) fun path path' =>
    .ite (checkedPath_parallel term path path') (.pure _ _)

end GraphLowering.Lowering
