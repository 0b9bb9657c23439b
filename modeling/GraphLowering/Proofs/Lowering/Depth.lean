import GraphLowering.Proofs.Lowering.Runs

/-!
# Lowering — the depth of renderers

A renderer renders what is nested up to a depth, and gives up on what lies deeper.  The depth has no
say in the texts: a deeper renderer gives the same text for whatever a shallower one has a text for.

* `Extends x y`: whatever `x` gives, `y` gives.
* `rendererFrom_extends`: a deeper renderer extends a shallower one.
-/

namespace GraphLowering.Lowering

variable {α β : Type} {env : Env} {r r' : Renderer}

/-- Every run of `x` that succeeds is a run of `y`. -/
def Extends (x y : Lower α) : Prop := ∀ ⦃s a t⦄, x.run s = (.ok a, t) → y.run s = (.ok a, t)

namespace Extends

variable {x y : Lower α} {f g : α → Lower β}

theorem refl (x : Lower α) : Extends x x := fun _ _ _ h => h

theorem throw (e : Fault) : Extends (MonadExcept.throw e : Lower α) y := by
  intro s a t h
  cases h

theorem bind (hx : Extends x y) (hf : ∀ a, Extends (f a) (g a)) : Extends (x >>= f) (y >>= g) := by
  intro s b t h
  obtain ⟨a, u, hxs, hfs⟩ := run_bind_ok h
  rw [run_bind, hx hxs]
  exact hf a hfs

/-- The same first step. -/
theorem after (x : Lower α) (hf : ∀ a, Extends (f a) (g a)) : Extends (x >>= f) (x >>= g) :=
  (refl x).bind hf

/-- The same last step. -/
theorem before (hx : Extends x y) (f : α → Lower β) : Extends (x >>= f) (y >>= f) :=
  hx.bind fun a => refl (f a)

theorem ite {c : Prop} [Decidable c] {x' y' : Lower α} (h : Extends x y) (h' : Extends x' y') :
    Extends (if c then x else x') (if c then y else y') := by
  split
  · exact h
  · exact h'

theorem mapM {xs : List α} (h : ∀ a ∈ xs, Extends (f a) (g a)) :
    Extends (xs.mapM f) (xs.mapM g) := by
  induction xs with
  | nil => exact refl _
  | cons a xs ih =>
      rw [List.mapM_cons, List.mapM_cons]
      exact (h a List.mem_cons_self).bind fun _ =>
        (ih fun b hb => h b (List.mem_cons_of_mem _ hb)).before _

end Extends

/-- Whatever `r` renders, `r'` renders. -/
structure Renderer.Extends (r r' : Renderer) : Prop where
  guarded : ∀ t, Lowering.Extends (r.guarded t) (r'.guarded t)
  bare : ∀ t, Lowering.Extends (r.bare t) (r'.bare t)

namespace Renderer.Extends

/-! ### Access paths -/

theorem referencePath (hr : r.Extends r') (term : Term) (field : Option FieldId) :
    Lowering.Extends (referencePath env r term field) (referencePath env r' term field) := by
  refine .after _ fun name => ?_
  cases term.context with
  | none => exact .refl _
  | some c => exact .after _ fun context => .ite (.refl _) ((hr.bare c).before _)

theorem guardChecks (hr : r.Extends r') (start : Option TermId) :
    Lowering.Extends (guardChecks env r start) (guardChecks env r' start) :=
  .after _ fun _ => .mapM fun l _ => (hr.bare l).before _

/-! ### Calls -/

theorem latentInfoText (hr : r.Extends r') (arg : TermId) (state : Int) :
    Lowering.Extends (latentInfoText env r arg state) (latentInfoText env r' arg state) := by
  refine .after _ fun term => ?_
  split
  · exact .refl _
  · exact hr.guarded arg

theorem argumentText (hr : r.Extends r') (resume : Option StmtId) (param : FieldDecl)
    (arg : TermId) :
    Lowering.Extends (argumentText env r resume param arg)
      (argumentText env r' resume param arg) := by
  cases resume with
  | some label =>
      exact .after _ fun state => .after _ fun _ => .ite (hr.latentInfoText arg state) (.refl _)
  | none =>
      exact .ite ((hr.bare arg).before _) (.after _ fun _ => .after _ fun _ =>
        (hr.guarded arg).before _)

theorem argumentTexts (hr : r.Extends r') (stmt : Statement) (i : Nat)
    (args : List (FieldDecl × TermId)) :
    Lowering.Extends (argumentTexts env r stmt i args) (argumentTexts env r' stmt i args) := by
  induction args generalizing i with
  | nil => exact .refl _
  | cons a args ih => exact (hr.argumentText _ a.1 a.2).bind fun _ => (ih (i + 1)).before _

theorem callText (hr : r.Extends r') (stmt : Statement) :
    Lowering.Extends (callText env r stmt) (callText env r' stmt) := by
  unfold Lowering.callText
  cases stmt.function with
  | none => exact .refl _
  | some f =>
      have hargs : Lowering.Extends (callArguments env r stmt f) (callArguments env r' stmt f) :=
        .after _ fun params => (hr.argumentTexts stmt 0 _).before _
      refine .after _ fun decl => hargs.bind fun args => .ite (.refl _) (.ite (.refl _) ?_)
      refine .after _ fun target => .after _ fun owner => ?_
      cases target with
      | none => exact .refl _
      | some c => exact .ite ((hr.bare c).before _) ((hr.bare c).before _)

/-! ### Values of statements -/

theorem switchText (hr : r.Extends r') (stmt : Statement) :
    Lowering.Extends (switchText env r stmt) (switchText env r' stmt) := by
  unfold Lowering.switchText
  split
  · refine .after _ fun _ => .after _ fun _ => .after _ fun _ => .after _ fun _ =>
      (hr.guarded _).bind fun _ => (hr.guarded _).bind fun _ => .before (.mapM fun p _ => ?_) _
    exact (hr.guarded p.1).bind fun _ => (hr.guarded p.2).before _
  · exact .refl _

theorem inlineText (hr : r.Extends r') (id : StmtId) :
    Lowering.Extends (inlineText env r id) (inlineText env r' id) := by
  refine .after _ fun stmt => .after _ fun _ => ?_
  unfold valueText
  split
  · exact hr.switchText stmt
  · exact hr.callText stmt
  · exact .refl _

theorem termText (hr : r.Extends r') (checked : Bool) (t : TermId) :
    Lowering.Extends (termText env r checked t) (termText env r' checked t) := by
  refine .after _ fun term => ?_
  split
  · exact .refl _
  · exact .refl _
  · exact hr.inlineText _
  · exact (hr.referencePath term _).bind fun path =>
      .ite ((hr.guardChecks term.context).before _) (.refl _)

end Renderer.Extends

/-- **A deeper renderer renders the same.** -/
theorem rendererFrom_extends (env : Env) {n m : Nat} (h : n ≤ m) :
    (rendererFrom env n).Extends (rendererFrom env m) := by
  induction n generalizing m with
  | zero => exact ⟨fun _ => .throw _, fun _ => .throw _⟩
  | succ n ih =>
      obtain ⟨m, rfl⟩ := Nat.exists_eq_add_of_le' (Nat.one_le_of_lt h)
      have hr := ih (Nat.le_of_succ_le_succ h)
      exact ⟨hr.termText true, hr.termText false⟩

end GraphLowering.Lowering
