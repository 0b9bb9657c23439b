import GraphLowering.Literal

/-!
# Literals — the one problem

Rendering a value finds one problem at most, that the value has no literal form
(`Literal.render_problem`).  A unit is usable all the same: the default of the type stands in.
-/

namespace GraphLowering.Literal

variable {α β : Type} {cx : Context}

/-- The only problem that rendering finds is a value without a literal form. -/
def FindsUnrenderable (x : Render α) : Prop :=
  ∀ p, x.run = .ok (.error p) → ∃ type, p = .unrenderableLiteral type

namespace FindsUnrenderable

theorem pure (a : α) : FindsUnrenderable (Pure.pure a : Render α) := by
  intro p h
  cases h

theorem bind {x : Render α} {f : α → Render β} (hx : FindsUnrenderable x)
    (hf : ∀ a, FindsUnrenderable (f a)) : FindsUnrenderable (x >>= f) := by
  intro p h
  rw [ExceptT.run_bind] at h
  cases hr : x.run with
  | error e => rw [hr] at h; cases h
  | ok result =>
      rw [hr] at h
      cases result with
      | error q => cases h; exact hx p hr
      | ok a => exact hf a p h

theorem liftBind {e : Except Fault α} {f : α → Render β} (hf : ∀ a, FindsUnrenderable (f a)) :
    FindsUnrenderable (liftM e >>= f) := by
  intro p h
  cases e with
  | error e => cases h
  | ok a => exact hf a p h

theorem mapM {xs : List α} {f : α → Render β} (hf : ∀ a, FindsUnrenderable (f a)) :
    FindsUnrenderable (xs.mapM f) := by
  induction xs with
  | nil => exact .pure _
  | cons x xs ih =>
      rw [List.mapM_cons]
      exact .bind (hf x) fun _ => .bind ih fun _ => .pure _

end FindsUnrenderable

theorem unrenderable_finds (t : ValueType) :
    FindsUnrenderable (unrenderable cx t : Render α) := by
  refine .liftBind fun name p h => ?_
  cases h
  exact ⟨name, rfl⟩

theorem renderStruct_finds (v : StructValue) : FindsUnrenderable (renderStruct cx v) := by
  refine .liftBind fun decl => ?_
  split
  · split
    · exact .pure _
    · exact unrenderable_finds _
  · refine .liftBind fun default => ?_
    split
    · exact .liftBind fun _ => .pure _
    · exact unrenderable_finds _

theorem renderByte_finds (t : ValueType) (n : UInt8) : FindsUnrenderable (renderByte cx t n) := by
  unfold renderByte
  split
  · exact .pure _
  · refine .liftBind fun decl => ?_
    split
    · refine .liftBind fun entry => ?_
      split
      · exact .liftBind fun _ => .pure _
      · exact unrenderable_finds t
    · exact .pure _

theorem renderElement_finds (t : ValueType) (v : Value) :
    FindsUnrenderable (renderElement cx t v) := by
  unfold renderElement
  split
  case h_4 => exact renderByte_finds t _
  case h_8 => exact renderStruct_finds _
  case h_10 => exact .liftBind fun _ => .pure _
  case h_12 => exact .liftBind fun _ => .liftBind fun _ => .liftBind fun _ => .pure _
  case h_15 => exact .liftBind fun _ => .pure _
  case h_17 => exact .liftBind fun _ => .pure _
  case h_18 => exact unrenderable_finds t
  all_goals exact .pure _

/-- **A value that cannot be rendered has no literal form**, and nothing else is wrong with it. -/
theorem render_problem {t : ValueType} {v : Value} {p : Problem}
    (h : (render cx t v).run = .ok (.error p)) : ∃ type, p = .unrenderableLiteral type := by
  revert p
  change FindsUnrenderable (render cx t v)
  unfold render
  split
  · exact .pure _
  · split
    · split
      · exact .liftBind fun _ => .pure _
      · exact .bind (.mapM fun _ => renderElement_finds _ _) fun _ => .liftBind fun _ => .pure _
      · exact unrenderable_finds t
    · exact renderElement_finds t v

theorem render_severity {t : ValueType} {v : Value} {p : Problem}
    (h : (render cx t v).run = .ok (.error p)) : p.severity ≠ .fatal := by
  obtain ⟨type, rfl⟩ := render_problem h
  simp [Problem.severity]

end GraphLowering.Literal
