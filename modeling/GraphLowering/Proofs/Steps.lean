import GraphLowering.Fault

/-!
# Steps with state

How a step ends that can fail and has a state, by how it is put together.
-/

namespace GraphLowering

/-- A step that can fail and has a state, which it keeps when it fails. -/
abbrev Step (σ : Type) := ExceptT Fault (StateM σ)

variable {σ α β : Type}

theorem run_pure (a : α) (s : σ) : (pure a : Step σ α).run s = (.ok a, s) := rfl

theorem run_lift (e : Except Fault α) (s : σ) : (liftM e : Step σ α).run s = (e, s) := rfl

theorem run_bind (x : Step σ α) (f : α → Step σ β) (s : σ) :
    (x >>= f).run s = match x.run s with
      | (.ok a, t) => (f a).run t
      | (.error e, t) => (.error e, t) := by
  change (ExceptT.bindCont f (x.run s).1).run (x.run s).2 = _
  generalize x.run s = r
  obtain ⟨a | a, t⟩ := r <;> rfl

/-- A run of two steps in turn that succeeds is a run of each. -/
theorem run_bind_ok {x : Step σ α} {f : α → Step σ β} {s u : σ} {b : β}
    (h : (x >>= f).run s = (.ok b, u)) :
    ∃ a t, x.run s = (.ok a, t) ∧ (f a).run t = (.ok b, u) := by
  rw [run_bind] at h
  split at h
  · exact ⟨_, _, by assumption, h⟩
  · cases h

theorem run_lift_ok {e : Except Fault α} {s t : σ} {a : α}
    (h : (liftM e : Step σ α).run s = (.ok a, t)) : e = .ok a ∧ t = s := by
  rw [run_lift] at h
  cases h
  exact ⟨rfl, rfl⟩

/-- A look-up before a run that succeeds found something. -/
theorem run_liftBind_ok {e : Except Fault α} {f : α → Step σ β} {s t : σ} {b : β}
    (h : ((liftM e : Step σ α) >>= f).run s = (.ok b, t)) :
    ∃ a, e = .ok a ∧ (f a).run s = (.ok b, t) := by
  obtain ⟨a, u, ha, hf⟩ := run_bind_ok h
  obtain ⟨he, hu⟩ := run_lift_ok ha
  exact ⟨a, he, hu ▸ hf⟩

/-- After a look-up that found something, the rest goes on from there. -/
theorem liftBind_ok (a : α) (f : α → Step σ β) :
    ((liftM (Except.ok a : Except Fault α) : Step σ α) >>= f) = f a := rfl

theorem run_map (f : α → β) (x : Step σ α) (s : σ) :
    (f <$> x).run s = ((x.run s).1.map f, (x.run s).2) := by
  rw [← bind_pure_comp, run_bind]
  generalize x.run s = r
  obtain ⟨a | a, t⟩ := r <;> rfl

theorem run_pure_ok {a b : α} {s t : σ} (h : (pure a : Step σ α).run s = (.ok b, t)) :
    b = a ∧ t = s := by
  rw [run_pure] at h
  cases h
  exact ⟨rfl, rfl⟩

/-- A run that succeeds ends with the result that it gives. -/
theorem run_of_isOk [Inhabited α] {x : Step σ α} {s : σ} (h : (x.run s).1.isOk = true) :
    x.run s = (.ok ((x.run s).1.toOption.getD default), (x.run s).2) := by
  generalize x.run s = r at h ⊢
  obtain ⟨e | a, t⟩ := r
  · cases h
  · rfl

end GraphLowering
