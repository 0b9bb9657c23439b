import GraphLowering.Lowering.Function
import GraphLowering.Proofs.Steps

/-!
# Lowering — runs

Relations between states that a step of lowering respects: from related states it ends alike, and
in related states.  The steps that touch the state are few (`report`,
`localState`, `resumeState`, `recordCall`, `recordInline`, `atStatement`); everything else is put
together from them, and respects whatever they do.

* `Respects.bind`, `Respects.liftBind`, `Respects.mapM`: how steps are put together.
* `Respects.keeps`: a relation from one state on, read off a relation between two runs.
-/

namespace GraphLowering.Lowering

variable {α β : Type} {R : State → State → Prop}

/-! ### The steps that touch the state -/

theorem run_recordCall (c : LoweredCall) (s : State) :
    (recordCall c).run s = (.ok (), { s with calls := s.calls ++ [c] }) := rfl

theorem run_localState (target : StmtId) (s : State) : (localState target).run s =
    (.ok (s.states.stateOf target).1, { s with states := (s.states.stateOf target).2 }) := rfl

theorem run_resumeState_none {s : State} (h : s.resumeStates = none) (label : StmtId) :
    (resumeState label).run s = (localState label).run s := by
  cases s
  cases h
  rfl

theorem run_resumeState_some {s : State} {m : StateMap} (h : s.resumeStates = some m)
    (label : StmtId) : (resumeState label).run s =
      (.ok (m.stateOf label).1, { s with resumeStates := some (m.stateOf label).2 }) := by
  cases s
  cases h
  rfl

/-! ### Respected relations -/

/-- From related states `x` ends alike, and in related states. -/
def Respects (R : State → State → Prop) (x : Lower α) : Prop :=
  ∀ ⦃s t : State⦄, R s t → (x.run s).1 = (x.run t).1 ∧ R (x.run s).2 (x.run t).2

namespace Respects

theorem pure (a : α) : Respects R (pure a : Lower α) := fun _ _ h => ⟨rfl, h⟩

theorem lift (e : Except Fault α) : Respects R (liftM e : Lower α) := fun _ _ h => ⟨rfl, h⟩

theorem throw (e : Fault) : Respects R (throw e : Lower α) := fun _ _ h => ⟨rfl, h⟩

theorem bind {x : Lower α} {f : α → Lower β} (hx : Respects R x) (hf : ∀ a, Respects R (f a)) :
    Respects R (x >>= f) := by
  intro s t h
  obtain ⟨he, hr⟩ := hx h
  rw [run_bind, run_bind]
  generalize x.run s = p at he hr ⊢
  generalize x.run t = q at he hr ⊢
  obtain ⟨a | a, s'⟩ := p <;> obtain ⟨b | b, t'⟩ := q <;> cases he
  · exact ⟨rfl, hr⟩
  · exact hf a hr

/-- After a look-up, what it found is at hand. -/
theorem liftBind {e : Except Fault α} {f : α → Lower β}
    (hf : ∀ a, e = .ok a → Respects R (f a)) : Respects R ((liftM e : Lower α) >>= f) := by
  intro s t h
  rw [run_bind, run_bind, run_lift, run_lift]
  cases e with
  | error e => exact ⟨rfl, h⟩
  | ok a => exact hf a rfl h

theorem mapM {xs : List α} {f : α → Lower β} (hf : ∀ a ∈ xs, Respects R (f a)) :
    Respects R (xs.mapM f) := by
  induction xs with
  | nil => exact .pure _
  | cons a xs ih =>
      rw [List.mapM_cons]
      exact .bind (hf a List.mem_cons_self) fun _ =>
        .bind (ih fun b hb => hf b (List.mem_cons_of_mem _ hb)) fun _ => .pure _

/-- A relation that holds from `s` on is kept, if it is respected together with equality. -/
theorem keeps {G : State → Prop} {x : Lower α} (hx : Respects (fun s t => s = t ∧ G s) x)
    {s : State} (h : G s) : G (x.run s).2 :=
  (hx ⟨rfl, h⟩).2.2

/-- Steps that keep a property of the state respect it together with equality. -/
theorem of_keeps {G : State → Prop} {x : Lower α} (hx : ∀ s, G s → G (x.run s).2) :
    Respects (fun s t => s = t ∧ G s) x := by
  rintro s t ⟨rfl, h⟩
  exact ⟨rfl, rfl, hx s h⟩

end Respects
end GraphLowering.Lowering
