import GraphLowering.Dependency
import GraphLowering.Proofs.Steps

/-!
# Totality — computations that answer

A computation answers when the only fault that it can end with is an endless chain, and not even
that if `A` holds.  What it is put together from says whether it answers, and what is known of its
result.

* `Answers`: of a look-up; `Runs`: of a step with state; `Collects`: of a step of a walk.
* `Answers.bind`, `Runs.bind`, `Collects.bind` and their likes: how they are put together.
-/

namespace GraphLowering

variable {A : Prop} {α β σ : Type}

/-! ### Look-ups -/

/-- There is a result, with `Q`; or a chain is endless, which `A` rules out. -/
def Answers (A : Prop) (x : Except Fault α) (Q : α → Prop) : Prop :=
  match x with
  | .ok a => Q a
  | .error f => f = .endless ∧ ¬ A

/-- There is a result; or a chain is endless, which `A` rules out. -/
abbrev Ends (A : Prop) (x : Except Fault α) : Prop := Answers A x fun _ => True

namespace Answers

variable {x : Except Fault α} {Q : α → Prop} {R : β → Prop}

theorem pure {a : α} (h : Q a) : Answers A (Pure.pure a) Q := h

theorem of_eq {a : α} (h : x = .ok a) (ha : Q a) : Answers A x Q := by
  rw [h]
  exact ha

theorem endless (h : ¬ A) : Answers A (throw .endless : Except Fault α) Q := ⟨rfl, h⟩

/-- A look-up in an array finds what is in range, with what all entries have. -/
theorem exists_lookup {entries : Array α} {i : Nat} (hx : ∀ a, x = .ok a ↔ entries[i]? = some a)
    (hi : i < entries.size) (hQ : ∀ a ∈ entries.toList, Q a) : ∃ a, x = .ok a ∧ Q a :=
  ⟨_, (hx _).mpr (Array.getElem?_eq_getElem hi), hQ _ (Array.getElem_mem_toList hi)⟩

theorem lookup {entries : Array α} {i : Nat} (hx : ∀ a, x = .ok a ↔ entries[i]? = some a)
    (hi : i < entries.size) (hQ : ∀ a ∈ entries.toList, Q a) :
    Answers A x fun a => x = .ok a ∧ Q a := by
  obtain ⟨a, ha, hQa⟩ := exists_lookup hx hi hQ
  exact .of_eq ha ⟨ha, hQa⟩

theorem imp {Q' : α → Prop} (h : Answers A x Q) (hQ : ∀ a, Q a → Q' a) : Answers A x Q' := by
  cases x with
  | error f => exact h
  | ok a => exact hQ a h

/-- Under `A` there is a result. -/
theorem exists_ok (h : Answers A x Q) (a : A) : ∃ r, x = .ok r ∧ Q r := by
  cases x with
  | error f => exact absurd a h.2
  | ok r => exact ⟨r, rfl, h⟩

theorem ends (h : Answers A x Q) : Ends A x := h.imp fun _ _ => trivial

/-- The result is kept in mind. -/
theorem and_eq (h : Answers A x Q) : Answers A x fun a => x = .ok a ∧ Q a := by
  cases x with
  | error f => exact h
  | ok a => exact ⟨rfl, h⟩

theorem bind {f : α → Except Fault β} (hx : Answers A x Q) (hf : ∀ a, Q a → Answers A (f a) R) :
    Answers A (x >>= f) R := by
  cases x with
  | error f => exact hx
  | ok a => exact hf a hx

theorem mapM {xs : List α} {f : α → Except Fault β} (hf : ∀ x ∈ xs, Answers A (f x) R) :
    Answers A (xs.mapM f) fun ys => ∀ y ∈ ys, R y := by
  induction xs with
  | nil => exact .pure fun _ hmem => by cases hmem
  | cons x xs ih =>
      rw [List.mapM_cons]
      refine .bind (hf x List.mem_cons_self) fun y hy => ?_
      refine .bind (ih fun x hx => hf x (List.mem_cons_of_mem _ hx)) fun ys hys => .pure ?_
      intro z hz
      rcases List.mem_cons.mp hz with rfl | hz
      · exact hy
      · exact hys z hz

/-- A search that stops at the first hit. -/
theorem anyM {xs : List α} {p : α → Except Fault Bool} (hp : ∀ x ∈ xs, Ends A (p x)) :
    Ends A (xs.anyM p) := by
  induction xs with
  | nil => exact .pure trivial
  | cons x xs ih =>
      refine .bind (hp x List.mem_cons_self) fun b _ => ?_
      cases b with
      | true => exact .pure trivial
      | false => exact ih fun x hx => hp x (List.mem_cons_of_mem _ hx)

theorem findM? {xs : List α} {p : α → Except Fault Bool} (hp : ∀ x ∈ xs, Ends A (p x)) :
    Answers A (xs.findM? p) fun r => ∀ x ∈ r, x ∈ xs := by
  induction xs with
  | nil => exact .pure fun _ hmem => by cases hmem
  | cons x xs ih =>
      refine .bind (hp x List.mem_cons_self) fun b _ => ?_
      cases b with
      | true =>
          refine .pure fun y hy => ?_
          cases hy
          exact List.mem_cons_self
      | false =>
          exact (ih fun x hx => hp x (List.mem_cons_of_mem _ hx)).imp fun r hr y hy =>
            List.mem_cons_of_mem _ (hr y hy)

theorem findSomeM? {xs : List α} {f : α → Except Fault (Option β)}
    (hf : ∀ x ∈ xs, Answers A (f x) fun r => ∀ b ∈ r, R b) :
    Answers A (xs.findSomeM? f) fun r => ∀ b ∈ r, R b := by
  induction xs with
  | nil => exact .pure fun _ hmem => by cases hmem
  | cons x xs ih =>
      refine .bind (hf x List.mem_cons_self) fun r hr => ?_
      cases r with
      | some b => exact .pure hr
      | none => exact ih fun x hx => hf x (List.mem_cons_of_mem _ hx)

theorem filterAuxM {xs seen : List α} {p : α → Except Fault Bool} (hp : ∀ x ∈ xs, Ends A (p x)) :
    Answers A (xs.filterAuxM p seen) fun ys => ∀ y ∈ ys, y ∈ xs ∨ y ∈ seen := by
  induction xs generalizing seen with
  | nil => exact .pure fun _ hmem => .inr hmem
  | cons x xs ih =>
      refine .bind (hp x List.mem_cons_self) fun b _ => ?_
      refine (ih fun x hx => hp x (List.mem_cons_of_mem _ hx)).imp fun ys hys y hy => ?_
      rcases hys y hy with hy | hy
      · exact .inl (List.mem_cons_of_mem _ hy)
      · cases b with
        | false => exact .inr hy
        | true =>
            rcases List.mem_cons.mp hy with rfl | hy
            · exact .inl List.mem_cons_self
            · exact .inr hy

theorem filterM {xs : List α} {p : α → Except Fault Bool} (hp : ∀ x ∈ xs, Ends A (p x)) :
    Answers A (xs.filterM p) fun ys => ∀ y ∈ ys, y ∈ xs := by
  refine .bind (filterAuxM hp) fun ys hys => .pure fun y hy => ?_
  exact (hys y (List.mem_reverse.mp hy)).resolve_right List.not_mem_nil

end Answers

/-! ### Steps with state -/

/-- From a state with `P` the step answers, and then the result and the state have `Q`. -/
def Runs (A : Prop) (P : σ → Prop) (x : Step σ α) (Q : α → σ → Prop) : Prop :=
  ∀ s, P s → Answers A (x.run s).1 fun a => Q a (x.run s).2

namespace Runs

variable {P : σ → Prop} {x : Step σ α} {Q : α → σ → Prop} {R : β → σ → Prop}

theorem imp {P' : σ → Prop} {Q' : α → σ → Prop} (h : Runs A P x Q) (hP : ∀ s, P' s → P s)
    (hQ : ∀ a s, Q a s → Q' a s) : Runs A P' x Q' :=
  fun s hs => (h s (hP s hs)).imp fun a => hQ a _

theorem pure {a : α} (h : ∀ s, P s → Q a s) : Runs A P (Pure.pure a : Step σ α) Q := h

theorem endless (h : ∀ s, P s → ¬ A) : Runs A P (throw .endless : Step σ α) Q :=
  fun s hs => ⟨rfl, h s hs⟩

theorem update {f : σ → σ} {Q : PUnit → σ → Prop} (h : ∀ s, P s → Q ⟨⟩ (f s)) :
    Runs A P (modify f : Step σ PUnit) Q := h

theorem bind {f : α → Step σ β} (hx : Runs A P x Q) (hf : ∀ a, Runs A (Q a) (f a) R) :
    Runs A P (x >>= f) R := by
  intro s hs
  have hxs := hx s hs
  rw [run_bind]
  generalize x.run s = r at hxs ⊢
  obtain ⟨e | a, t⟩ := r
  · exact hxs
  · exact hf a t hxs

theorem lift {e : Except Fault α} {Q : α → Prop} (h : Answers A e Q) :
    Runs A P (liftM e : Step σ α) fun a s => Q a ∧ P s :=
  fun _ hs => h.imp fun _ ha => ⟨ha, hs⟩

/-- A look-up leaves the state as it is. -/
theorem liftBind {e : Except Fault α} {Q : α → Prop} {f : α → Step σ β} (he : Answers A e Q)
    (hf : ∀ a, Q a → Runs A P (f a) R) : Runs A P (liftM e >>= f) R :=
  .bind (.lift he) fun a s hs => hf a hs.1 s hs.2

/-- The state is looked at. -/
theorem getBind {f : σ → Step σ β} (hf : ∀ s, P s → Runs A P (f s) R) :
    Runs A P (get >>= f) R :=
  fun s hs => hf s hs s hs

theorem map {f : α → β} (hx : Runs A P x Q) (hf : ∀ a s, Q a s → R (f a) s) :
    Runs A P (f <$> x) R := by
  rw [map_eq_pure_bind]
  exact .bind hx fun a => .pure (hf a)

theorem forM {xs : List α} {f : α → Step σ PUnit} (hf : ∀ x ∈ xs, Runs A P (f x) fun _ => P) :
    Runs A P (xs.forM f) fun _ => P := by
  induction xs with
  | nil => exact .pure fun _ hs => hs
  | cons x xs ih =>
      exact .bind (hf x List.mem_cons_self) fun _ =>
        ih fun x hx => hf x (List.mem_cons_of_mem _ hx)

end Runs

/-! ### Steps of a walk -/

open Collector (Collect)

/-- From a collector with `P` the step answers, and then the result and the collector have `Q`. -/
def Collects (A : Prop) (P : Collector → Prop) (x : Collect α) (Q : α → Collector → Prop) : Prop :=
  ∀ c, P c → Answers A (x.run c) fun r => Q r.1 r.2

namespace Collects

variable {P : Collector → Prop} {x : Collect α} {Q : α → Collector → Prop}
  {R : β → Collector → Prop}

theorem imp {P' : Collector → Prop} {Q' : α → Collector → Prop} (h : Collects A P x Q)
    (hP : ∀ c, P' c → P c) (hQ : ∀ a c, Q a c → Q' a c) : Collects A P' x Q' :=
  fun c hc => (h c (hP c hc)).imp fun r => hQ r.1 r.2

theorem pure {a : α} (h : ∀ c, P c → Q a c) : Collects A P (Pure.pure a : Collect α) Q := h

theorem update {f : Collector → Collector} {Q : PUnit → Collector → Prop}
    (h : ∀ c, P c → Q ⟨⟩ (f c)) : Collects A P (modify f : Collect PUnit) Q := h

theorem bind {f : α → Collect β} (hx : Collects A P x Q) (hf : ∀ a, Collects A (Q a) (f a) R) :
    Collects A P (x >>= f) R :=
  fun c hc => .bind (hx c hc) fun r hr => hf r.1 r.2 hr

/-- The collector is looked at, and is known from then on. -/
theorem getBind {f : Collector → Collect β} (hf : ∀ c, P c → Collects A (· = c) (f c) R) :
    Collects A P (get >>= f) R :=
  fun c hc => hf c hc c rfl

theorem liftBind {e : Except Fault α} {Q : α → Prop} {f : α → Collect β} (he : Answers A e Q)
    (hf : ∀ a, Q a → Collects A P (f a) R) : Collects A P (liftM e >>= f) R := by
  intro c hc
  cases e with
  | error f => exact he
  | ok a => exact hf a he c hc

theorem forM {xs : List α} {f : α → Collect PUnit}
    (hf : ∀ x ∈ xs, Collects A P (f x) fun _ => P) : Collects A P (xs.forM f) fun _ => P := by
  induction xs with
  | nil => exact .pure fun _ hc => hc
  | cons x xs ih =>
      exact .bind (hf x List.mem_cons_self) fun _ =>
        ih fun x hx => hf x (List.mem_cons_of_mem _ hx)

end Collects

end GraphLowering
