import GraphLowering.Fault
import Mathlib.Data.List.Forall2

/-!
# Look-ups in turn

A row of look-ups that found everything found each.
-/

namespace GraphLowering.Lookup

variable {ε α β : Type}

theorem exists_of_isOk {x : Except ε α} (h : x.isOk = true) : ∃ a, x = .ok a := by
  cases x with
  | error e => cases h
  | ok a => exact ⟨a, rfl⟩

/-- Two look-ups in turn that succeed both do. -/
theorem of_bind_ok {x : Except ε α} {f : α → Except ε β} {b : β} (h : (x >>= f) = .ok b) :
    ∃ a, x = .ok a ∧ f a = .ok b := by
  cases x with
  | error e => cases h
  | ok a => exact ⟨a, rfl, h⟩

/-- After a look-up that succeeds, the next has its result. -/
theorem bind_of_ok {x : Except ε α} {a : α} (h : x = .ok a) (f : α → Except ε β) :
    (x >>= f) = f a := by
  rw [h]
  rfl

/-- Look-ups over a list that succeed all do. -/
theorem of_mapM_ok {f : α → Except ε β} {xs : List α} {ys : List β} (h : xs.mapM f = .ok ys) :
    List.Forall₂ (fun x y => f x = .ok y) xs ys := by
  induction xs generalizing ys with
  | nil => cases h; exact .nil
  | cons x xs ih =>
      rw [List.mapM_cons] at h
      obtain ⟨y, hy, h⟩ := of_bind_ok h
      obtain ⟨zs, hzs, h⟩ := of_bind_ok h
      cases h
      exact .cons hy (ih hzs)

/-- A member of a list that is related to another, with its partner. -/
theorem exists_mem_zip {R : α → β → Prop} {xs : List α} {ys : List β} (h : List.Forall₂ R xs ys)
    {x : α} (hx : x ∈ xs) : ∃ y, (x, y) ∈ xs.zip ys ∧ R x y := by
  induction h with
  | nil => cases hx
  | cons hxy _ ih =>
      rcases List.mem_cons.mp hx with rfl | hx
      · exact ⟨_, List.mem_cons_self, hxy⟩
      · obtain ⟨y, hy, hR⟩ := ih hx
        exact ⟨y, List.mem_cons_of_mem _ hy, hR⟩

/-- What is found for a member is among all that is found. -/
theorem exists_of_mapM_ok {f : α → Except ε β} {xs : List α} {ys : List β}
    (h : xs.mapM f = .ok ys) {x : α} (hx : x ∈ xs) : ∃ y ∈ ys, f x = .ok y := by
  obtain ⟨y, hy, hfound⟩ := exists_mem_zip (of_mapM_ok h) hx
  exact ⟨y, (List.of_mem_zip hy).2, hfound⟩

/-- What every look-up gives, all that is found has. -/
theorem forall_of_mapM_ok {P : β → Prop} {f : α → Except ε β} {xs : List α} {ys : List β}
    (hf : ∀ x ∈ xs, ∀ y, f x = .ok y → P y) (h : xs.mapM f = .ok ys) : ∀ y ∈ ys, P y := by
  intro y hy
  obtain ⟨x, hx, hxy⟩ := exists_mem_zip (of_mapM_ok h).flip hy
  exact hf x (List.of_mem_zip hx).2 y hxy

/-- Look-ups that find all that others find also find it over a list. -/
theorem mapM_mono {f g : α → Except ε β} {xs : List α}
    (hfg : ∀ x ∈ xs, ∀ y, f x = .ok y → g x = .ok y) {ys : List β} (h : xs.mapM f = .ok ys) :
    xs.mapM g = .ok ys := by
  induction xs generalizing ys with
  | nil => exact h
  | cons x xs ih =>
      rw [List.mapM_cons] at h ⊢
      obtain ⟨y, hy, h⟩ := of_bind_ok h
      obtain ⟨zs, hzs, h⟩ := of_bind_ok h
      rw [hfg x List.mem_cons_self y hy, ih (fun x hx => hfg x (List.mem_cons_of_mem _ hx)) hzs]
      exact h

/-- What every change in a row keeps, the row keeps. -/
theorem foldlM_ok {P : β → Prop} {f : β → α → Except ε β}
    (hstep : ∀ b x b', P b → f b x = .ok b' → P b') {xs : List α} {b b' : β} (hb : P b)
    (h : xs.foldlM f b = .ok b') : P b' := by
  induction xs generalizing b with
  | nil => cases h; exact hb
  | cons x xs ih =>
      rw [List.foldlM_cons] at h
      obtain ⟨mid, hmid, hrest⟩ := of_bind_ok h
      exact ih (hstep b x mid hb hmid) hrest

/-- A search that stops at the first hit found it, or everything is known to miss. -/
theorem of_anyM_ok {p : α → Except ε Bool} {xs : List α} {b : Bool}
    (h : xs.anyM p = .ok b) : b = true ∨ ∀ x ∈ xs, p x = .ok false := by
  induction xs with
  | nil => exact .inr (fun _ hx => by cases hx)
  | cons x xs ih =>
      unfold List.anyM at h
      obtain ⟨found, hx, h⟩ := of_bind_ok h
      cases found with
      | true => cases h; exact .inl rfl
      | false =>
          rcases ih h with hb | hrest
          · exact .inl hb
          · refine .inr fun y hy => ?_
            rcases List.mem_cons.mp hy with rfl | hy
            · exact hx
            · exact hrest y hy

/-- A search that stops at the first hit, where everything can be looked at. -/
theorem exists_findM?_ok {p : α → Except ε Bool} {xs : List α} (hp : ∀ x ∈ xs, ∃ b, p x = .ok b) :
    ∃ r, xs.findM? p = .ok r ∧ (∀ x, r = some x → x ∈ xs ∧ p x = .ok true) ∧
      (r = none → ∀ x ∈ xs, p x = .ok false) := by
  induction xs with
  | nil => exact ⟨none, rfl, nofun, fun _ => List.forall_mem_nil _⟩
  | cons x xs ih =>
      obtain ⟨b, hb⟩ := hp x List.mem_cons_self
      rw [List.findM?, bind_of_ok hb]
      cases b with
      | true =>
          refine ⟨some x, rfl, ?_, nofun⟩
          rintro _ ⟨⟩
          exact ⟨List.mem_cons_self, hb⟩
      | false =>
          obtain ⟨r, hr, hsome, hnone⟩ := ih fun y hy => hp y (List.mem_cons_of_mem _ hy)
          exact ⟨r, hr, fun y hy => ⟨List.mem_cons_of_mem _ (hsome y hy).1, (hsome y hy).2⟩,
            fun hr => List.forall_mem_cons.mpr ⟨hb, hnone hr⟩⟩

theorem exists_findSomeM?_ok {f : α → Except ε (Option β)} {xs : List α}
    (hf : ∀ x ∈ xs, ∃ r, f x = .ok r) :
    ∃ r, xs.findSomeM? f = .ok r ∧ (∀ b, r = some b → ∃ x ∈ xs, f x = .ok (some b)) ∧
      (r = none → ∀ x ∈ xs, f x = .ok none) := by
  induction xs with
  | nil => exact ⟨none, rfl, nofun, fun _ => List.forall_mem_nil _⟩
  | cons x xs ih =>
      obtain ⟨found, hfound⟩ := hf x List.mem_cons_self
      rw [List.findSomeM?, bind_of_ok hfound]
      cases found with
      | some b =>
          refine ⟨some b, rfl, ?_, nofun⟩
          rintro _ ⟨⟩
          exact ⟨x, List.mem_cons_self, hfound⟩
      | none =>
          obtain ⟨r, hr, hsome, hnone⟩ := ih fun y hy => hf y (List.mem_cons_of_mem _ hy)
          refine ⟨r, hr, fun b hb => ?_, fun hr => List.forall_mem_cons.mpr ⟨hfound, hnone hr⟩⟩
          obtain ⟨y, hy, heq⟩ := hsome b hb
          exact ⟨y, List.mem_cons_of_mem _ hy, heq⟩

end GraphLowering.Lookup
