import Mathlib.Data.List.Nodup
import Mathlib.Logic.Relation

/-!
# Totality — chains

A graph is given by the nodes that each node leads to.  A walk along it that may take `n` steps ends
when no path is longer (`Within`), and in a graph of finitely many nodes without circles no path has
more nodes than there are (`Acyclic.within`).  A walk that marks what it visits ends when nothing is
left to be seen (`unseen`).
-/

namespace GraphLowering

variable {α : Type} {next : α → List α} {n : Nat} {x y : α}

/-- One node leads to the other, by some number of steps. -/
abbrev Reaches (next : α → List α) : α → α → Prop :=
  Relation.ReflTransGen fun x y => y ∈ next x

/-- No node leads back to itself. -/
def Acyclic (next : α → List α) : Prop := ∀ x, ¬ Relation.TransGen (fun x y => y ∈ next x) x x

/-- Every path from the node has at most `n` nodes. -/
def Within (next : α → List α) : Nat → α → Prop
  | 0, _ => False
  | n + 1, x => ∀ y ∈ next x, Within next n y

namespace Within

instance decidable : (n : Nat) → (x : α) → Decidable (Within next n x)
  | 0, _ => inferInstanceAs (Decidable False)
  | n + 1, x =>
    have := decidable n
    inferInstanceAs (Decidable (∀ y ∈ next x, Within next n y))

theorem succ (h : Within next n x) : Within next (n + 1) x := by
  induction n generalizing x with
  | zero => exact h.elim
  | succ n ih => exact fun y hy => ih (h y hy)

theorem of_mem (h : Within next n x) (hy : y ∈ next x) : Within next n y := by
  cases n with
  | zero => exact h.elim
  | succ n => exact (h y hy).succ

theorem reaches (h : Within next n x) (hxy : Reaches next x y) : Within next n y := by
  induction hxy with
  | refl => exact h
  | tail _ hstep ih => exact ih.of_mem hstep

end Within

/-- Behind `used` distinct nodes that lead to `x` there are at most as many as are left. -/
theorem Acyclic.within_of_path (h : Acyclic next) {index : α → Nat}
    (hindex : Function.Injective index) {size : Nat} (hnext : ∀ x, ∀ y ∈ next x, index y < size)
    {used : List α} (hnodup : used.Nodup)
    (hused : ∀ u ∈ used, index u < size ∧ Relation.TransGen (fun x y => y ∈ next x) u x)
    (hx : index x < size) (hsize : used.length + n = size) : Within next n x := by
  have hnew : x ∉ used := fun hmem => h x (hused x hmem).2
  have hpath : (x :: used).Nodup := List.nodup_cons.mpr ⟨hnew, hnodup⟩
  induction n generalizing used x with
  | zero =>
      -- One more distinct node than there are.
      have hsub : (x :: used).map index ⊆ List.range size := by
        intro i hi
        obtain ⟨u, hu, rfl⟩ := List.mem_map.mp hi
        rcases List.mem_cons.mp hu with rfl | hu
        · exact List.mem_range.mpr hx
        · exact List.mem_range.mpr (hused u hu).1
      have hle := (hpath.map hindex).length_le_of_subset hsub
      simp only [List.length_map, List.length_cons, List.length_range] at hle
      omega
  | succ n ih =>
      intro y hy
      have hused' : ∀ u ∈ x :: used,
          index u < size ∧ Relation.TransGen (fun x y => y ∈ next x) u y := by
        intro u hu
        rcases List.mem_cons.mp hu with rfl | hu
        · exact ⟨hx, .single hy⟩
        · exact ⟨(hused u hu).1, (hused u hu).2.tail hy⟩
      -- Every node of the path leads to `y`, so `y` is none of them.
      have hnew' : y ∉ x :: used := fun hmem => h y (hused' y hmem).2
      refine ih hpath hused' (hnext x y hy) ?_ hnew' (List.nodup_cons.mpr ⟨hnew', hpath⟩)
      rw [List.length_cons]
      omega

/-- **No path of an acyclic graph has more nodes than there are.** -/
theorem Acyclic.within (h : Acyclic next) {index : α → Nat} (hindex : Function.Injective index)
    {size : Nat} (hnext : ∀ x, ∀ y ∈ next x, index y < size) (hx : index x < size) :
    Within next size x :=
  h.within_of_path hindex hnext List.nodup_nil (fun _ hmem => by cases hmem) hx (Nat.zero_add _)

theorem Acyclic.mono {next' : α → List α} (h : Acyclic next') (hsub : ∀ x, next x ⊆ next' x) :
    Acyclic next :=
  fun x hcircle => h x (Relation.TransGen.mono (fun x _ hy => hsub x hy) x x hcircle)

/-- What no step leads out of may be left out of the graph. -/
theorem Within.of_filter {p : α → Bool} (h : Within (fun z => (next z).filter p) n x)
    (hp : ∀ y, Reaches next x y → p y = true) : Within next n x := by
  induction n generalizing x with
  | zero => exact h.elim
  | succ n ih =>
      intro y hy
      have hkept : y ∈ (next x).filter p := List.mem_filter.mpr ⟨hy, hp y (.single hy)⟩
      exact ih (h y hkept) fun z hz => hp z (.head hy hz)

/-- Only the nodes that the first one leads to count. -/
theorem Acyclic.within_of_reaches (h : Acyclic next) {index : α → Nat}
    (hindex : Function.Injective index) {size : Nat}
    (hx : ∀ y, Reaches next x y → index y < size) : Within next size x := by
  have hinside : Within (fun z => (next z).filter (index · < size)) size x :=
    (h.mono fun z => List.filter_subset_self _).within hindex
      (fun _ _ hy => of_decide_eq_true (List.mem_filter.mp hy).2) (hx x .refl)
  exact hinside.of_filter fun y hy => decide_eq_true (hx y hy)

/-- A node that leads back to itself has paths of any length. -/
theorem Within.not_transGen (h : Within next n x) :
    ¬ Relation.TransGen (fun x y => y ∈ next x) x x := by
  induction n with
  | zero => exact h.elim
  | succ n ih =>
      intro hcircle
      obtain ⟨y, hy, hback⟩ := Relation.TransGen.head'_iff.mp hcircle
      exact ih ((h y hy).reaches hback) hcircle

/-- A graph of finitely many nodes is acyclic if no path is longer than some length. -/
theorem Acyclic.of_within {index : α → Nat} {size : Nat} {node : Nat → α}
    (hnode : ∀ x, node (index x) = x) (hsize : ∀ x, size ≤ index x → next x = [])
    (h : ∀ i < size, Within next n (node i)) : Acyclic next := by
  intro x hcircle
  rcases Nat.lt_or_ge (index x) size with hx | hx
  · have hwithin := h (index x) hx
    rw [hnode x] at hwithin
    exact hwithin.not_transGen hcircle
  · obtain ⟨y, hy, -⟩ := Relation.TransGen.head'_iff.mp hcircle
    rw [hsize x hx] at hy
    cases hy

/-! ### Marks -/

/-- How many of the nodes are not seen. -/
def unseen (nodes : List α) (seen : α → Bool) : Nat := nodes.countP (!seen ·)

section

variable {nodes : List α} {seen seen' : α → Bool}

theorem unseen_le_length : unseen nodes seen ≤ nodes.length := List.countP_le_length

/-- With nothing left, every node is seen. -/
theorem seen_of_unseen_le_zero (h : unseen nodes seen ≤ 0) (hx : x ∈ nodes) : seen x = true := by
  have hnone := List.countP_eq_zero.mp (Nat.le_zero.mp h) x hx
  simpa using hnone

theorem unseen_le (h : ∀ x, seen x = true → seen' x = true) :
    unseen nodes seen' ≤ unseen nodes seen := by
  refine List.countP_mono_left fun x _ hx => ?_
  have hx : seen' x = false := by simpa using hx
  cases hseen : seen x with
  | false => rfl
  | true => rw [h x hseen] at hx; cases hx

/-- One more node is seen. -/
theorem unseen_lt (h : ∀ x, seen x = true → seen' x = true) (hx : x ∈ nodes)
    (hold : seen x = false) (hnew : seen' x = true) : unseen nodes seen' < unseen nodes seen := by
  induction nodes with
  | nil => cases hx
  | cons y nodes ih =>
      simp only [unseen, List.countP_cons] at ih ⊢
      rcases List.mem_cons.mp hx with rfl | hx
      · have hle : unseen nodes seen' ≤ unseen nodes seen := unseen_le h
        simp only [unseen] at hle
        simp only [hold, hnew, Bool.not_true, Bool.not_false, Bool.false_eq_true, if_false, if_true]
        omega
      · have hlt := ih hx
        cases hy : seen y with
        | false =>
            rw [Bool.not_false, if_pos rfl]
            split <;> omega
        | true =>
            rw [h y hy]
            omega

end

end GraphLowering
