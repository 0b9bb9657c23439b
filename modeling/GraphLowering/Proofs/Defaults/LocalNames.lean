import GraphLowering.Defaults.LocalNames
import Mathlib.Data.List.Nodup

/-!
# Defaults — the names of locals

Fresh names, and what is known of the names at hand after one more object.

* `fresh_spec`: a fresh name is the first local name that is not taken.
* `Tallied`: every expression was given to one object, once.  Objects that get fresh locals keep
  it so.
* `Consistent`: what is taken are the expressions bound or given out.  This holds of all names that
  come about.
* `owner?_cases`: the owners at hand, and which of them have their objects registered.
-/

namespace GraphLowering.LocalNames

variable {n : LocalNames} {object other : ObjectId} {archetype : Option ObjectId} {x : String}

/-! ### Fresh names -/

theorem localName_ne_this (k : Nat) : localName k ≠ "this" := by
  intro h
  have hhead := congrArg (fun s : String => s.toList.head?) h
  cases k <;> simp [localName] at hhead

theorem localName_ne_getClass (k : Nat) : localName k ≠ "GetClass()" := by
  intro h
  have hhead := congrArg (fun s : String => s.toList.head?) h
  cases k <;> simp [localName] at hhead

/-- A search finds the first name from where it starts that is not taken. -/
theorem freshFrom_spec (taken : List String) (k : Nat) :
    ∃ i, k ≤ i ∧ freshFrom taken k = localName i ∧ localName i ∉ taken ∧
      ∀ j, k ≤ j → j < i → localName j ∈ taken := by
  fun_induction freshFrom taken k with
  | case1 k hk ih =>
      obtain ⟨i, hi, heq, hfree, hbefore⟩ := ih
      refine ⟨i, by omega, heq, hfree, fun j hj hji => ?_⟩
      rcases Nat.eq_or_lt_of_le hj with rfl | hj
      · exact hk
      · exact hbefore j hj hji
  | case2 k hk => exact ⟨k, Nat.le_refl k, rfl, hk, fun j hj hjk => by omega⟩

/-- A fresh name is the first local name that is not taken. -/
theorem fresh_spec (n : LocalNames) :
    ∃ k, n.fresh = localName k ∧ localName k ∉ n.taken ∧ ∀ j < k, localName j ∈ n.taken := by
  obtain ⟨k, -, heq, hfree, hbefore⟩ := freshFrom_spec n.taken 0
  exact ⟨k, heq, hfree, fun j hj => hbefore j (Nat.zero_le j) hj⟩

/-- **A fresh name is not taken.** -/
theorem fresh_not_mem (n : LocalNames) : n.fresh ∉ n.taken := by
  obtain ⟨k, heq, hfree, -⟩ := fresh_spec n
  rwa [heq]

theorem exists_fresh_eq (n : LocalNames) : ∃ i, n.fresh = localName i := by
  obtain ⟨k, heq, -⟩ := fresh_spec n
  exact ⟨k, heq⟩

/-! ### One more object -/

@[simp] theorem addNew_fst : (n.addNew object archetype).1 = n.fresh := rfl

@[simp] theorem names_addNew :
    (n.addNew object archetype).2.names = (object, n.fresh) :: n.names := rfl

@[simp] theorem taken_addNew : (n.addNew object archetype).2.taken = n.fresh :: n.taken := rfl

@[simp] theorem registered_addNew :
    (n.addNew object archetype).2.registered = n.registered := rfl

@[simp] theorem generated_addNew : (n.addNew object archetype).2.generated = n.generated := rfl

@[simp] theorem names_register : (n.register object).names = n.names := rfl

@[simp] theorem taken_register : (n.register object).taken = n.taken := rfl

@[simp] theorem generated_register : (n.register object).generated = n.generated := rfl

@[simp] theorem registered_register :
    (n.register object).registered = n.registered ++ [object] := rfl

@[simp] theorem find?_register : (n.register object).find? other = n.find? other := rfl

theorem find?_addNew :
    (n.addNew object archetype).2.find? other =
      if other = object then some n.fresh else n.find? other := by
  simp only [find?, names_addNew, List.lookup_cons]
  by_cases h : other = object
  · simp [h]
  · simp [h, beq_false_of_ne h]

theorem mem_names_of_find? (h : n.find? object = some x) : (object, x) ∈ n.names := by
  obtain ⟨before, after, heq, -⟩ := List.lookup_eq_some_iff.mp h
  simp [heq]

/-! ### Names that are told apart -/

/-- Every expression was given to one object, once. -/
structure Tallied (n : LocalNames) : Prop where
  taken_eq : n.taken = n.names.map (·.2)
  nodup : n.taken.Nodup

namespace Tallied

theorem mem_taken (h : n.Tallied) (hx : (object, x) ∈ n.names) : x ∈ n.taken := by
  rw [h.taken_eq]
  exact List.mem_map.mpr ⟨_, hx, rfl⟩

/-- An expression tells its object. -/
theorem eq_of_mem (h : n.Tallied) (hx : (object, x) ∈ n.names) (hx' : (other, x) ∈ n.names) :
    object = other := by
  have hnodup := h.taken_eq ▸ h.nodup
  exact congrArg Prod.fst (List.inj_on_of_nodup_map hnodup hx hx' rfl)

theorem addNew (h : n.Tallied) (object : ObjectId) (archetype : Option ObjectId) :
    (n.addNew object archetype).2.Tallied :=
  ⟨by simp [h.taken_eq], List.nodup_cons.mpr ⟨fresh_not_mem n, h.nodup⟩⟩

theorem register (h : n.Tallied) (object : ObjectId) : (n.register object).Tallied :=
  ⟨h.taken_eq, h.nodup⟩

end Tallied

/-! ### Names that come about -/

/-- What is taken are the expressions bound or given out, and what is registered is at hand. -/
structure Consistent (n : LocalNames) : Prop where
  taken_eq : n.taken = n.names.map (·.2)
  registered : ∀ o ∈ n.registered, (n.find? o).isSome

namespace Consistent

theorem record (h : n.Consistent) (object : ObjectId) (x : String) (archetype : Option ObjectId) :
    (n.record object x archetype).Consistent where
  taken_eq := by simp [LocalNames.record, h.taken_eq]
  registered o ho := by
    simp only [find?, LocalNames.record, List.lookup_cons]
    split
    · rfl
    · exact h.registered o ho

theorem addNew (h : n.Consistent) (object : ObjectId) (archetype : Option ObjectId) :
    (n.addNew object archetype).2.Consistent :=
  ⟨(h.record object n.fresh archetype).taken_eq, (h.record object n.fresh archetype).registered⟩

theorem register (h : n.Consistent) (hobject : (n.find? object).isSome) :
    (n.register object).Consistent where
  taken_eq := h.taken_eq
  registered o ho := by
    rcases List.mem_append.mp ho with ho | ho
    · exact h.registered o ho
    · rw [List.mem_singleton.mp ho]
      exact hobject

end Consistent

/-! ### Owners -/

/-- The class, or an object registered with it. -/
def StoresUnder (n : LocalNames) (cls : TypeId) (outer : Outer) : Prop :=
  outer = .type cls ∨ ∃ o ∈ n.registered, outer = .object o

/-- An owner at hand is the class or an object.  What is created under the class or under a
registered object is registered too. -/
theorem owner?_cases {g : GeneratedClass} (hg : n.generated = some g) {outer : Outer}
    {owner : Owner} (h : n.owner? outer = some owner) :
    (owner.afterCreate = some g.afterCreate ∧ n.StoresUnder g.cls outer ∨
      owner.afterCreate = none ∧ ¬ n.StoresUnder g.cls outer) ∧
    (outer = .type g.cls ∧ owner.expression = g.expression ∨
      ∃ o, outer = .object o ∧ n.find? o = some owner.expression) := by
  cases outer with
  | package name => simp [owner?] at h
  | type t =>
      simp only [owner?, hg, Option.filter_some] at h
      split at h
      · rename_i hcls
        have hcls : g.cls = t := by simpa using hcls
        cases h
        exact ⟨.inl ⟨rfl, .inl (by rw [hcls])⟩, .inl ⟨by rw [hcls], rfl⟩⟩
      · cases h
  | object o =>
      obtain ⟨name, hname, rfl⟩ := Option.map_eq_some_iff.mp h
      refine ⟨?_, .inr ⟨o, rfl, hname⟩⟩
      by_cases ho : o ∈ n.registered
      · exact .inl ⟨by simp [hg, ho], .inr ⟨o, ho, rfl⟩⟩
      · refine .inr ⟨by simp [hg, ho], ?_⟩
        rintro (h | ⟨p, hp, h⟩)
        · cases h
        · cases h
          exact ho hp

/-- An object that owns is at hand under the expression of the owner. -/
theorem find?_of_owner? {owner : Owner} (h : n.owner? (.object object) = some owner) :
    n.find? object = some owner.expression := by
  obtain ⟨name, hname, rfl⟩ := Option.map_eq_some_iff.mp h
  exact hname

/-- An owner is at hand when the class or the object is. -/
theorem isSome_owner? {g : GeneratedClass} (hg : n.generated = some g) {outer : Outer}
    (h : outer = .type g.cls ∨ ∃ o, outer = .object o ∧ (n.find? o).isSome) :
    (n.owner? outer).isSome := by
  rcases h with rfl | ⟨o, rfl, ho⟩
  · simp [owner?, hg]
  · simpa [owner?] using ho

end GraphLowering.LocalNames
