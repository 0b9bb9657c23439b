import GraphLowering.Proofs.Totality.Schema
import GraphLowering.World

/-!
# Schema — overriding

A function overrides those of the same name that types above its owner list: super types and
interfaces, and what is above these.  Its base is searched for step by step.  What a super type
leads to is followed further up; what an interface leads to is taken as it is, even if it overrides
something in turn.

* `Declares`, `Overrides`: functions of one name, and which of them are above others.
* `Layered.findFunction`: the search for a name from a type finds what there is.
* `Layered.baseFunctionFrom_cases`: one step towards the base.
* `baseFunction_eq_self_iff`: the functions that are their own base.
* `base_is_base_iff`: what is known of the base of a function.
-/

namespace GraphLowering

namespace Schema

variable {s : Schema} {objects : ObjectStore} {id u : TypeId} {f g k : FunctionId} {name : String}
  {n : Nat}

/-- Every id is in range, no type is above itself, and a function is owned by the type that lists
it. -/
structure Layered (s : Schema) (objects : ObjectStore) : Prop where
  inRange : s.InRange (.of s objects)
  parents : Acyclic s.parents
  functionsOwned : s.FunctionsOwned

/-- The type lists a function of the name. -/
def Declares (s : Schema) (id : TypeId) (name : String) (f : FunctionId) : Prop :=
  ∃ t decl, s.type id = .ok t ∧ f ∈ t.functions ∧ s.function f = .ok decl ∧ decl.name = name

/-- A type above the owner of `f` lists `g`, which has the same name. -/
def Overrides (s : Schema) (f g : FunctionId) : Prop :=
  ∃ decl u, s.function f = .ok decl ∧
    Relation.TransGen (fun x y => y ∈ s.parents x) decl.owner u ∧ s.Declares u decl.name g

/-- An interface of the owner of `f` leads to `g`, which has the same name. -/
def Implements (s : Schema) (f g : FunctionId) : Prop :=
  ∃ decl owner i, s.function f = .ok decl ∧ s.type decl.owner = .ok owner ∧
    i ∈ owner.interfaces ∧ s.findFunction i decl.name = .ok (some g)

/-- No interface of the owner of `f` leads to a function of this name, and its super type leads
to `g`. -/
def Refines (s : Schema) (f g : FunctionId) : Prop :=
  ∃ decl owner p, s.function f = .ok decl ∧ s.type decl.owner = .ok owner ∧
    (∀ i ∈ owner.interfaces, s.findFunction i decl.name = .ok none) ∧
    owner.superType = some p ∧ s.findFunction p decl.name = .ok (some g)

/-! ### The nearest function -/

/-- What a search from a type finds: a function of the name that it or a type above it lists, and
none only if there is none. -/
structure Finds (s : Schema) (id : TypeId) (name : String) (r : Option FunctionId) : Prop where
  listed : ∀ f, r = some f → ∃ u, Reaches s.parents id u ∧ s.Declares u name f
  missing : r = none → ∀ u f, Reaches s.parents id u → ¬ s.Declares u name f

namespace Layered

theorem exists_type (h : s.Layered objects) (hid : id.index < s.types.size) :
    ∃ t, s.type id = .ok t ∧ t.InRange (.of s objects) :=
  Answers.exists_lookup (fun _ => type_eq_ok_iff) hid h.inRange.types

theorem exists_function (h : s.Layered objects) (hf : f.index < s.functions.size) :
    ∃ decl, s.function f = .ok decl ∧ decl.InRange (.of s objects) :=
  Answers.exists_lookup (fun _ => function_eq_ok_iff) hf h.inRange.functions

theorem within (h : s.Layered objects) (hid : id.index < s.types.size) :
    Within s.parents s.height id :=
  (h.parents.within TypeId.index_injective (fun _ _ hp => h.inRange.parents hp) hid).succ

theorem findAmong (h : s.Layered objects) {t : TypeDecl} (ht : s.type id = .ok t)
    (hrange : t.InRange (.of s objects)) (name : String) :
    ∃ r, s.findAmong t.functions name = .ok r ∧ (∀ f, r = some f → s.Declares id name f) ∧
      (r = none → ∀ f, ¬ s.Declares id name f) := by
  have hlook : ∀ f ∈ t.functions, ∃ decl, s.function f = .ok decl ∧
      (do return (← s.function f).name == name : Except Fault Bool) = .ok (decl.name == name) := by
    intro f hf
    obtain ⟨decl, hdecl, -⟩ := h.exists_function (hrange.functions f hf)
    exact ⟨decl, hdecl, Lookup.bind_of_ok hdecl _⟩
  obtain ⟨r, hr, hsome, hnone⟩ := Lookup.exists_findM?_ok fun f hf =>
    let ⟨_, _, heq⟩ := hlook f hf
    ⟨_, heq⟩
  refine ⟨r, hr, fun f hf => ?_, fun hr f ⟨t', decl, ht', hmem, hdecl, hname⟩ => ?_⟩
  · obtain ⟨hmem, htrue⟩ := hsome f hf
    obtain ⟨decl, hdecl, heq⟩ := hlook f hmem
    exact ⟨t, decl, ht, hmem, hdecl, beq_iff_eq.mp (Except.ok.inj (heq.symm.trans htrue))⟩
  · obtain rfl := Except.ok.inj (ht.symm.trans ht')
    obtain ⟨decl', hdecl', heq⟩ := hlook f hmem
    obtain rfl := Except.ok.inj (hdecl.symm.trans hdecl')
    have hfalse := Except.ok.inj (heq.symm.trans (hnone hr f hmem))
    exact absurd hname (beq_eq_false_iff_ne.mp hfalse)

end Layered

theorem mem_parents_iff {t : TypeDecl} (ht : s.type id = .ok t) {p : TypeId} :
    p ∈ s.parents id ↔ t.superType = some p ∨ p ∈ t.interfaces := by
  simp [parents, ht]

theorem Finds.of_parent {p : TypeId} (h : s.Finds p name (some f)) (hp : p ∈ s.parents id) :
    s.Finds id name (some f) where
  listed := by
    rintro _ ⟨⟩
    obtain ⟨u, hu, hdeclares⟩ := h.listed f rfl
    exact ⟨u, .head hp hu, hdeclares⟩
  missing := nofun

theorem Finds.of_parents (hown : ∀ f, ¬ s.Declares id name f)
    (hparents : ∀ p ∈ s.parents id, s.Finds p name none) : s.Finds id name none where
  listed := nofun
  missing _ u f hu := by
    rcases hu.cases_head with rfl | ⟨p, hp, hu⟩
    · exact hown f
    · exact (hparents p hp).missing rfl u f hu

/-- Nothing is found from the interfaces, and nothing from the super type. -/
theorem Finds.parents {t : TypeDecl} (ht : s.type id = .ok t)
    (hinterfaces : ∀ i ∈ t.interfaces, s.Finds i name none)
    (hsuper : ∀ p, t.superType = some p → s.Finds p name none) :
    ∀ p ∈ s.parents id, s.Finds p name none := by
  intro p hp
  rcases (mem_parents_iff ht).mp hp with hp | hp
  · exact hsuper p hp
  · exact hinterfaces p hp

/-- **The nearest function of a name.** -/
theorem Layered.findFunctionFrom (h : s.Layered objects) (hid : id.index < s.types.size)
    (hwithin : Within s.parents n id) :
    ∃ r, s.findFunctionFrom name n id = .ok r ∧ s.Finds id name r := by
  induction n generalizing id with
  | zero => exact hwithin.elim
  | succ n ih =>
      obtain ⟨t, ht, hrange⟩ := h.exists_type hid
      obtain ⟨own, hown, hownSome, hownNone⟩ := h.findAmong ht hrange name
      have hparent : ∀ p ∈ s.parents id, ∃ r, s.findFunctionFrom name n p = .ok r ∧
          s.Finds p name r := fun p hp => ih (h.inRange.parents hp) (hwithin p hp)
      have hfinds : ∀ p ∈ s.parents id, ∀ r, s.findFunctionFrom name n p = .ok r →
          s.Finds p name r := by
        intro p hp r hr
        obtain ⟨r', hr', hfinds⟩ := hparent p hp
        rwa [Except.ok.inj (hr.symm.trans hr')]
      obtain ⟨found, hfound, hsome, hnone⟩ := Lookup.exists_findSomeM?_ok fun i hi =>
        (hparent i ((mem_parents_iff ht).mpr (.inr hi))).imp fun _ hr => hr.1
      rw [Schema.findFunctionFrom, Lookup.bind_of_ok ht, Lookup.bind_of_ok hown]
      cases own with
      | some f =>
          refine ⟨some f, rfl, ?_, nofun⟩
          rintro _ ⟨⟩
          exact ⟨id, .refl, hownSome f rfl⟩
      | none =>
          dsimp only
          rw [Lookup.bind_of_ok hfound]
          cases found with
          | some f =>
              obtain ⟨i, hi, heq⟩ := hsome f rfl
              have hp := (mem_parents_iff ht).mpr (.inr hi)
              exact ⟨some f, rfl, (hfinds i hp _ heq).of_parent hp⟩
          | none =>
              dsimp only
              have hinterfaces : ∀ i ∈ t.interfaces, s.Finds i name none := fun i hi =>
                hfinds i ((mem_parents_iff ht).mpr (.inr hi)) _ (hnone rfl i hi)
              cases hsuper : t.superType with
              | none =>
                  exact ⟨none, rfl, .of_parents (hownNone rfl)
                    (.parents ht hinterfaces (by simp [hsuper]))⟩
              | some q =>
                  have hq := (mem_parents_iff ht).mpr (.inl hsuper)
                  obtain ⟨r, hr, hrfinds⟩ := hparent q hq
                  refine ⟨r, hr, ?_⟩
                  cases r with
                  | some f => exact hrfinds.of_parent hq
                  | none =>
                      exact .of_parents (hownNone rfl)
                        (.parents ht hinterfaces (by simpa [hsuper] using hrfinds))

theorem Layered.findFunction (h : s.Layered objects) (hid : id.index < s.types.size)
    (name : String) : ∃ r, s.findFunction id name = .ok r ∧ s.Finds id name r :=
  h.findFunctionFrom hid (h.within hid)

/-- A search that a type answers with nothing has looked at its super types as well. -/
theorem Layered.climb (h : s.Layered objects) (hid : id.index < s.types.size)
    (hwithin : Within s.parents n id) :
    s.climb (s.findFunction · name) n (some id) = s.findFunction id name := by
  induction n generalizing id with
  | zero => exact hwithin.elim
  | succ n ih =>
      obtain ⟨r, hr, hfinds⟩ := h.findFunction hid name
      obtain ⟨t, ht, -⟩ := h.exists_type hid
      rw [Schema.climb, Lookup.bind_of_ok hr, hr]
      cases r with
      | some f => rfl
      | none =>
          dsimp only
          rw [Lookup.bind_of_ok ht]
          cases hsuper : t.superType with
          | none => cases n <;> rfl
          | some p =>
              have hp := (mem_parents_iff ht).mpr (.inl hsuper)
              rw [ih (h.inRange.parents hp) (hwithin p hp)]
              obtain ⟨r, hr, habove⟩ := h.findFunction (h.inRange.parents hp) name
              cases r with
              | none => exact hr
              | some f =>
                  obtain ⟨u, hu, hdeclares⟩ := habove.listed f rfl
                  exact absurd hdeclares (hfinds.missing rfl u f (.head hp hu))

theorem Layered.finds (h : s.Layered objects) (hid : id.index < s.types.size)
    {r : Option FunctionId} (hr : s.findFunction id name = .ok r) : s.Finds id name r := by
  obtain ⟨r', hr', hfinds⟩ := h.findFunction hid name
  rwa [Except.ok.inj (hr.symm.trans hr')]

/-! ### Overriding -/

theorem Declares.owner_eq (h : s.Layered objects) (hf : s.Declares u name f) :
    ∃ decl, s.function f = .ok decl ∧ decl.owner = u ∧ decl.name = name := by
  obtain ⟨t, decl, ht, hmem, hdecl, hname⟩ := hf
  exact ⟨decl, hdecl, h.functionsOwned.owner_eq ht hmem hdecl, hname⟩

theorem Overrides.trans (h : s.Layered objects) (hfg : s.Overrides f g) (hgk : s.Overrides g k) :
    s.Overrides f k := by
  obtain ⟨decl, u, hdecl, hu, hg⟩ := hfg
  obtain ⟨decl', v, hdecl', hv, hk⟩ := hgk
  obtain ⟨_, hfound, rfl, hname⟩ := hg.owner_eq h
  obtain rfl := Except.ok.inj (hdecl'.symm.trans hfound)
  exact ⟨decl, v, hdecl, hu.trans hv, hname ▸ hk⟩

/-- No function overrides itself, for its owner would be above itself. -/
theorem not_overrides_self (h : s.Layered objects) : ¬ s.Overrides f f := by
  rintro ⟨decl, u, hdecl, hu, hf⟩
  obtain ⟨_, hfound, rfl, -⟩ := hf.owner_eq h
  obtain rfl := Except.ok.inj (hdecl.symm.trans hfound)
  exact h.parents _ hu

theorem Overrides.index_lt (h : s.Layered objects) (hfg : s.Overrides f g) :
    g.index < s.functions.size := by
  obtain ⟨_, _, -, -, t, _, ht, hmem, -⟩ := hfg
  exact (h.inRange.types t (mem_types ht)).functions g hmem

/-- What is found from a parent of the owner is overridden. -/
theorem Finds.overrides {decl : FunctionDecl} {p : TypeId} (hfinds : s.Finds p decl.name (some g))
    (hdecl : s.function f = .ok decl) (hp : p ∈ s.parents decl.owner) : s.Overrides f g := by
  obtain ⟨u, hu, hdeclares⟩ := hfinds.listed g rfl
  exact ⟨decl, u, hdecl, .head' hp hu, hdeclares⟩

/-- Nothing is overridden where nothing is found. -/
theorem not_overrides {decl : FunctionDecl} (hdecl : s.function f = .ok decl)
    (hparents : ∀ p ∈ s.parents decl.owner, s.Finds p decl.name none) : ¬ s.Overrides f g := by
  rintro ⟨_, u, hfound, hu, hdeclares⟩
  obtain rfl := Except.ok.inj (hdecl.symm.trans hfound)
  obtain ⟨p, hp, hu⟩ := Relation.TransGen.head'_iff.mp hu
  exact (hparents p hp).missing rfl u g hu hdeclares

theorem Implements.overrides (h : s.Layered objects) (hfg : s.Implements f g) :
    s.Overrides f g := by
  obtain ⟨decl, owner, i, hdecl, howner, hi, hfound⟩ := hfg
  have hp := (mem_parents_iff howner).mpr (.inr hi)
  exact (h.finds (h.inRange.parents hp) hfound).overrides hdecl hp

theorem Refines.overrides (h : s.Layered objects) (hfg : s.Refines f g) : s.Overrides f g := by
  obtain ⟨decl, owner, p, hdecl, howner, -, hsuper, hfound⟩ := hfg
  have hp := (mem_parents_iff howner).mpr (.inl hsuper)
  exact (h.finds (h.inRange.parents hp) hfound).overrides hdecl hp

/-! ### The base -/

/-- **One step towards the base of a function.**  What an interface leads to is the base; what the
super type leads to has the same base; and a function that overrides nothing is its own. -/
theorem Layered.baseFunctionFrom_cases (h : s.Layered objects)
    (hf : f.index < s.functions.size) :
    (∃ g, s.Implements f g ∧ ∀ n, s.baseFunctionFrom (n + 1) f = .ok g) ∨
    (∃ g, s.Refines f g ∧ ∀ n, s.baseFunctionFrom (n + 1) f = s.baseFunctionFrom n g) ∨
    (∀ g, ¬ s.Overrides f g) ∧ ∀ n, s.baseFunctionFrom (n + 1) f = .ok f := by
  obtain ⟨decl, hdecl, hdeclRange⟩ := h.exists_function hf
  obtain ⟨owner, howner, hrange⟩ := h.exists_type hdeclRange.owner
  obtain ⟨found, hfound, hsome, hnone⟩ := Lookup.exists_findSomeM?_ok fun i hi =>
    (h.findFunction (hrange.interfaces i hi) decl.name).imp fun _ hr => hr.1
  simp only [baseFunctionFrom, Lookup.bind_of_ok hdecl, Lookup.bind_of_ok howner,
    Lookup.bind_of_ok hfound]
  cases found with
  | some g =>
      obtain ⟨i, hi, heq⟩ := hsome g rfl
      exact .inl ⟨g, ⟨decl, owner, i, hdecl, howner, hi, heq⟩, fun _ => rfl⟩
  | none =>
      have hinterfaces : ∀ i ∈ owner.interfaces, s.Finds i decl.name none := fun i hi =>
        h.finds (hrange.interfaces i hi) (hnone rfl i hi)
      refine .inr ?_
      cases hsuper : owner.superType with
      | none =>
          exact .inr ⟨fun g => not_overrides hdecl
            (.parents howner hinterfaces (by simp [hsuper])), fun _ => rfl⟩
      | some q =>
          have hq := hrange.superType q hsuper
          obtain ⟨r, hr, hfinds⟩ := h.findFunction hq decl.name
          simp only [h.climb hq (h.within hq), Lookup.bind_of_ok hr]
          cases r with
          | some g => exact .inl ⟨g, ⟨decl, owner, q, hdecl, howner, hnone rfl, hsuper, hr⟩,
              fun _ => rfl⟩
          | none =>
              exact .inr ⟨fun g => not_overrides hdecl
                (.parents howner hinterfaces (by simpa [hsuper] using hfinds)), fun _ => rfl⟩

/-- The owner of what is overridden is further up. -/
theorem Overrides.within (h : s.Layered objects) (hfg : s.Overrides f g)
    (hwithin : ∀ decl, s.function f = .ok decl → Within s.parents (n + 1) decl.owner) :
    ∀ decl, s.function g = .ok decl → Within s.parents n decl.owner := by
  intro decl hdecl
  obtain ⟨fdecl, u, hfdecl, hu, hdeclares⟩ := hfg
  obtain ⟨_, hfound, rfl, -⟩ := hdeclares.owner_eq h
  obtain rfl := Except.ok.inj (hdecl.symm.trans hfound)
  obtain ⟨p, hp, hreach⟩ := Relation.TransGen.head'_iff.mp hu
  exact (hwithin fdecl hfdecl p hp).reaches hreach

theorem Layered.within_owner (h : s.Layered objects) {decl : FunctionDecl}
    (hdecl : s.function f = .ok decl) : Within s.parents s.height decl.owner :=
  h.within (h.inRange.functions decl (mem_functions hdecl)).owner

/-- **The base of a function.**  It lies at the end of a walk over what super types lead to: the
last one implements it, or is the base itself and overrides nothing. -/
theorem Layered.baseFunctionFrom (h : s.Layered objects) (hf : f.index < s.functions.size)
    (hwithin : ∀ decl, s.function f = .ok decl → Within s.parents n decl.owner) :
    ∃ last g, Relation.ReflTransGen s.Refines f last ∧
      (s.Implements last g ∨ g = last ∧ ∀ k, ¬ s.Overrides last k) ∧
      ∀ m, s.baseFunctionFrom (n + m) f = .ok g := by
  induction n generalizing f with
  | zero =>
      obtain ⟨decl, hdecl, -⟩ := h.exists_function hf
      exact (hwithin decl hdecl).elim
  | succ n ih =>
      have hfuel : ∀ m, n + 1 + m = n + m + 1 := fun m => by omega
      simp only [hfuel]
      rcases h.baseFunctionFrom_cases hf with ⟨g, hg, hbase⟩ | ⟨k, hk, hbase⟩ | ⟨hnone, hbase⟩
      · exact ⟨f, g, .refl, .inl hg, fun m => hbase _⟩
      · have hover := hk.overrides h
        obtain ⟨last, g, hwalk, hlast, hrest⟩ :=
          ih (hover.index_lt h) (hover.within h hwithin)
        exact ⟨last, g, .head hk hwalk, hlast, fun m => (hbase _).trans (hrest m)⟩
      · exact ⟨f, f, .refl, .inr ⟨rfl, hnone⟩, fun m => hbase _⟩

theorem Layered.exists_base (h : s.Layered objects) (hf : f.index < s.functions.size) :
    ∃ last g, Relation.ReflTransGen s.Refines f last ∧
      (s.Implements last g ∨ g = last ∧ ∀ k, ¬ s.Overrides last k) ∧ s.baseFunction f = .ok g := by
  obtain ⟨last, g, hwalk, hlast, hbase⟩ :=
    h.baseFunctionFrom hf fun _ hdecl => h.within_owner hdecl
  exact ⟨last, g, hwalk, hlast, hbase 0⟩

theorem Refines.not_implements (hk : s.Refines f k) : ¬ s.Implements f g := by
  rintro ⟨decl, owner, i, hdecl, howner, hi, hfound⟩
  obtain ⟨_, _, _, hdecl', howner', hnone, -⟩ := hk
  obtain rfl := Except.ok.inj (hdecl.symm.trans hdecl')
  obtain rfl := Except.ok.inj (howner.symm.trans howner')
  cases hfound.symm.trans (hnone i hi)

theorem Refines.unique (hg : s.Refines f g) (hk : s.Refines f k) : g = k := by
  obtain ⟨decl, owner, p, hdecl, howner, -, hsuper, hfound⟩ := hg
  obtain ⟨_, _, _, hdecl', howner', -, hsuper', hfound'⟩ := hk
  obtain rfl := Except.ok.inj (hdecl.symm.trans hdecl')
  obtain rfl := Except.ok.inj (howner.symm.trans howner')
  obtain rfl := Option.some.inj (hsuper.symm.trans hsuper')
  exact Option.some.inj (Except.ok.inj (hfound.symm.trans hfound'))

/-- What a super type leads to has the same base. -/
theorem Refines.baseFunction_eq (h : s.Layered objects) (hk : s.Refines f k) :
    s.baseFunction k = s.baseFunction f := by
  have hover := hk.overrides h
  obtain ⟨_, _, _, hdecl, -⟩ := id hk
  rcases h.baseFunctionFrom_cases (index_lt_of_function hdecl) with
    ⟨g, hg, -⟩ | ⟨k', hk', hbase⟩ | ⟨hnone, -⟩
  · exact absurd hg hk.not_implements
  · obtain rfl := hk.unique hk'
    -- One step less is enough for the owner further up.
    obtain ⟨-, g, -, -, hrest⟩ := h.baseFunctionFrom (hover.index_lt h)
      (hover.within h fun _ hdecl => h.within_owner hdecl)
    calc s.baseFunction k = .ok g := hrest 1
      _ = s.baseFunctionFrom s.types.size k := (hrest 0).symm
      _ = s.baseFunction f := (hbase _).symm
  · exact absurd hover (hnone k)

theorem baseFunction_eq_of_walk (h : s.Layered objects)
    (hwalk : Relation.ReflTransGen s.Refines f k) : s.baseFunction k = s.baseFunction f := by
  induction hwalk with
  | refl => rfl
  | tail _ hstep ih => exact (hstep.baseFunction_eq h).trans ih

theorem overrides_of_walk (h : s.Layered objects)
    (hwalk : Relation.ReflTransGen s.Refines f k) : k = f ∨ s.Overrides f k := by
  induction hwalk with
  | refl => exact .inl rfl
  | tail _ hstep ih =>
      rcases ih with rfl | hover
      · exact .inr (hstep.overrides h)
      · exact .inr (hover.trans h (hstep.overrides h))

/-- The base of a function is the function itself or one that it overrides. -/
theorem overrides_of_base (h : s.Layered objects) (hf : f.index < s.functions.size)
    (hbase : s.baseFunction f = .ok g) : g = f ∨ s.Overrides f g := by
  obtain ⟨last, g', hwalk, hlast, hg⟩ := h.exists_base hf
  obtain rfl := Except.ok.inj (hbase.symm.trans hg)
  have hover := overrides_of_walk h hwalk
  rcases hlast with himpl | ⟨rfl, -⟩
  · rcases hover with rfl | hover
    · exact .inr (himpl.overrides h)
    · exact .inr (hover.trans h (himpl.overrides h))
  · exact hover

theorem index_lt_of_base (h : s.Layered objects) (hf : f.index < s.functions.size)
    (hbase : s.baseFunction f = .ok g) : g.index < s.functions.size := by
  rcases overrides_of_base h hf hbase with rfl | hover
  · exact hf
  · exact hover.index_lt h

/-- A function is its own base if and only if it overrides nothing. -/
theorem baseFunction_eq_self_iff (h : s.Layered objects) (hf : f.index < s.functions.size) :
    s.baseFunction f = .ok f ↔ ∀ k, ¬ s.Overrides f k := by
  rcases h.baseFunctionFrom_cases hf with ⟨g, hg, hbase⟩ | ⟨k, hk, -⟩ | ⟨hnone, hbase⟩
  · refine ⟨fun hself => ?_, fun hnone => absurd (hg.overrides h) (hnone g)⟩
    obtain rfl := Except.ok.inj (hself.symm.trans (hbase _))
    exact absurd (hg.overrides h) (not_overrides_self h)
  · have hover := hk.overrides h
    refine ⟨fun hself => ?_, fun hnone => absurd hover (hnone k)⟩
    -- The base of what `f` overrides would be below it.
    rw [← hk.baseFunction_eq h] at hself
    rcases overrides_of_base h (hover.index_lt h) hself with rfl | hback
    · exact absurd hover (not_overrides_self h)
    · exact absurd (hover.trans h hback) (not_overrides_self h)
  · exact ⟨fun _ => hnone, fun _ => hbase _⟩

theorem Layered.isNativeEvent (h : s.Layered objects) (hf : f.index < s.functions.size) :
    ∃ answer, s.isNativeEvent f = .ok answer := by
  obtain ⟨-, g, -, -, hbase⟩ := h.exists_base hf
  obtain ⟨decl, hdecl, hrange⟩ := h.exists_function (index_lt_of_base h hf hbase)
  obtain ⟨owner, howner, -⟩ := h.exists_type hrange.owner
  rw [Schema.isNativeEvent, Lookup.bind_of_ok hbase, Lookup.bind_of_ok hdecl,
    Lookup.bind_of_ok howner]
  exact ⟨_, rfl⟩

/-- **The base of a function is a base itself if and only if it overrides nothing.**  Every function
`f` has a base `g`, which is `f` or one that `f` overrides.  The functions that `f` reaches by way
of super types share it.  Where `g` is its own base, `f` and `g` are native events or not alike;
where it is not, `g` is implemented by the last of them, for what an interface leads to is taken as
it is. -/
theorem base_is_base_iff (h : s.Layered objects) (hf : f.index < s.functions.size) :
    ∃ g, s.baseFunction f = .ok g ∧ (g = f ∨ s.Overrides f g) ∧
      (s.baseFunction g = .ok g ↔ ∀ k, ¬ s.Overrides g k) ∧
      (∀ k, Relation.ReflTransGen s.Refines f k → s.baseFunction k = .ok g) ∧
      (∃ answer, s.isNativeEvent f = .ok answer ∧
        (s.baseFunction g = .ok g → s.isNativeEvent g = .ok answer)) ∧
      (s.baseFunction g ≠ .ok g →
        ∃ last, Relation.ReflTransGen s.Refines f last ∧ s.Implements last g) := by
  obtain ⟨last, g, hwalk, hlast, hbase⟩ := h.exists_base hf
  obtain ⟨answer, hanswer⟩ := h.isNativeEvent hf
  have hiff := baseFunction_eq_self_iff h (index_lt_of_base h hf hbase)
  refine ⟨g, hbase, overrides_of_base h hf hbase, hiff,
    fun k hk => (baseFunction_eq_of_walk h hk).trans hbase,
    ⟨answer, hanswer, fun hself => ?_⟩, fun hself => ⟨last, hwalk, ?_⟩⟩
  · rw [← hanswer, Schema.isNativeEvent, Schema.isNativeEvent, hself, hbase]
  · rcases hlast with himpl | ⟨rfl, hnone⟩
    · exact himpl
    · exact absurd (hiff.mpr hnone) hself

/-! ### Interfaces that declare a function again -/

/-- A class with two interfaces, one above the other, which both declare its function. -/
def doorWorld : World :=
  (World.build [.addInterface "Base", .addInterface "Usable", .addClass "Door" none,
    .addClass "Gate" (some ⟨2⟩), .changeType ⟨1⟩ [.flags ⟨[.native]⟩, .interfaces [⟨0⟩]],
    .changeType ⟨2⟩ [.interfaces [⟨1⟩]],
    .addFunction ⟨0⟩ "Use", .addFunction ⟨1⟩ "Use", .addFunction ⟨2⟩ "Use",
    .addFunction ⟨3⟩ "Use"]).toOption.getD {}

/-- The gate's function refines the door's, and both have the base that the door implements. -/
theorem base_is_base_iff_gate :
    doorWorld.schema.Layered doorWorld.objects ∧
    doorWorld.schema.Refines ⟨3⟩ ⟨2⟩ ∧ doorWorld.schema.baseFunction ⟨3⟩ = .ok ⟨1⟩ ∧
    doorWorld.schema.baseFunction ⟨2⟩ = .ok ⟨1⟩ ∧
    (doorWorld.schema.baseFunction ⟨1⟩ ≠ .ok ⟨1⟩ → ∃ last,
      Relation.ReflTransGen doorWorld.schema.Refines ⟨3⟩ last ∧
        doorWorld.schema.Implements last ⟨1⟩) ∧
    doorWorld.schema.baseFunction ⟨0⟩ = .ok ⟨0⟩ ∧ ∀ k, ¬ doorWorld.schema.Overrides ⟨0⟩ k := by
  have hlayered : doorWorld.schema.Layered doorWorld.objects :=
    ⟨by decide +kernel, acyclic_parents (n := 4) (by decide +kernel), by decide +kernel⟩
  have hrefines : doorWorld.schema.Refines ⟨3⟩ ⟨2⟩ :=
    ⟨_, _, ⟨2⟩, rfl, rfl, List.forall_mem_nil _, rfl, rfl⟩
  obtain ⟨g, hbase, -, -, hwalk, -, hlast⟩ :=
    base_is_base_iff (f := ⟨3⟩) hlayered (by decide +kernel)
  obtain rfl : ⟨1⟩ = g := Except.ok.inj hbase
  obtain ⟨top, htop, -, hiff, -⟩ := base_is_base_iff (f := ⟨0⟩) hlayered (by decide +kernel)
  obtain rfl : ⟨0⟩ = top := Except.ok.inj htop
  exact ⟨hlayered, hrefines, hbase, hwalk ⟨2⟩ (.single hrefines), hlast, htop, hiff.mp htop⟩

/-- The base of the door's function has another base, and only one of the two is a native event. -/
theorem implemented_base_overrides :
    doorWorld.schema.baseFunction ⟨2⟩ = .ok ⟨1⟩ ∧ doorWorld.schema.baseFunction ⟨1⟩ = .ok ⟨0⟩ ∧
    doorWorld.schema.isNativeEvent ⟨2⟩ = .ok false ∧
    doorWorld.schema.isNativeEvent ⟨1⟩ = .ok true := by
  decide +kernel

end Schema
end GraphLowering
