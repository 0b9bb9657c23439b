import GraphLowering.Proofs.Dependencies.Confinement
import GraphLowering.Proofs.Dependencies.Visits
import GraphLowering.Proofs.Rearrangement.Stores

/-!
# Rearrangement — dependencies

The walks that gather dependencies go over the values of an object in the order in which they stand.
What they come by, and so what they mark on the way, depends on that order; what they have marked in
the end does not.  After a step that comes to an end the marks are closed, and closed marks do not
depend on the order of values.  So the step with the values in another order stays within them, and
the other way round.

* `Marks.Closed.rearrange`: closed marks stay closed when values are rearranged.
* `Matches`, `Agree`: collectors with the same marks, and steps that lead from such to such.
* `Settles.agree`: a step that covers just what it is asked agrees with any other that does.
* `gather_of_rearranged`: under distinct names, the dependencies of a unit are the same.
-/

namespace GraphLowering

open Collector

/-- The context with other objects. -/
abbrev Context.withObjects (cx : Context) (s : ObjectStore) : Context := { cx with objects := s }

variable {A : Prop} {cx : Context} {s : ObjectStore} {before m : Marks}

/-! ### Closed marks -/

namespace ObjectStore.Rearranged

theorem stableName (h : cx.objects.Rearranged s) (dep : Dependency) :
    dep.stableName (cx.withObjects s) = dep.stableName cx := by
  cases dep with
  | type id => rfl
  | object id => exact congrFun (congrFun h.pathName cx.schema) id

theorem isOwnedFrom (h : cx.objects.Rearranged s) (defaultObject : Option ObjectId) (n : Nat)
    (outer : Outer) : isOwnedFrom (cx.withObjects s) defaultObject n outer =
      isOwnedFrom cx defaultObject n outer := by
  induction n generalizing outer with
  | zero => cases outer <;> rfl
  | succ n ih =>
      cases outer with
      | package _ | type _ => rfl
      | object o =>
          unfold Collector.isOwnedFrom
          split
          · rfl
          · exact h.object_bind o fun record _ _ _ => ih record.outer

/-- Whether an object belongs to the unit does not depend on the order of values, its own or those
of its owners. -/
theorem isOwnedByUnit (h : cx.objects.Rearranged s) (record : ObjectRecord)
    (values : List (FieldId × Value)) :
    isOwnedByUnit (cx.withObjects s) { record with values } = isOwnedByUnit cx record := by
  unfold Collector.isOwnedByUnit
  simp only [h.height, h.isOwnedFrom]

theorem namesDistinct (h : cx.objects.Rearranged s) (hnames : cx.NamesDistinct) :
    (cx.withObjects s).NamesDistinct := by
  intro d d' name hd hd'
  rw [h.stableName] at hd hd'
  exact hnames d d' name hd hd'

theorem recorded_iff (h : cx.objects.Rearranged s) {c : Collector} :
    c.Recorded (cx.withObjects s) ↔ c.Recorded cx := by
  constructor <;> intro hc <;> refine ⟨fun entry hentry => ?_, hc.ascending, hc.types, hc.plain⟩
  · rw [← h.stableName]
    exact hc.names entry hentry
  · rw [h.stableName]
    exact hc.names entry hentry

end ObjectStore.Rearranged

/-- What an object asks for does not depend on the order of its values. -/
theorem Marks.Explored.rearrange {o : ObjectId} (h : m.Explored cx A o)
    (hs : cx.objects.Rearranged s) : m.Explored (cx.withObjects s) A o := by
  obtain ⟨record, hrecord, hcls, howned⟩ := h
  rcases hs.object o with ⟨record', values, ho, ho', hperm, -⟩ | ⟨fault, ho, -⟩
  · rw [hrecord] at ho
    cases ho
    refine ⟨_, ho', hcls, ?_⟩
    rw [hs.isOwnedByUnit]
    refine howned.imp fun owned ⟨hvalues, hlisted⟩ => ⟨fun h entry hentry => ?_, hlisted⟩
    exact hvalues h entry (hperm.mem_iff.mpr hentry)
  · rw [hrecord] at ho
    cases ho

/-- **Closed marks stay closed when values are rearranged.** -/
theorem Marks.Closed.rearrange (h : m.Closed A cx before) (hs : cx.objects.Rearranged s) :
    m.Closed A (cx.withObjects s) before where
  names dep hdep := by
    rw [hs.stableName]
    exact h.names dep hdep
  signatures := h.signatures
  objects o ho := (h.objects o ho).imp_right fun ho => ho.rearrange hs

namespace Collector

/-! ### Collectors with the same marks -/

/-- The collectors have the same marks. -/
structure Matches (cx : Context) (c c' : Collector) : Prop where
  recorded : c.Recorded cx
  recorded' : c'.Recorded cx
  sub : c.marks.Sub c'.marks
  sub' : c'.marks.Sub c.marks

namespace Matches

variable {c c' : Collector}

theorem empty : Matches cx {} {} := ⟨.empty, .empty, .refl _, .refl _⟩

theorem symm (h : Matches cx c c') : Matches cx c' c := ⟨h.recorded', h.recorded, h.sub', h.sub⟩

theorem subset_found (h : Matches cx c c') : c.found ⊆ c'.found := by
  intro entry hentry
  obtain ⟨entry', hentry', heq⟩ :=
    List.mem_map.mp (h.sub.listed entry.2 (List.mem_map.mpr ⟨entry, hentry, rfl⟩))
  -- Both stand under the stable name of the same dependency.
  have hname := h.recorded'.names entry' hentry'
  rw [heq, h.recorded.names entry hentry] at hname
  rwa [Prod.ext (Except.ok.inj hname) heq.symm]

/-- **Collectors with the same marks have found the same, in the same order.** -/
theorem found_eq (h : Matches cx c c') : c.found = c'.found := by
  have hirrefl : Std.Irrefl fun e e' : String × Dependency => e.1 < e'.1 :=
    ⟨fun e => String.lt_irrefl e.1⟩
  have hperm : c.found.Perm c'.found := by
    refine (List.perm_ext_iff_of_nodup h.recorded.ascending.nodup
      h.recorded'.ascending.nodup).mpr fun entry => ?_
    exact ⟨fun hentry => h.subset_found hentry, fun hentry => h.symm.subset_found hentry⟩
  refine hperm.eq_of_pairwise (fun e e' _ _ hlt hgt => ?_) h.recorded.ascending
    h.recorded'.ascending
  exact absurd (String.lt_trans hlt hgt) (String.lt_irrefl e.1)

theorem markObject (h : Matches cx c c') (o : ObjectId) :
    Matches cx { c with objects := o :: c.objects } { c' with objects := o :: c'.objects } where
  recorded := h.recorded.markObject o
  recorded' := h.recorded'.markObject o
  sub := ⟨h.sub.listed, h.sub.signatures, fun _ hp => List.cons_subset_cons o h.sub.objects hp⟩
  sub' := ⟨h.sub'.listed, h.sub'.signatures, fun _ hp => List.cons_subset_cons o h.sub'.objects hp⟩

end Matches

/-- If the first step comes to an end, so does the second, with the same marks. -/
def Agree (cx : Context) (x x' : Collect Unit) : Prop :=
  ∀ c c' d, Matches cx c c' → x.run c = .ok ((), d) →
    ∃ d', x'.run c' = .ok ((), d') ∧ Matches cx d d'

namespace Agree

variable {x x' y y' : Collect Unit}

theorem bind (hx : Agree cx x x') (hy : Agree cx y y') :
    Agree cx (x >>= fun _ => y) (x' >>= fun _ => y') := by
  intro c c' e hc hrun
  obtain ⟨_, d, hxs, hys⟩ := run_bind_ok hrun
  obtain ⟨d', hxs', hd⟩ := hx c c' d hc hxs
  obtain ⟨e', hys', he⟩ := hy d d' e hd hys
  refine ⟨e', ?_, he⟩
  rw [StateT.run_bind, hxs']
  exact hys'

theorem forM {α : Type} {xs : List α} {f f' : α → Collect Unit}
    (hf : ∀ x ∈ xs, Agree cx (f x) (f' x)) : Agree cx (xs.forM f) (xs.forM f') := by
  induction xs with
  | nil =>
      intro c c' d hc hrun
      cases hrun
      exact ⟨c', rfl, hc⟩
  | cons x xs ih =>
      exact .bind (hf x List.mem_cons_self) (ih fun x hx => hf x (List.mem_cons_of_mem _ hx))

end Agree

/-! ### Steps -/

/-- Afterwards the marks have `D`; and in closed marks that have it, the step stays within them. -/
structure Settles (cx : Context) (x : Collect Unit) (D : Marks → Prop) : Prop where
  walks : Walks cx (fun _ => False) x D
  stays : ∀ before m : Marks, m.Closed True cx before → D m → Gathers True cx before m x

namespace Settles

variable {x x' : Collect Unit} {D D' : Marks → Prop} {c c' d : Collector}

theorem exists_run (hx : Settles cx x D) (hx' : Settles (cx.withObjects s) x' D')
    (hD : ∀ m, D m → D' m) (hs : cx.objects.Rearranged s) (hc : Matches cx c c')
    (hrun : x.run c = .ok ((), d)) :
    ∃ d', x'.run c' = .ok ((), d') ∧ d.Recorded cx ∧ d'.marks.Sub d.marks := by
  obtain ⟨hd, hwalked, hmarks⟩ := hx.walks c () d hc.recorded hrun
  have hclosed := (hwalked.closed hd).rearrange hs
  obtain ⟨⟨_, d'⟩, hrun', hconfined⟩ := (hx'.stays _ _ hclosed (hD _ hmarks) c'
    (.start hc.sub (hc.sub'.trans hwalked.sub))).exists_ok trivial
  exact ⟨d', hrun', hd, hconfined.within⟩

/-- **Steps that ask for the same agree**, whatever the order of values. -/
theorem agree (hx : Settles cx x D) (hx' : Settles (cx.withObjects s) x' D')
    (hD : ∀ m, D m ↔ D' m) (hs : cx.objects.Rearranged s) : Agree cx x x' := by
  intro c c' d hc hrun
  obtain ⟨d', hrun', hd, hsub'⟩ := hx.exists_run hx' (fun m => (hD m).mp) hs hc hrun
  have hc' : Matches (cx.withObjects s) c' c :=
    ⟨hs.recorded_iff.mpr hc.recorded', hs.recorded_iff.mpr hc.recorded, hc.sub', hc.sub⟩
  -- The same the other way round leads back to where the first step ended.
  obtain ⟨d'', hrun'', hd', hsub⟩ :=
    hx'.exists_run (s := cx.objects) hx (fun m => (hD m).mpr) hs.symm hc' hrun'
  rw [hrun] at hrun''
  cases hrun''
  exact ⟨d', hrun', hd, hs.recorded_iff.mp hd', hsub, hsub'⟩

end Settles

section

variable (hnames : cx.NamesDistinct)

include hnames

theorem addSurface_settles (unit : TypeDecl) :
    Settles cx (addSurface cx unit) (·.CoversSurface cx unit) :=
  ⟨addSurface_walks hnames unit, fun _ _ h hD => h.addSurface hD⟩

theorem addGraph_settles (g : FunctionGraph) :
    Settles cx (addGraph cx g) (·.CoversGraph cx g) :=
  ⟨addGraph_walks hnames g, fun _ _ h hD => h.addGraph hD⟩

theorem addValue_settles (v : Value) : Settles cx (addValue cx v) (·.Follows cx v) :=
  ⟨addValue_walks hnames v, fun _ _ h hD => h.addValue hD⟩

theorem addValues_settles (vs : List Value) :
    Settles cx (addValuesWith cx (addObject cx) vs) fun m => ∀ v ∈ vs, m.Follows cx v :=
  ⟨addValuesWith_walks hnames (addObjectFrom_walks hnames _) vs,
    fun _ _ h hD => h.addValuesWith (fun _ => h.addObject) vs hD⟩

/-! ### Units -/

/-- The values of an object where a walk starts are followed, in either order. -/
theorem addObjectValues_agree (hs : cx.objects.Rearranged s) (o : ObjectId) :
    Agree cx (addObjectValues cx o) (addObjectValues (cx.withObjects s) o) := by
  intro c c' d hc hrun
  obtain ⟨_, _, hmark, hrun⟩ := run_bind_ok hrun
  cases hmark
  obtain ⟨record, hrecord, hrun⟩ := run_liftBind_ok hrun
  rcases hs.object o with ⟨record', values, ho, ho', hperm, -⟩ | ⟨fault, ho, -⟩
  · rw [hrecord] at ho
    cases ho
    have hvalues : ∀ m : Marks, (∀ v ∈ record.values.map (·.2), m.Follows cx v) ↔
        ∀ v ∈ values.map (·.2), m.Follows (cx.withObjects s) v :=
      fun m => forall_congr' fun v => imp_congr_left (hperm.map (·.2)).mem_iff
    obtain ⟨d', hrun', hd⟩ := (addValues_settles hnames _).agree
      (addValues_settles (hs.namesDistinct hnames) _) hvalues hs _ _ d (hc.markObject o) hrun
    refine ⟨d', ?_, hd⟩
    unfold addObjectValues addObjectValuesWith
    rw [ho']
    exact hrun'
  · rw [hrecord] at ho
    cases ho

theorem addBodies_agree (hs : cx.objects.Rearranged s) (u : ScriptUnit) (unit : TypeDecl) :
    Agree cx (addBodies cx u unit) (addBodies (cx.withObjects s) u unit) := by
  have hnames' := hs.namesDistinct hnames
  refine .bind (.forM fun g _ => ?_) (.bind (.forM fun o _ => ?_) (.bind (.forM fun o _ => ?_)
    (.forM fun d _ => .forM fun v _ => ?_)))
  · refine (addGraph_settles hnames g).agree (addGraph_settles hnames' g) (fun m => ?_) hs
    exact ⟨fun h => ⟨h.locals, h.terms, h.callees⟩, fun h => ⟨h.locals, h.terms, h.callees⟩⟩
  · exact addObjectValues_agree hnames hs o
  · exact addObjectValues_agree hnames hs o
  · exact (addValue_settles hnames v).agree (addValue_settles hnames' v) (fun _ => Iff.rfl) hs

theorem addSurface_agree (hs : cx.objects.Rearranged s) (unit : TypeDecl) :
    Agree cx (addSurface cx unit) (addSurface (cx.withObjects s) unit) := by
  refine (addSurface_settles hnames unit).agree
    (addSurface_settles (hs.namesDistinct hnames) unit) (fun m => ?_) hs
  exact ⟨fun h => ⟨h.superType, h.interfaces, h.fields, h.functions⟩,
    fun h => ⟨h.superType, h.interfaces, h.fields, h.functions⟩⟩

end

theorem Matches.finish_eq {c c' : Collector} (h : Matches cx c c') (exclude : List Dependency) :
    c.finish exclude = c'.finish exclude := by
  unfold finish
  rw [h.found_eq]

end Collector

/-- **Under distinct names, the dependencies of a unit do not depend on the order of values.** -/
theorem gather_of_rearranged (hnames : cx.NamesDistinct) (hs : cx.objects.Rearranged s)
    {u : ScriptUnit} {deps : Dependencies} (h : gather cx u = .ok deps) :
    gather (cx.withObjects s) u = .ok deps := by
  obtain ⟨unit, hunit, h⟩ := Lookup.of_bind_ok h
  obtain ⟨⟨_, surface⟩, hsurface, h⟩ := Lookup.of_bind_ok h
  obtain ⟨⟨_, bodies⟩, hbodies, h⟩ := Lookup.of_bind_ok h
  obtain ⟨surface', hsurface', hheader⟩ :=
    addSurface_agree hnames hs unit {} {} surface .empty hsurface
  obtain ⟨bodies', hbodies', himplementation⟩ :=
    addBodies_agree hnames hs u unit {} {} bodies .empty hbodies
  rw [← h, gather, Lookup.bind_of_ok hunit, Lookup.bind_of_ok hsurface']
  dsimp only
  rw [Lookup.bind_of_ok hbodies', hheader.finish_eq, himplementation.finish_eq]

end GraphLowering
