import GraphLowering.Proofs.Dependencies.Confinement
import GraphLowering.Proofs.Totality.Literals

/-!
# Totality — dependencies

The walks that gather the dependencies of a unit stay among what is in range, which is closed.  So
they come to an end, and what they find is in range (`Rooted.gather`).
-/

namespace GraphLowering

open Collector

variable {A : Prop} {cx : Context}

def Dependency.InRange (d : Dependency) (e : Extent) : Prop :=
  match d with
  | .type id => id.InRange e
  | .object id => id.InRange e

/-- Everything that is in range. -/
def Extent.marks (e : Extent) : Marks := ⟨(·.InRange e), (·.InRange e), (·.InRange e)⟩

/-- What a value in range names is in range. -/
theorem Value.Mentions.inRange {e : Extent} {dep : Dependency} {v : Value} (h : v.Mentions dep)
    (hv : v.inRange e = true) : dep.InRange e := by
  induction h with
  | object h | softObject h | delegate h | classRef h | softClass h =>
      cases h
      simpa [Value.inRange, Dependency.InRange] using hv
  | struct h =>
      cases h
      exact (Value.inRange_struct.mp hv).1
  | member hmem _ ih => exact ih ((Value.inRange_struct.mp hv).2 _ hmem)
  | item hmem _ ih => exact ih (Value.inRange_array.mp hv _ hmem)

namespace Rooted

/-! ### What is in range -/

theorem covers (h : Rooted A cx) {t : TypeId} (ht : t.InRange cx.extent) :
    cx.extent.marks.Covers cx t := by
  obtain ⟨decl, hdecl, -⟩ := h.exists_type ht
  exact ⟨decl, hdecl, .inr ht⟩

theorem coversType (h : Rooted A cx) {t : ValueType} (ht : t.InRange cx.extent) :
    cx.extent.marks.CoversType cx t :=
  fun _ => ⟨fun sub hsub => h.covers (ht.subType sub hsub), ht.signature⟩

theorem coversField (h : Rooted A cx) {f : FieldId} (hf : f.InRange cx.extent) :
    cx.extent.marks.CoversField cx f := by
  obtain ⟨decl, hdecl, hrange⟩ := h.exists_field hf
  exact ⟨decl, hdecl, h.coversType hrange.type⟩

theorem follows (h : Rooted A cx) {v : Value} (hv : v.inRange cx.extent = true) :
    cx.extent.marks.Follows cx v := by
  intro dep hdep
  have hrange := hdep.inRange hv
  cases dep with
  | type t => exact h.covers hrange
  | object o => exact hrange

theorem stableName (h : Rooted A cx) {dep : Dependency} (hdep : dep.InRange cx.extent) :
    Ends A (dep.stableName cx) := by
  cases dep with
  | type id => exact .bind (h.type hdep) fun _ _ => .pure trivial
  | object id => exact h.pathName hdep

theorem isOwnedFrom (h : Rooted A cx) {defaultObject : Option ObjectId} {outer : Outer} {n : Nat}
    (houter : outer.InRange cx.extent)
    (hfuel : A → ∀ id, outer = .object id → Within cx.objects.owners n id) :
    Ends A (isOwnedFrom cx defaultObject n outer) := by
  induction n generalizing outer with
  | zero =>
      cases outer with
      | package _ | type _ => exact .pure trivial
      | object id => exact .endless fun a => hfuel a id rfl
  | succ n ih =>
      cases outer with
      | package _ | type _ => exact .pure trivial
      | object id =>
          unfold Collector.isOwnedFrom
          split
          · exact .pure trivial
          · refine .bind (h.object houter) fun record ⟨hrecord, hrange⟩ => ih hrange.outer ?_
            exact fun a next hnext => hfuel a id rfl next (mem_owners hrecord hnext)

theorem isOwnedByUnit (h : Rooted A cx) {record : ObjectRecord}
    (hrecord : record.InRange cx.extent) : Ends A (isOwnedByUnit cx record) := by
  refine .bind (h.type h.unit) fun _ _ => h.isOwnedFrom hrecord.outer fun a id hid => ?_
  have houter := hrecord.outer
  rw [hid] at houter
  exact h.within_owners houter a

/-- **What is in range asks for nothing that is not.** -/
theorem closed (h : Rooted A cx) :
    cx.extent.marks.Closed A cx ({} : Collector).marks where
  names _ hdep := h.stableName hdep
  signatures g hg := by
    obtain ⟨decl, hdecl, hrange⟩ := h.exists_function hg
    exact .inr ⟨decl, hdecl, fun p hp => h.coversField (hrange.params p hp)⟩
  objects o ho := by
    obtain ⟨record, hrecord, hrange⟩ := h.exists_object ho
    refine .inr ⟨record, hrecord, h.covers hrange.cls, ?_⟩
    refine (h.isOwnedByUnit hrange).imp fun owned _ => ⟨fun _ entry hentry => ?_, fun _ => ho⟩
    exact h.follows (hrange.values entry hentry)

/-! ### Units -/

theorem coversSurface (h : Rooted A cx) {unit : TypeDecl} (hunit : unit.InRange cx.extent) :
    cx.extent.marks.CoversSurface cx unit where
  superType t ht := h.covers (hunit.superType t ht)
  interfaces t ht := h.covers (hunit.interfaces t ht)
  fields f hf := h.coversField (hunit.fields f hf)
  functions := hunit.functions

theorem coversTerm (h : Rooted A cx) {g : FunctionGraph} {t : Term} (ht : t.InRange cx.extent g) :
    cx.extent.marks.CoversTerm cx t := by
  refine ⟨h.coversType ht.type, fun v hv => h.follows ?_⟩
  have hkind := ht.kind
  rwa [hv] at hkind

theorem coversGraph (h : Rooted A cx) {g : FunctionGraph} (hg : g.InRange cx.extent) :
    cx.extent.marks.CoversGraph cx g where
  locals l hl := h.coversType (hg.locals l hl)
  terms t ht := h.coversTerm (hg.terms t ht)
  callees s hs f hf := by
    obtain ⟨decl, hdecl, hrange⟩ := h.exists_function ((hg.statements s hs).function f hf)
    exact ⟨decl, hdecl, h.covers hrange.owner⟩

theorem addObjectValues (h : Rooted A cx) {id : ObjectId} (hid : id.InRange cx.extent) :
    Gathers A cx ({} : Collector).marks cx.extent.marks (addObjectValues cx id) := by
  obtain ⟨record, hrecord, hrange⟩ := h.exists_object hid
  exact h.closed.addObjectValuesWith (fun _ => h.closed.addObject) hid hrecord fun entry hentry =>
    h.follows (hrange.values entry hentry)

theorem addBodies (h : Rooted A cx) {u : ScriptUnit} {unit : TypeDecl} (hu : u.InRange cx.extent)
    (hunit : unit.InRange cx.extent) :
    Gathers A cx ({} : Collector).marks cx.extent.marks (addBodies cx u unit) := by
  refine .bind (.forM fun g hg => h.closed.addGraph (h.coversGraph (hu.functions g hg))) fun _ => ?_
  refine .bind (.forM fun id hid => h.addObjectValues (hunit.defaultObject id ?_)) fun _ => ?_
  · exact Option.mem_toList.mp hid
  refine .bind (.forM fun id hid => h.addObjectValues (hunit.ownedObjects id hid)) fun _ => ?_
  refine .forM fun d hd => .forM fun v hv => h.closed.addValue (h.follows ?_)
  exact (Value.inRange_struct.mp (hunit.structDefaults d (Option.mem_toList.mp hd))).2 v hv

/-- **The dependencies of a unit are gathered, and they are in range.** -/
theorem gather (h : Rooted A cx) {u : ScriptUnit} (hu : u.InRange cx.extent) :
    Answers A (gather cx u) fun d =>
      (∀ dep ∈ d.header, dep.InRange cx.extent) ∧
        ∀ dep ∈ d.implementation, dep.InRange cx.extent := by
  have hstart : Confined cx ({} : Collector).marks cx.extent.marks (cx.schema.functions.size + 1)
      cx.objects.height {} := .start (.refl _) ⟨nofun, nofun, nofun⟩
  have hfinish : ∀ {c : Collector}, c.marks.Sub cx.extent.marks → ∀ exclude,
      ∀ dep ∈ c.finish exclude, dep.InRange cx.extent :=
    fun hc exclude dep hdep => hc.listed dep (List.mem_of_mem_filter hdep)
  refine .bind (h.type hu.type) fun unit ⟨_, hunit⟩ => ?_
  refine .bind (h.closed.addSurface (h.coversSurface hunit) {} hstart) fun _ hsurface => ?_
  refine .bind (h.addBodies hu hunit {} hstart) fun _ hbodies => .pure ?_
  exact ⟨hfinish hsurface.within _, hfinish hbodies.within _⟩

end Rooted

theorem Grounded.includes (h : Grounded A cx) {deps : List Dependency}
    (hdeps : ∀ dep ∈ deps, dep.InRange cx.extent) : Ends A (Dependencies.includes cx deps) := by
  induction deps with
  | nil => exact .pure trivial
  | cons dep deps ih =>
      have hrest := ih fun dep hdep => hdeps dep (List.mem_cons_of_mem _ hdep)
      cases dep with
      | object _ => exact hrest
      | type id =>
          refine .bind (h.typeName (hdeps _ List.mem_cons_self)) fun _ _ => ?_
          exact .bind hrest fun _ _ => .pure trivial

end GraphLowering
