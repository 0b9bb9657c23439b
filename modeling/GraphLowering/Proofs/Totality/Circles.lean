import GraphLowering.Proofs.Defaults.CreationOrder
import GraphLowering.Proofs.Totality.Defaults
import GraphLowering.World

/-!
# Totality — references in circles

Objects may refer to each other in circles, and so may the signatures of delegates.  Emission and
the walks for dependencies come to an end all the same: what an object needs is created once, and
each object and each signature is visited once.  Only super types, structs held by value and owners
must not lead back, for these are followed without a mark.

* `Grounded.emitObject`: emission of an object ends, whatever names are at hand.
* `length_created_le`: it creates no more objects than there are.
* `emission_and_walks_end`: so do constructors and walks.
-/

namespace GraphLowering

open Defaults

variable {cx : Context}

/-- Emission of an object comes to an end, whatever names are at hand. -/
theorem Grounded.emitObject {A : Prop} (h : Grounded A cx) {object : ObjectId}
    (ho : object.InRange cx.extent) {archetype : Option ObjectId}
    (ha : ∀ a ∈ archetype, a.InRange cx.extent) (root : String) (allowProtected : Bool) :
    Runs A (fun _ => True) (emitObject cx object archetype root allowProtected) fun _ _ => True :=
  (h.emitObjectWith h.emitSubobject_spawns ho ha _ allowProtected).imp (fun s _ => .all s)
    fun _ _ _ => trivial

/-- Each object that moves create is one of the store, and none is created twice. -/
theorem length_created_le {root : String} {s t : Defaults.State} (h : Moves cx root [] s t) :
    ∃ added, t.lines = s.lines ++ added ∧ (createdBy added).Nodup ∧
      (createdBy added).length ≤ cx.objects.objects.size := by
  obtain ⟨added, hlines, hfound⟩ := Moves.exists_lines h
  have hnodup := Moves.nodup_added h hlines
  have hsub : createdBy added ⊆ cx.objects.ids := fun o ho => by
    obtain ⟨record, hrecord⟩ := hfound o ho
    exact mem_objectIds (ObjectStore.index_lt hrecord)
  have hle := hnodup.length_le_of_subset hsub
  rw [ObjectStore.ids, List.length_map, List.length_range] at hle
  exact ⟨added, hlines, hnodup, hle⟩

/-- **Emission and walks end on every graph of objects.**  Super types, structs held by value and
owners do not lead back; values may refer to objects, and signatures to each other, in any way.
From any state the values of an object are emitted, and at most as many objects created on the way
as there are; a constructor is emitted; and the dependencies of a unit are found. -/
theorem emission_and_walks_end (hschema : cx.schema.InRange cx.extent)
    (hobjects : cx.objects.InRange cx.extent) (hunit : cx.unit.InRange cx.extent)
    (hsupers : Acyclic cx.schema.supers) (hparts : Acyclic cx.schema.parts)
    (howners : Acyclic cx.objects.owners) :
    (∀ (object : ObjectId) (archetype : Option ObjectId) (root : String) (allowProtected : Bool)
        (s : Defaults.State), object.InRange cx.extent →
        (∀ a ∈ archetype, a.InRange cx.extent) →
        ∃ added t, (emitObject cx object archetype root allowProtected).run s = (.ok (), t) ∧
          t.lines = s.lines ++ added ∧ (createdBy added).Nodup ∧
          (createdBy added).length ≤ cx.objects.objects.size) ∧
    (∀ s, ∃ constructor t, (emitConstructor cx).run s = (.ok constructor, t)) ∧
    ∀ u : ScriptUnit, u.InRange cx.extent → ∃ deps, gather cx u = .ok deps := by
  have h : Grounded True cx :=
    ⟨⟨hschema, hobjects, hunit, fun _ => howners⟩, fun _ => hsupers, fun _ => hparts⟩
  refine ⟨fun object archetype root allowProtected s ho ha => ?_, fun s => ?_, fun u hu => ?_⟩
  · obtain ⟨⟨⟩, hok, -⟩ := (h.emitObject ho ha root allowProtected s trivial).exists_ok trivial
    have hrun : (emitObject cx object archetype root allowProtected).run s = (.ok (), _) :=
      Prod.ext hok rfl
    obtain ⟨added, hadded⟩ := length_created_le (emitObject_trace hrun).moves
    exact ⟨added, _, hrun, hadded⟩
  · obtain ⟨constructor, hok, -⟩ := (h.emitConstructor s trivial).exists_ok trivial
    exact ⟨constructor, _, Prod.ext hok rfl⟩
  · obtain ⟨deps, hok, -⟩ := (h.gather hu).exists_ok trivial
    exact ⟨deps, hok⟩

/-- Two objects are each other's peers, a delegate takes itself, and two interfaces extend each
other. -/
def circleEdits : List Edit :=
  [.addClass "Hero" none, .addInterface "Left", .addInterface "Right",
    .changeType ⟨1⟩ [.interfaces [⟨2⟩]], .changeType ⟨2⟩ [.interfaces [⟨1⟩]],
    .changeType ⟨0⟩ [.interfaces [⟨1⟩], .defaultObject (some ⟨0⟩)],
    .addFunction ⟨0⟩ "OnHit", .addParam ⟨0⟩ "Next" (.delegate ⟨0⟩) {},
    .addField ⟨0⟩ "Peer" (.object ⟨0⟩), .addField ⟨0⟩ "Hit" (.delegate ⟨0⟩),
    .addObject "Default__Hero" ⟨0⟩ (.package "/Game"), .addObject "Fade" ⟨0⟩ (.type ⟨0⟩),
    .addObject "Glow" ⟨0⟩ (.type ⟨0⟩), .setValue ⟨0⟩ ⟨1⟩ (.object (some ⟨1⟩)),
    .setValue ⟨1⟩ ⟨1⟩ (.object (some ⟨2⟩)), .setValue ⟨2⟩ ⟨1⟩ (.object (some ⟨1⟩))]

def circleContext : Context := ((World.build circleEdits).toOption.getD {}).context ⟨0⟩

/-- The names at hand in the code of the class. -/
def circleStart : Defaults.State :=
  { names := { generated := some ⟨⟨0⟩, "GetClass()", Constructor.storeStatement⟩ } }

theorem emission_and_walks_end_circle :
    circleContext.schema.InRange circleContext.extent ∧
    circleContext.objects.InRange circleContext.extent ∧
    circleContext.unit.InRange circleContext.extent ∧ Acyclic circleContext.schema.supers ∧
    Acyclic circleContext.schema.parts ∧ Acyclic circleContext.objects.owners ∧
    (∃ added t, (emitObject circleContext ⟨0⟩ none "" true).run circleStart = (.ok (), t) ∧
      t.lines = added ∧ (createdBy added).length ≤ 3) ∧
    (∃ constructor t, (emitConstructor circleContext).run {} = (.ok constructor, t)) ∧
    ∃ deps, gather circleContext ⟨⟨0⟩, []⟩ = .ok deps := by
  have hschema : circleContext.schema.InRange circleContext.extent := by decide +kernel
  have hobjects : circleContext.objects.InRange circleContext.extent := by decide +kernel
  have hunit : circleContext.unit.InRange circleContext.extent := by decide +kernel
  have hsupers : Acyclic circleContext.schema.supers :=
    Schema.acyclic_supers (n := 3) (by decide +kernel)
  have hparts : Acyclic circleContext.schema.parts :=
    Schema.acyclic_parts (n := 3) (by decide +kernel)
  have howners : Acyclic circleContext.objects.owners :=
    ObjectStore.acyclic_owners (n := 3) (by decide +kernel)
  obtain ⟨hemit, hconstructor, hgather⟩ :=
    emission_and_walks_end hschema hobjects hunit hsupers hparts howners
  obtain ⟨added, t, hrun, hlines, -, hle⟩ :=
    hemit ⟨0⟩ none "" true circleStart (by decide +kernel) nofun
  exact ⟨hschema, hobjects, hunit, hsupers, hparts, howners, ⟨added, t, hrun, hlines, hle⟩,
    hconstructor {}, hgather ⟨⟨0⟩, []⟩ (by decide +kernel)⟩

/-- Both peers are created, the second for the sake of the first. -/
example : createdBy ((emitObject circleContext ⟨0⟩ none "" true).run circleStart).2.lines =
    [⟨1⟩, ⟨2⟩] := by decide +kernel

end GraphLowering
