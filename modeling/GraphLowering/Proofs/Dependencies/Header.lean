import GraphLowering.Proofs.Dependencies.Visits
import GraphLowering.Proofs.Totality.Dependencies
import GraphLowering.World

/-!
# Dependencies — the header of a unit

The header of a unit includes what its declaration shows: the super type, the interfaces, and the
types of its fields and of the parameters of its functions, followed through the signatures of
delegates.

* `Schema.Shows`, `Schema.OnSurface`: the types that a declaration shows, and those that it names by
  them.
* `Marks.Closed.coversType_of_shows`: closed marks that cover a declaration cover what it shows.
* `surfaceMarks_closed`: what a declaration shows is closed, once there are marks that cover it.
* `header_is_surface`: the header lists exactly the surface, and the implementation nothing that the
  header has.
-/

namespace GraphLowering

open Collector

variable {A : Prop} {cx : Context} {m : Marks} {unit : TypeDecl} {t : ValueType} {g : FunctionId}

/-! ### The surface -/

/-- The function has a parameter of this type. -/
def Schema.HasParam (s : Schema) (g : FunctionId) (t : ValueType) : Prop :=
  ∃ decl p field, s.function g = .ok decl ∧ p ∈ decl.params ∧ s.field p = .ok field ∧
    field.type = t

/-- The types of fields and parameters, and on through the signatures of delegates.  A type that is
the unit's own is not followed. -/
inductive Schema.Shows (s : Schema) (unit : TypeDecl) : ValueType → Prop
  | field {f : FieldId} {decl : FieldDecl} (hf : f ∈ unit.fields) (hdecl : s.field f = .ok decl) :
      Shows s unit decl.type
  | param {g : FunctionId} {t : ValueType} (hg : g ∈ unit.functions) (ht : s.HasParam g t) :
      Shows s unit t
  | follow {t t' : ValueType} {g : FunctionId} (h : Shows s unit t) (hself : t.isSelf = false)
      (hg : t.signature = some g) (ht : s.HasParam g t') : Shows s unit t'

/-- The super type, an interface, or a type named by one that is shown and is not the unit's own. -/
inductive Schema.OnSurface (s : Schema) (unit : TypeDecl) : TypeId → Prop
  | superType {id : TypeId} (h : unit.superType = some id) : OnSurface s unit id
  | interface {id : TypeId} (h : id ∈ unit.interfaces) : OnSurface s unit id
  | shown {t : ValueType} {id : TypeId} (h : Shows s unit t) (hself : t.isSelf = false)
      (hid : t.subType = some id) : OnSurface s unit id

/-- The surface, with the signatures that lead there. -/
def Schema.surfaceMarks (s : Schema) (unit : TypeDecl) : Marks where
  listed dep := ∃ id, dep = .type id ∧ s.OnSurface unit id
  signatures g := g ∈ unit.functions ∨
    ∃ t, s.Shows unit t ∧ t.isSelf = false ∧ t.signature = some g
  objects _ := False

/-! ### Marks that cover it -/

namespace Marks.Closed

theorem coversType_of_hasParam (h : m.Closed A cx ({} : Collector).marks) (hg : m.signatures g)
    (ht : cx.schema.HasParam g t) : m.CoversType cx t := by
  obtain ⟨decl, hdecl, hparams⟩ := (h.signatures g hg).resolve_left List.not_mem_nil
  obtain ⟨decl', p, field, hdecl', hp, hfield, rfl⟩ := ht
  cases hdecl.symm.trans hdecl'
  obtain ⟨field', hfield', htype⟩ := hparams p hp
  cases hfield.symm.trans hfield'
  exact htype

/-- **Closed marks that cover a declaration cover what it shows**, through any number of
signatures. -/
theorem coversType_of_shows (h : m.Closed A cx ({} : Collector).marks)
    (hunit : m.CoversSurface cx unit) (ht : cx.schema.Shows unit t) : m.CoversType cx t := by
  induction ht with
  | field hf hdecl =>
      obtain ⟨decl', hdecl', htype⟩ := hunit.fields _ hf
      cases hdecl.symm.trans hdecl'
      exact htype
  | param hg ht => exact h.coversType_of_hasParam (hunit.functions _ hg) ht
  | follow _ hself hg ht ih => exact h.coversType_of_hasParam ((ih hself).2 _ hg) ht

theorem covers_of_onSurface (h : m.Closed A cx ({} : Collector).marks)
    (hunit : m.CoversSurface cx unit) {id : TypeId} (hid : cx.schema.OnSurface unit id) :
    m.Covers cx id := by
  cases hid with
  | superType hid => exact hunit.superType id hid
  | interface hid => exact hunit.interfaces id hid
  | shown ht hself hid => exact (h.coversType_of_shows hunit ht hself).1 id hid

/-- Marks that cover a declaration have visited every signature that leads to its surface. -/
theorem signatures_of_surface (h : m.Closed A cx ({} : Collector).marks)
    (hunit : m.CoversSurface cx unit) (hg : (cx.schema.surfaceMarks unit).signatures g) :
    m.signatures g := by
  rcases hg with hg | ⟨t, ht, hself, hg⟩
  · exact hunit.functions g hg
  · exact (h.coversType_of_shows hunit ht hself).2 g hg

end Marks.Closed

/-! ### The surface is closed -/

section

variable (h : m.Closed A cx ({} : Collector).marks) (hunit : m.CoversSurface cx unit)

include h hunit

/-- Look-ups on the surface succeed where they do for marks that cover it. -/
theorem surfaceMarks_covers {id : TypeId} (hid : cx.schema.OnSurface unit id) :
    (cx.schema.surfaceMarks unit).Covers cx id := by
  obtain ⟨decl, hdecl, -⟩ := h.covers_of_onSurface hunit hid
  exact ⟨decl, hdecl, .inr ⟨id, rfl, hid⟩⟩

theorem surfaceMarks_coversType (ht : cx.schema.Shows unit t) :
    (cx.schema.surfaceMarks unit).CoversType cx t := by
  intro hself
  refine ⟨fun id hid => ?_, fun g hg => .inr ⟨t, ht, hself, hg⟩⟩
  exact surfaceMarks_covers h hunit (.shown ht hself hid)

theorem surfaceMarks_coversSurface : (cx.schema.surfaceMarks unit).CoversSurface cx unit where
  superType _ hid := surfaceMarks_covers h hunit (.superType hid)
  interfaces _ hid := surfaceMarks_covers h hunit (.interface hid)
  fields f hf := by
    obtain ⟨decl, hdecl, -⟩ := hunit.fields f hf
    exact ⟨decl, hdecl, surfaceMarks_coversType h hunit (.field hf hdecl)⟩
  functions _ hg := .inl hg

/-- **What a declaration shows asks for nothing else**, once there are marks that cover it. -/
theorem surfaceMarks_closed :
    (cx.schema.surfaceMarks unit).Closed A cx ({} : Collector).marks where
  names dep hdep := by
    obtain ⟨id, rfl, hid⟩ := hdep
    obtain ⟨decl, hdecl, -⟩ := h.covers_of_onSurface hunit hid
    exact .bind (Answers.of_eq (Q := fun _ => True) hdecl trivial) fun _ _ => .pure trivial
  signatures g hg := by
    have hvisited := h.signatures_of_surface hunit hg
    obtain ⟨decl, hdecl, hparams⟩ := (h.signatures g hvisited).resolve_left List.not_mem_nil
    refine .inr ⟨decl, hdecl, fun p hp => ?_⟩
    obtain ⟨field, hfield, -⟩ := hparams p hp
    have hparam : cx.schema.HasParam g field.type := ⟨decl, p, field, hdecl, hp, hfield, rfl⟩
    refine ⟨field, hfield, surfaceMarks_coversType h hunit ?_⟩
    rcases hg with hg | ⟨t, ht, hself, hg⟩
    · exact .param hg hparam
    · exact .follow ht hself hg hparam
  objects _ ho := ho.elim

end

/-- **A walk over a declaration lists its surface**, apart from engine structs. -/
theorem listed_iff_onSurface (hnames : cx.NamesDistinct) {c : Collector}
    (hrun : (addSurface cx unit).run {} = .ok ((), c)) (dep : Dependency) :
    c.marks.listed dep ↔ ∃ id decl, dep = .type id ∧ cx.schema.type id = .ok decl ∧
      decl.wellKnown = none ∧ cx.schema.OnSurface unit id := by
  obtain ⟨hc, hwalked, hcovers⟩ := addSurface_walks hnames unit _ _ _ .empty hrun
  have hclosed := hwalked.closed hc
  constructor
  · intro hdep
    -- The walk is confined to the surface.
    have hstay := (surfaceMarks_closed hclosed hcovers).addSurface
      (surfaceMarks_coversSurface hclosed hcovers) {} (.start (.refl _) ⟨nofun, nofun, nofun⟩)
    rw [hrun] at hstay
    obtain ⟨id, rfl, hid⟩ := hstay.within.listed dep hdep
    obtain ⟨decl, hdecl, -⟩ := hclosed.covers_of_onSurface hcovers hid
    exact ⟨id, decl, rfl, hdecl, hc.plain id ((hc.types id).mpr hdep) decl hdecl, hid⟩
  · rintro ⟨id, decl, rfl, hdecl, hplain, hid⟩
    obtain ⟨decl', hdecl', hknown⟩ := hclosed.covers_of_onSurface hcovers hid
    cases hdecl.symm.trans hdecl'
    exact hknown.resolve_left fun hknown => by simp [hplain] at hknown

/-! ### The order of names -/

/-- The dependencies have stable names, in ascending order. -/
def Dependency.Ascending (cx : Context) (deps : List Dependency) : Prop :=
  ∃ names, deps.mapM (Dependency.stableName cx) = .ok names ∧ names.Pairwise (· < ·)

theorem mapM_stableName {entries : List (String × Dependency)}
    (h : ∀ entry ∈ entries, entry.2.stableName cx = .ok entry.1) :
    (entries.map (·.2)).mapM (Dependency.stableName cx) = .ok (entries.map (·.1)) := by
  induction entries with
  | nil => rfl
  | cons entry entries ih =>
      obtain ⟨hentry, hentries⟩ := List.forall_mem_cons.mp h
      rw [List.map_cons, List.mapM_cons, hentry, Lookup.bind_of_ok rfl,
        Lookup.bind_of_ok (ih hentries)]
      rfl

/-- What is left of the entries stays in the order of names. -/
theorem Collector.Recorded.ascending_finish {c : Collector} (h : c.Recorded cx)
    (exclude : List Dependency) : Dependency.Ascending cx (c.finish exclude) := by
  rw [finish, List.filter_map]
  refine ⟨_, mapM_stableName fun entry hentry => ?_, ?_⟩
  · exact h.names entry (List.mem_of_mem_filter hentry)
  · exact List.pairwise_map.mpr (h.ascending.filter _)

/-! ### Units -/

/-- **The header lists exactly the surface of the unit**, without the unit itself and without engine
structs, in the order of names.  The implementation is in order too, and has neither of these nor
anything of the header.  If every id is in range and owners do not lead back, both are gathered. -/
theorem header_is_surface (hnames : cx.NamesDistinct) (u : ScriptUnit) :
    (∀ deps, gather cx u = .ok deps → ∃ unit, cx.schema.type u.type = .ok unit ∧
      Dependency.Ascending cx deps.header ∧
      (∀ dep, dep ∈ deps.header ↔ ∃ id decl, dep = .type id ∧ id ≠ u.type ∧
        cx.schema.type id = .ok decl ∧ decl.wellKnown = none ∧ cx.schema.OnSurface unit id) ∧
      Dependency.Ascending cx deps.implementation ∧
      ∀ dep ∈ deps.implementation, dep ≠ .type u.type ∧ dep ∉ deps.header ∧
        ∀ id decl, dep = .type id → cx.schema.type id = .ok decl → decl.wellKnown = none) ∧
    (cx.schema.InRange cx.extent → cx.objects.InRange cx.extent → cx.unit.InRange cx.extent →
      u.InRange cx.extent → Acyclic cx.objects.owners → ∃ deps, gather cx u = .ok deps) := by
  refine ⟨fun deps hdeps => ?_, fun hschema hobjects hunit hu howners => ?_⟩
  · obtain ⟨unit, surface, bodies, hunit, hsurface, hbodies, hheader, himplementation⟩ :=
      gather_run hdeps
    obtain ⟨hs, -, -⟩ := addSurface_walks (R := fun _ => False) hnames unit _ _ _ .empty hsurface
    obtain ⟨hb, -, -⟩ := addBodies_walks hnames u unit _ _ _ .empty hbodies
    refine ⟨unit, hunit, hheader ▸ hs.ascending_finish _, fun dep => ?_,
      himplementation ▸ hb.ascending_finish _, fun dep hdep => ?_⟩
    · rw [hheader, mem_finish, listed_iff_onSurface hnames hsurface]
      constructor
      · rintro ⟨⟨id, decl, rfl, hdecl, hplain, hid⟩, hself⟩
        exact ⟨id, decl, rfl, by simpa using hself, hdecl, hplain, hid⟩
      · rintro ⟨id, decl, rfl, hself, hdecl, hplain, hid⟩
        exact ⟨⟨id, decl, rfl, hdecl, hplain, hid⟩, by simpa using hself⟩
    · rw [himplementation, mem_finish, List.mem_cons, not_or] at hdep
      obtain ⟨hlisted, hself, hmem⟩ := hdep
      refine ⟨hself, hmem, ?_⟩
      rintro id decl rfl hdecl
      exact hb.plain id ((hb.types id).mpr hlisted) decl hdecl
  · have h : Rooted True cx := ⟨hschema, hobjects, hunit, fun _ => howners⟩
    obtain ⟨deps, hdeps, -⟩ := (h.gather hu).exists_ok trivial
    exact ⟨deps, hdeps⟩

/-- A hero with two delegates that take each other, the second of which takes a lamp; with a vector
and a field of its own type; and with the classes of a door, a lamp and itself in its defaults. -/
def lampEdits : List Edit :=
  [.addClass "Base" none, .addInterface "Switch", .addClass "Lamp" none, .addStruct "Vector",
    .addStruct "Glow", .addClass "Door" none, .addClass "Hero" (some ⟨0⟩),
    .changeType ⟨3⟩ [.wellKnown (some .vector)],
    .changeType ⟨6⟩ [.interfaces [⟨1⟩], .defaultObject (some ⟨0⟩)],
    .addFunction ⟨0⟩ "OnHit", .addFunction ⟨0⟩ "OnMiss", .addFunction ⟨6⟩ "Shine",
    .addParam ⟨0⟩ "Next" (.delegate ⟨1⟩) {}, .addParam ⟨1⟩ "Next" (.delegate ⟨0⟩) {},
    .addParam ⟨1⟩ "Lamp" (.object ⟨2⟩) {}, .addParam ⟨2⟩ "Glow" (.struct ⟨4⟩) {},
    .addField ⟨6⟩ "Hit" (.delegate ⟨0⟩), .addField ⟨6⟩ "Me" (.self ⟨6⟩),
    .addField ⟨6⟩ "Position" (.struct ⟨3⟩), .addField ⟨6⟩ "Kinds" (ValueType.classRef ⟨0⟩).array,
    .addObject "Default__Hero" ⟨6⟩ (.package "/Game"),
    .setValue ⟨0⟩ ⟨7⟩ (.array [.classRef (some ⟨5⟩), .classRef (some ⟨2⟩), .classRef (some ⟨6⟩)])]

def lampContext : Context := ((World.build lampEdits).toOption.getD {}).context ⟨6⟩

def lampUnit : TypeDecl := (lampContext.schema.type ⟨6⟩).toOption.getD default

example : gather lampContext ⟨⟨6⟩, []⟩ =
    .ok ⟨[.type ⟨0⟩, .type ⟨4⟩, .type ⟨2⟩, .type ⟨1⟩], [.type ⟨5⟩]⟩ := by decide +kernel

/-- The lamp is shown by the parameter of a delegate that a delegate takes. -/
theorem onSurface_lamp : lampContext.schema.OnSurface lampUnit ⟨2⟩ := by
  have hfield : ⟨4⟩ ∈ lampUnit.fields := by decide +kernel
  have hdecl : lampContext.schema.field ⟨4⟩ =
      .ok ((lampContext.schema.field ⟨4⟩).toOption.getD default) := rfl
  have hhit : lampContext.schema.Shows lampUnit (.delegate ⟨0⟩) := .field hfield hdecl
  have hmiss : lampContext.schema.Shows lampUnit (.delegate ⟨1⟩) :=
    .follow hhit rfl rfl ⟨_, ⟨0⟩, _, rfl, by decide +kernel, rfl, rfl⟩
  have hlamp : lampContext.schema.Shows lampUnit (.object ⟨2⟩) :=
    .follow hmiss rfl rfl ⟨_, ⟨2⟩, _, rfl, by decide +kernel, rfl, rfl⟩
  exact .shown hlamp rfl rfl

theorem header_is_surface_lamp :
    lampContext.NamesDistinct ∧ ∃ deps, gather lampContext ⟨⟨6⟩, []⟩ = .ok deps ∧
      Dependency.Ascending lampContext deps.header ∧ .type ⟨2⟩ ∈ deps.header ∧
      .type ⟨2⟩ ∉ deps.implementation ∧ .type ⟨6⟩ ∉ deps.header ∧
      .type ⟨6⟩ ∉ deps.implementation := by
  have hnames : lampContext.NamesDistinct := namesDistinct_of_forall (by decide +kernel)
  obtain ⟨hexact, htotal⟩ := header_is_surface hnames ⟨⟨6⟩, []⟩
  obtain ⟨deps, hdeps⟩ := htotal (by decide +kernel) (by decide +kernel) (by decide +kernel)
    (by decide +kernel) (ObjectStore.acyclic_owners (n := 1) (by decide +kernel))
  obtain ⟨unit, hunit, hascending, hheader, -, himplementation⟩ := hexact deps hdeps
  obtain rfl : lampUnit = unit := Except.ok.inj (rfl.trans hunit)
  have hlamp : .type ⟨2⟩ ∈ deps.header :=
    (hheader _).mpr ⟨⟨2⟩, _, rfl, by decide, rfl, rfl, onSurface_lamp⟩
  refine ⟨hnames, deps, hdeps, hascending, hlamp, fun hmem => ?_, fun hmem => ?_, fun hmem => ?_⟩
  · exact (himplementation _ hmem).2.1 hlamp
  · obtain ⟨id, -, heq, hself, -⟩ := (hheader _).mp hmem
    cases heq
    exact hself rfl
  · exact (himplementation _ hmem).1 rfl

end GraphLowering
