import GraphLowering.Proofs.Defaults.Includes
import GraphLowering.Proofs.Dependencies.Assets
import GraphLowering.Proofs.Dependencies.Header

/-!
# Defaults — the objects that constructors load

A constructor asks whether the owner of an object is at hand, and loads the object by its path if
not.  The walk over the defaults asks whether the whole chain of owners leads to the unit, and lists
the object if not.  The answers differ for an object that belongs to the unit through another one
which the constructor has not created by then.

* `AtHand`: what a constructor can refer to behind some of its lines.
* `Loading`: what is at hand along a run, and that what is loaded is not.
* `loaded_by_owner`: a loaded object is listed as an asset, or it is one of those on which the two
  differ.
-/

namespace GraphLowering.Defaults

open Collector

variable {cx : Context} {unit : TypeDecl} {o : ObjectId} {K : ObjectId → Prop} {base : Place}
  {ahead : List Line} {s t : State} {c : Constructor}

/-! ### Lines that load -/

/-- The line loads the object by its path. -/
def Line.Loads (o : ObjectId) : Line → Prop
  | .assign _ source | .append _ source => source.Loads o
  | .clear _ | .reserve _ _ | .create _ | .register _ _ _ => False

theorem Line.Loads.names {l : Line} (h : l.Loads o) : l.Names o := by
  cases l with
  | assign _ _ | append _ _ => exact h
  | clear _ | reserve _ _ | create _ | register _ _ _ => exact h.elim

/-- The text holds the expression that loads the object by its class and path. -/
def Fetches (cx : Context) (o : ObjectId) (text : String) : Prop :=
  ∃ record cls path before after, cx.objects.object o = .ok record ∧
    cx.schema.cppName record.cls = .ok cls ∧ cx.pathName o = .ok path ∧
    text = before ++ ("LoadObject<" ++ cls ++ ">(nullptr, " ++ Literal.engineText path ++ ")") ++
      after

theorem Source.Loads.fetches {source : Source} {n : LocalNames} (h : source.Loads o)
    (hspelled : source.Spelled cx n) (before after : String) :
    Fetches cx o (before ++ source.text ++ after) := by
  cases source with
  | object _ _ | structDefault _ _ => exact h.elim
  | literal type v text =>
      obtain ⟨hself, rfl⟩ := h
      obtain ⟨-, record, cls, path, hrecord, hcls, hpath, rfl⟩ := render_object hself hspelled
      exact ⟨record, cls, path, before, after, hrecord, hcls, hpath, rfl⟩

theorem StoresWithin.loads {n : LocalNames} {l : Line} (h : StoresWithin cx K base n l)
    (hl : l.Loads o) : Foreign cx n o ∧ Fetches cx o l.text := by
  cases h with
  | clear _ | reserve _ => exact hl.elim
  | @assign p source _ hs =>
      exact ⟨(hs.loads o hl).2, Source.Loads.fetches hl hs.spelled (p.text ++ " = ") ";"⟩
  | @append p source _ hs =>
      exact ⟨(hs.loads o hl).2, Source.Loads.fetches hl hs.spelled (p.text ++ ".Add(") ");"⟩

/-! ### At hand -/

/-- Behind the lines, the class, its default object and what the lines create are at hand. -/
def AtHand (cx : Context) (unit : TypeDecl) (ls : List Line) : Outer → Prop
  | .type t => t = cx.unit
  | .object p => unit.defaultObject = some p ∨ p ∈ createdBy ls
  | .package _ => False

/-- Neither the object nor its owner is at hand behind the lines. -/
def Absent (cx : Context) (unit : TypeDecl) (ls : List Line) (o : ObjectId) : Prop :=
  ¬ AtHand cx unit ls (.object o) ∧
    ∃ record, cx.objects.object o = .ok record ∧ ¬ AtHand cx unit ls record.outer

/-- While a constructor is emitted behind lines `ahead`: what is at hand has an expression, and each
object that a line loads, by its path, is absent behind the lines before. -/
structure Loading (cx : Context) (unit : TypeDecl) (ahead : List Line) (s : State) : Prop where
  generated : ∃ g, s.names.generated = some g ∧ g.cls = cx.unit
  atHand : ∀ p, AtHand cx unit (ahead ++ s.lines) (.object p) → (s.names.find? p).isSome
  loads : ∀ before l after, ahead ++ s.lines = before ++ l :: after →
    ∀ o, l.Loads o → Absent cx unit before o ∧ Fetches cx o l.text

namespace Loading

theorem isSome_owner? (h : Loading cx unit ahead s) {outer : Outer}
    (houter : AtHand cx unit (ahead ++ s.lines) outer) : (s.names.owner? outer).isSome := by
  obtain ⟨g, hg, hcls⟩ := h.generated
  refine LocalNames.isSome_owner? hg ?_
  cases outer with
  | package _ => exact houter.elim
  | type t => exact .inl (by rw [hcls, show t = cx.unit from houter])
  | object p => exact .inr ⟨p, rfl, h.atHand p houter⟩

theorem absent_of_foreign (h : Loading cx unit ahead s) (ho : Foreign cx s.names o) :
    Absent cx unit (ahead ++ s.lines) o := by
  obtain ⟨hnone, record, hrecord, howner⟩ := ho
  refine ⟨fun hat => ?_, record, hrecord, fun hat => ?_⟩
  · have hsome := h.atHand o hat
    rw [hnone] at hsome
    cases hsome
  · have hsome := h.isSome_owner? hat
    rw [howner] at hsome
    cases hsome

theorem withLine (h : Loading cx unit ahead s) {l : Line}
    (hl : StoresWithin cx K base s.names l) : Loading cx unit ahead (s.withLine l) where
  generated := h.generated
  atHand p hp := by
    refine h.atHand p (hp.imp id fun hp => ?_)
    rwa [createdBy_append, hl.stores.createdBy_withLine, ← createdBy_append] at hp
  loads := by
    have hall : ahead ++ (s.withLine l).lines = ahead ++ s.lines ++ [l] :=
      (List.append_assoc ..).symm
    rw [hall]
    refine forall_split_snoc h.loads fun o ho => ?_
    exact (hl.loads ho).imp h.absent_of_foreign id

theorem withCreation (h : Loading cx unit ahead s) (creation : Creation)
    (afterCreate : Option String) :
    Loading cx unit ahead (s.withCreation creation afterCreate) where
  generated := by
    rw [generated_withCreation]
    exact h.generated
  atHand p hp := by
    rw [find?_withCreation]
    split
    · rfl
    · rename_i hne
      refine h.atHand p (hp.imp id fun hp => ?_)
      rw [createdBy_append, createdBy_withCreation, ← List.append_assoc, ← createdBy_append] at hp
      exact (List.mem_append.mp hp).resolve_right fun hp => hne (List.mem_singleton.mp hp)
  loads := by
    rw [lines_withCreation, ← List.append_assoc]
    cases afterCreate with
    | none => exact forall_split_snoc h.loads fun o ho => ho.elim
    | some text =>
        have hcreate := forall_split_snoc (l := .create creation) h.loads fun o ho => ho.elim
        have hregister := forall_split_snoc
          (l := .register creation.object creation.localName text) hcreate fun o ho => ho.elim
        rwa [List.append_assoc] at hregister

end Loading

/-- **Along a trace, what is loaded is absent** behind the lines before. -/
theorem Trace.loading (h : Trace cx K base s t) (hs : Loading cx unit ahead s) :
    Loading cx unit ahead t := by
  induction h with
  | refl => exact hs
  | report p _ => exact ⟨hs.generated, hs.atHand, hs.loads⟩
  | store h => exact hs.withLine h
  | create _ _ _ _ ih => exact ih (hs.withCreation _ _)
  | trans _ _ ih ih' => exact ih' (ih hs)

theorem createAll_loading {os : List ObjectId} {unused : PUnit}
    (h : (createAll cx os).run s = (.ok unused, t)) (hs : Loading cx unit ahead s) :
    Loading cx unit ahead t := by
  induction os generalizing s with
  | nil =>
      cases h
      exact hs
  | cons o os ih =>
      obtain ⟨_, mid, hfirst, hrest⟩ := run_bind_ok h
      refine ih hrest ?_
      obtain ⟨record, -, ⟨-, rfl⟩ | ⟨owner, creation, -, -, htrace⟩⟩ :=
        discard_emitSubobject_run hfirst
      · exact hs
      · exact htrace.loading (hs.withCreation _ _)

theorem loading_start {parent : Option ObjectId} {sink : Sink} :
    Loading cx unit [] (constructorStart cx unit parent sink) where
  generated := ⟨_, generated_constructorNames cx unit parent, rfl⟩
  atHand p hp := by
    have hdefault : unit.defaultObject = some p := hp.resolve_right List.not_mem_nil
    have hnaming : Naming cx unit {} (constructorStart cx unit parent sink) := naming_start
    exact hnaming.default p hdefault
  loads before l after h := by simp [constructorStart] at h

/-- **What a constructor loads is absent** behind the lines before, those of its first block
included. -/
theorem ConstructorRun.loads {parent : Option ObjectId} {sink : Sink} {mid last : State}
    (h : ConstructorRun cx unit parent sink c mid last) :
    ∀ before l after, c.stored ++ c.instanceLines = before ++ l :: after →
      ∀ o, l.Loads o → Absent cx unit before o ∧ Fetches cx o l.text := by
  have hmid : Loading cx unit [] mid := createAll_loading h.owned loading_start
  have hstart : Loading cx unit mid.lines { mid with lines := [] } := by
    refine ⟨hmid.generated, fun p hp => hmid.atHand p ?_, ?_⟩
    · rwa [List.append_nil] at hp
    · rw [List.append_nil]
      exact hmid.loads
  rw [h.stored, h.instanceLines]
  exact (h.values.loading hstart).loads

/-! ### Listed -/

/-- The objects that a unit lists are those that the walk over its bodies and defaults has found. -/
theorem gather_tour {u : ScriptUnit} {deps : Dependencies} (hnames : cx.NamesDistinct)
    (hu : u.type = cx.unit) (hunit : cx.schema.type cx.unit = .ok unit)
    (h : gather cx u = .ok deps) : ∃ col, Tour cx unit col ∧ ListsAssets cx col ∧
      ∀ o, .object o ∈ deps.header ++ deps.implementation ↔ col.marks.listed (.object o) := by
  obtain ⟨unit', surface, bodies, hunit', hsurface, hbodies, hheader, himplementation⟩ :=
    gather_run h
  obtain rfl : unit' = unit := by
    rw [hu, hunit] at hunit'
    exact (Except.ok.inj hunit').symm
  obtain ⟨-, hwalked, hroots⟩ := addBodies_walks hnames u unit' _ _ _ .empty hbodies
  have hassets : ListsAssets cx bodies :=
    addBodies_keeps u unit' {} () bodies (fun o ho => by cases ho) hbodies
  refine ⟨bodies, ⟨hwalked, hroots⟩, hassets, fun o => ?_⟩
  -- The header lists types only.
  have hnone : .object o ∉ deps.header := by
    rw [hheader, mem_finish]
    rintro ⟨hlisted, -⟩
    obtain ⟨id, decl, hobject, -⟩ := (listed_iff_onSurface hnames hsurface _).mp hlisted
    cases hobject
  rw [List.mem_append, himplementation, mem_finish]
  constructor
  · rintro (hmem | ⟨hlisted, -⟩)
    · exact absurd hmem hnone
    · exact hlisted
  · intro hlisted
    refine .inr ⟨hlisted, fun hmem => ?_⟩
    rcases List.mem_cons.mp hmem with hmem | hmem
    · cases hmem
    · exact hnone hmem

/-- An object of the unit whose owner is not at hand belongs to another object. -/
theorem exists_owner_of_absent (hunit : cx.schema.type cx.unit = .ok unit) {ls : List Line}
    {record : ObjectRecord} (howner : ¬ AtHand cx unit ls record.outer)
    (howned : isOwnedByUnit cx record = .ok true) : ∃ p, record.outer = .object p := by
  unfold isOwnedByUnit at howned
  rw [Lookup.bind_of_ok hunit] at howned
  cases houter : record.outer with
  | object p => exact ⟨p, rfl⟩
  | package name =>
      rw [houter] at howned
      cases hheight : cx.objects.height <;> rw [hheight] at howned <;> cases howned
  | type t =>
      rw [houter] at howned howner
      have hne : ¬ t = cx.unit := howner
      cases hheight : cx.objects.height <;>
        simp [hheight, isOwnedFrom, hne, pure, Except.pure] at howned

/-- **What a constructor loads by its path, and what the unit lists.**  An object is loaded only if
neither the object nor its owner is at hand by then.  It is then listed, as an asset that does not
belong to the unit; or it belongs to the unit through another object, and is not listed.  Apart from
these there are only the objects that the unit lists as its own, and those reached through the
default of a field. -/
theorem loaded_by_owner {u : ScriptUnit} {deps : Dependencies} {before after : List Line} {l : Line}
    (hnames : cx.NamesDistinct) (hu : u.type = cx.unit)
    (hunit : cx.schema.type cx.unit = .ok unit) (hgather : gather cx u = .ok deps)
    (hrun : (emitConstructor cx).run s = (.ok c, t))
    (hlines : c.stored ++ c.instanceLines = before ++ l :: after) (hl : l.Loads o) :
    Fetches cx o l.text ∧
    ∃ record, cx.objects.object o = .ok record ∧ ¬ AtHand cx unit before (.object o) ∧
      ¬ AtHand cx unit before record.outer ∧
      ((.object o ∈ deps.header ++ deps.implementation ∧ isOwnedByUnit cx record = .ok false) ∨
        (.object o ∉ deps.header ++ deps.implementation ∧ isOwnedByUnit cx record = .ok true ∧
          ∃ p, record.outer = .object p) ∨
        o ∈ unit.ownedObjects ∨ FromDefault cx o) := by
  obtain ⟨parent, hparent⟩ := parentDefault?_of_run hunit hrun
  obtain ⟨mid, last, h⟩ := emitConstructor_run hunit hparent hrun
  obtain ⟨⟨hobject, record, hrecord, howner⟩, hfetches⟩ := h.loads before l after hlines o hl
  obtain ⟨col, htour, hassets, hlisted⟩ := gather_tour hnames hu hunit hgather
  refine ⟨hfetches, record, hrecord, hobject, howner, ?_⟩
  rw [hlisted]
  -- The default object is at hand all the time.
  have hroot : IsRoot unit o → o ∈ unit.ownedObjects :=
    fun hroot => hroot.resolve_left fun hdefault => hobject (.inl hdefault)
  have hmeets : Meets cx unit col o := by
    obtain ⟨hmid, hlast⟩ := h.naming hunit htour
    have hmem : l ∈ c.stored ++ c.instanceLines := by
      rw [hlines]
      exact List.mem_append_right _ List.mem_cons_self
    rw [h.stored, h.instanceLines] at hmem
    rcases List.mem_append.mp hmem with hmem | hmem
    · exact (hmid.named l hmem o hl.names).1
    · exact (hlast.named l hmem o hl.names).1
  rcases hmeets with ho | hmarked | hdefault
  · exact .inr (.inr (.inl (hroot ho)))
  · rcases (htour.walked.explored o hmarked).resolve_left List.not_mem_nil with ho | hexplored
    · exact .inr (.inr (.inl (hroot ho)))
    · obtain ⟨record', hrecord', -, hanswer⟩ := hexplored
      cases hrecord.symm.trans hrecord'
      obtain ⟨owned, howned, -, hasset⟩ := hanswer.exists_ok trivial
      cases owned with
      | false => exact .inl ⟨hasset rfl, howned⟩
      | true =>
          refine .inr (.inl ⟨fun hmem => ?_, howned, exists_owner_of_absent hunit howner howned⟩)
          obtain ⟨record', hrecord', hnot⟩ := hassets o hmem
          cases hrecord.symm.trans hrecord'
          cases howned.symm.trans hnot
  · exact .inr (.inr (.inr hdefault))

/-! ### A hero with a tip -/

/-- A class whose default object has a body, which has a tip; it refers to the tip, and to a cloth
from another package. -/
def tipEdits : List Edit :=
  [.addClass "Hero" none, .addClass "Part" none, .addField ⟨0⟩ "Tip" (.object ⟨1⟩),
    .addField ⟨0⟩ "Skin" (.object ⟨1⟩), .addObject "Default__Hero" ⟨0⟩ (.package "/Game"),
    .addObject "Body" ⟨1⟩ (.object ⟨0⟩), .addObject "Tip" ⟨1⟩ (.object ⟨1⟩),
    .addObject "Cloth" ⟨1⟩ (.package "/Game/Skins"), .setValue ⟨0⟩ ⟨0⟩ (.object (some ⟨2⟩)),
    .setValue ⟨0⟩ ⟨1⟩ (.object (some ⟨3⟩)), .changeType ⟨0⟩ [.defaultObject (some ⟨0⟩)]]

def tipContext : Context := ((World.build tipEdits).toOption.getD {}).context ⟨0⟩

def tipConstructor : Constructor :=
  ((emitConstructor tipContext).run {}).1.toOption.getD default

def tipUnit : TypeDecl := (tipContext.schema.type ⟨0⟩).toOption.getD default

/-- The dependencies of the class, which has no functions. -/
def tipDependencies : Dependencies := (gather tipContext ⟨⟨0⟩, []⟩).toOption.getD {}

/-- The default object stores what is loaded from a path. -/
def tipLine (field : FieldId) (name : String) (o : ObjectId) (path : String) : Line :=
  .assign ⟨some (.given ⟨0⟩), "", [.member field name]⟩
    (.literal (.object ⟨1⟩) (.object (some o))
      ("LoadObject<UPart>(nullptr, " ++ Literal.engineText path ++ ")"))

theorem lines_tipConstructor : tipConstructor.stored ++ tipConstructor.instanceLines =
    [tipLine ⟨0⟩ "Tip" ⟨2⟩ "/Game.Default__Hero:Body:Tip",
      tipLine ⟨1⟩ "Skin" ⟨3⟩ "/Game/Skins.Cloth"] := rfl

/-- The cloth is loaded behind the tip; it is the one object that is listed. -/
theorem loaded_by_owner_cloth :
    tipDependencies.implementation = [.object ⟨3⟩] ∧
    Fetches tipContext ⟨3⟩ (tipLine ⟨1⟩ "Skin" ⟨3⟩ "/Game/Skins.Cloth").text ∧
    ∃ record, tipContext.objects.object ⟨3⟩ = .ok record ∧
      ¬ AtHand tipContext tipUnit [tipLine ⟨0⟩ "Tip" ⟨2⟩ "/Game.Default__Hero:Body:Tip"]
        (.object ⟨3⟩) ∧
      ¬ AtHand tipContext tipUnit [tipLine ⟨0⟩ "Tip" ⟨2⟩ "/Game.Default__Hero:Body:Tip"]
        record.outer ∧
      ((.object ⟨3⟩ ∈ tipDependencies.header ++ tipDependencies.implementation ∧
          isOwnedByUnit tipContext record = .ok false) ∨
        (.object ⟨3⟩ ∉ tipDependencies.header ++ tipDependencies.implementation ∧
          isOwnedByUnit tipContext record = .ok true ∧ ∃ p, record.outer = .object p) ∨
        ⟨3⟩ ∈ tipUnit.ownedObjects ∨ FromDefault tipContext ⟨3⟩) := by
  have hunit : tipContext.schema.type ⟨0⟩ = .ok tipUnit := rfl
  refine ⟨by decide +kernel, ?_⟩
  exact loaded_by_owner (u := ⟨⟨0⟩, []⟩) (namesDistinct_of_forall (by decide +kernel)) rfl hunit rfl
    (run_of_isOk (by decide +kernel)) lines_tipConstructor ⟨rfl, rfl⟩

/-- The tip belongs to the unit through the body, which nothing creates: it is loaded by its path
and not listed. -/
theorem owned_tip_loaded :
    (tipConstructor.stored ++ tipConstructor.instanceLines).head?.map Line.text =
      some "Tip = LoadObject<UPart>(nullptr, TEXT(\"/Game.Default__Hero:Body:Tip\"));" ∧
    tipContext.NamesDistinct ∧
    (∃ record, tipContext.objects.object ⟨2⟩ = .ok record ∧
      isOwnedByUnit tipContext record = .ok true) ∧
    .object ⟨2⟩ ∉ tipDependencies.header ++ tipDependencies.implementation :=
  ⟨by decide +kernel, namesDistinct_of_forall (by decide +kernel), ⟨_, rfl, rfl⟩,
    by decide +kernel⟩

end GraphLowering.Defaults
