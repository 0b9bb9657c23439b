import GraphLowering.Proofs.Defaults.Constructors
import GraphLowering.Proofs.Dependencies.Visits

/-!
# Defaults — the classes that constructors name

A constructor names the class of every object that it creates, binds again or loads.  All of these
objects are referred to by values that the walk over the defaults of the unit follows too, with two
exceptions: the objects that the unit lists as its own, of which the walk follows only the values,
and those reached through the default of a field, which it does not follow.

* `Trace.naming`: along a trace, the objects named are those that are referred to.
* `constructor_class_included`: a class that a constructor names is included, unless it is that of
  such an object.
-/

namespace GraphLowering

open Collector

variable {cx : Context} {unit : TypeDecl} {o p : ObjectId}

/-! ### References -/

/-- The object is referred to by the default of a field, or by an object of which this is so. -/
inductive FromDefault (cx : Context) : ObjectId → Prop
  | default {field : FieldId} {v : Value} {o : ObjectId}
      (hv : cx.schema.fieldDefault field = .ok v) (h : v.RefersTo o) : FromDefault cx o
  | refers {o p : ObjectId} (ho : FromDefault cx o) (h : cx.Refers o p) : FromDefault cx p

/-- An object refers to another by a value that it was given, or by the default of a field. -/
theorem Context.Refers.cases (h : cx.Refers o p) : FromDefault cx p ∨
    ∃ record, cx.objects.object o = .ok record ∧
      ∃ v ∈ record.values.map (·.2), v.RefersTo p := by
  obtain ⟨field, v, hv, hp⟩ := h
  obtain ⟨record, hrecord, hv⟩ := Lookup.of_bind_ok hv
  cases hlookup : record.values.lookup field with
  | none =>
      rw [hlookup] at hv
      exact .inl (.default hv hp)
  | some w =>
      rw [hlookup] at hv
      cases hv
      exact .inr ⟨record, hrecord, v, List.mem_map.mpr ⟨_, Defaults.mem_of_lookup hlookup, rfl⟩, hp⟩

/-! ### Owners -/

/-- The chain of owners leads to the unit or to its default object. -/
inductive Owned (cx : Context) (unit : TypeDecl) : Outer → Prop
  | unit : Owned cx unit (.type cx.unit)
  | default {o : ObjectId} (ho : unit.defaultObject = some o) : Owned cx unit (.object o)
  | object {o : ObjectId} {record : ObjectRecord} (ho : cx.objects.object o = .ok record)
      (h : Owned cx unit record.outer) : Owned cx unit (.object o)

theorem Owned.isOwnedFrom {outer : Outer} (h : Owned cx unit outer) {n : Nat} {owned : Bool}
    (howned : isOwnedFrom cx unit.defaultObject n outer = .ok owned) : owned = true := by
  induction h generalizing n with
  | unit =>
      have hunit : Collector.isOwnedFrom cx unit.defaultObject n (.type cx.unit) =
          .ok (decide (cx.unit = cx.unit)) := by cases n <;> rfl
      rw [hunit] at howned
      cases howned
      exact decide_eq_true rfl
  | default ho =>
      cases n with
      | zero => cases howned
      | succ n =>
          rw [Collector.isOwnedFrom, if_pos ho.symm] at howned
          cases howned
          rfl
  | object ho _ ih =>
      cases n with
      | zero => cases howned
      | succ n =>
          rw [Collector.isOwnedFrom] at howned
          split at howned
          · cases howned
            rfl
          · rw [Lookup.bind_of_ok ho] at howned
            exact ih howned

theorem Owned.isOwnedByUnit (hunit : cx.schema.type cx.unit = .ok unit) {record : ObjectRecord}
    (h : Owned cx unit record.outer) {owned : Bool}
    (howned : isOwnedByUnit cx record = .ok owned) : owned = true := by
  unfold Collector.isOwnedByUnit at howned
  rw [Lookup.bind_of_ok hunit] at howned
  exact h.isOwnedFrom howned

/-- The walk starts from the object or marks it, or the object is reached through a default. -/
def Meets (cx : Context) (unit : TypeDecl) (c : Collector) (o : ObjectId) : Prop :=
  IsRoot unit o ∨ o ∈ c.objects ∨ FromDefault cx o

/-- A walk over the defaults of a unit: the values of the objects that it starts from are
followed. -/
structure Tour (cx : Context) (unit : TypeDecl) (c : Collector) : Prop where
  walked : Walked cx (IsRoot unit) {} c
  roots : ∀ o, IsRoot unit o → ∀ record, cx.objects.object o = .ok record →
    ∀ entry ∈ record.values, c.marks.Follows cx entry.2

namespace Tour

variable {c : Collector}

/-- An object that was marked is one that the walk starts from, or it was looked into. -/
theorem cases_of_mem (h : Tour cx unit c) (ho : o ∈ c.objects) :
    IsRoot unit o ∨ ∃ record owned, cx.objects.object o = .ok record ∧
      c.marks.Covers cx record.cls ∧ isOwnedByUnit cx record = .ok owned ∧
      (owned = true → ∀ entry ∈ record.values, c.marks.Follows cx entry.2) := by
  refine ((h.walked.explored o ho).resolve_left List.not_mem_nil).imp_right ?_
  rintro ⟨record, hrecord, hcls, hanswer⟩
  obtain ⟨owned, howned, hfollows, -⟩ := hanswer.exists_ok trivial
  exact ⟨record, owned, hrecord, hcls, howned, hfollows⟩

/-- **The walk meets what an object refers to, if it meets the object** and the object is one that it
starts from or belongs to the unit. -/
theorem meets_of_refers (h : Tour cx unit c) (hunit : cx.schema.type cx.unit = .ok unit)
    (ho : Meets cx unit c o) {record : ObjectRecord} (hrecord : cx.objects.object o = .ok record)
    (howned : IsRoot unit o ∨ Owned cx unit record.outer) (hp : cx.Refers o p) :
    Meets cx unit c p := by
  rcases hp.cases with hdefault | ⟨record', hrecord', v, hv, hvp⟩
  · exact .inr (.inr hdefault)
  rw [hrecord] at hrecord'
  cases hrecord'
  obtain ⟨entry, hentry, rfl⟩ := List.mem_map.mp hv
  have hroot : IsRoot unit o → Meets cx unit c p := fun ho =>
    .inr (.inl (h.roots o ho record hrecord entry hentry _ hvp.mentions))
  have hmarked : o ∈ c.objects → Meets cx unit c p := by
    intro hmem
    rcases h.cases_of_mem hmem with ho | ⟨record', owned, hrecord', -, hresult, hfollows⟩
    · exact hroot ho
    · rw [hrecord] at hrecord'
      cases hrecord'
      rcases howned with ho | howned
      · exact hroot ho
      · have hvalues := hfollows (howned.isOwnedByUnit hunit hresult)
        exact .inr (.inl (hvalues entry hentry _ hvp.mentions))
  rcases ho with ho | ho | ho
  · exact hroot ho
  · exact hmarked ho
  · exact .inr (.inr (ho.refers hp))

/-- What the default object refers to is met. -/
theorem meets_of_default (h : Tour cx unit c) (hunit : cx.schema.type cx.unit = .ok unit)
    (ho : unit.defaultObject = some o) (hp : cx.Refers o p) : Meets cx unit c p := by
  rcases hp.cases with hdefault | ⟨record, hrecord, -⟩
  · exact .inr (.inr hdefault)
  · exact h.meets_of_refers hunit (.inl (.inl ho)) hrecord (.inl (.inl ho)) hp

end Tour

namespace Defaults

variable {K : ObjectId → Prop} {base : Place} {s t : State} {c : Constructor} {col : Collector}

/-! ### Names of classes -/

/-- The line names the class of the object: it creates the object, or loads it by its path. -/
def Line.Names (o : ObjectId) : Line → Prop
  | .create creation => creation.object = o
  | .assign _ source | .append _ source => source.Loads o
  | .clear _ | .reserve _ _ | .register _ _ _ => False

/-- The text holds the class of the object, as it is spelled, between angle brackets. -/
def Spells (cx : Context) (cls : TypeId) (text : String) : Prop :=
  ∃ cpp before after, cx.schema.cppName cls = .ok cpp ∧
    text = before ++ "<" ++ cpp ++ ">" ++ after

/-- The text of a constructor names the class of the object on this line. -/
inductive Constructor.Names (c : Constructor) (o : ObjectId) : Code → Prop
  | line {l : Line} (hl : l ∈ c.stored ++ c.instanceLines) (h : l.Names o) : Names c o l.code
  | rebinding {r : Rebinding} (hr : r ∈ c.rebindings) (h : r.object = o) : Names c o r.code

theorem Creation.Under.spells {creation : Creation} {n : LocalNames} {owner : LocalNames.Owner}
    (h : creation.Under cx n owner) : ∃ record, cx.objects.object creation.object = .ok record ∧
      Spells cx record.cls (Line.create creation).text := by
  obtain ⟨record, hrecord, -, -, hcls, -⟩ := h.record
  refine ⟨record, hrecord, creation.cls, ?_⟩
  simp only [Line.text, Creation.text]
  split
  · refine ⟨"auto " ++ creation.localName ++ " = CreateDefaultSubobject",
      "(TEXT(" ++ Text.quote creation.name ++ "));", hcls, ?_⟩
    rw [← String.toList_inj]
    simp
  · refine ⟨"auto " ++ creation.localName ++ " = NewObject",
      "(" ++ creation.outer ++ ", TEXT(" ++ Text.quote creation.name ++ "));", hcls, ?_⟩
    rw [← String.toList_inj]
    simp

theorem Rebinding.spells {r : Rebinding} {cls : TypeId} (h : cx.schema.cppName cls = .ok r.cls) :
    ∃ text, r.code = .line text ∧ Spells cx cls text := by
  refine ⟨_, rfl, r.cls, "auto " ++ r.localName ++ " = CastChecked",
    "(GetClass()->MiscObjects[" ++ toString r.slot ++ "]);", h, ?_⟩
  rw [← String.toList_inj]
  simp

/-- A literal that loads an object spells its class. -/
theorem Source.Loads.spells {source : Source} {n : LocalNames} (h : source.Loads o)
    (hspelled : source.Spelled cx n) : ∃ record, cx.objects.object o = .ok record ∧
      Spells cx record.cls source.text := by
  cases source with
  | object id text => exact h.elim
  | structDefault type text => exact h.elim
  | literal type v text =>
      obtain ⟨hself, rfl⟩ := h
      obtain ⟨-, record, cls, path, hrecord, hcls, -, rfl⟩ := render_object hself hspelled
      refine ⟨record, hrecord, cls, "LoadObject",
        "(nullptr, " ++ Literal.engineText path ++ ")", hcls, ?_⟩
      rw [← String.toList_inj]
      simp [Source.text]

theorem Spells.append {cls : TypeId} {text : String} (h : Spells cx cls text)
    (before after : String) : Spells cx cls (before ++ text ++ after) := by
  obtain ⟨cpp, head, tail, hcpp, rfl⟩ := h
  refine ⟨cpp, before ++ head, tail ++ after, hcpp, ?_⟩
  simp only [String.append_assoc]

theorem StoresWithin.spells {l : Line} (h : StoresWithin cx K base s.names l) (hl : l.Names o) :
    (K o ∧ Foreign cx s.names o) ∧
      ∃ record, cx.objects.object o = .ok record ∧ Spells cx record.cls l.text := by
  cases h with
  | clear _ => exact hl.elim
  | reserve _ => exact hl.elim
  | @assign p source _ hs =>
      obtain ⟨record, hrecord, hspells⟩ := Source.Loads.spells hl hs.spelled
      exact ⟨hs.loads o hl, record, hrecord, hspells.append (p.text ++ " = ") ";"⟩
  | @append p source _ hs =>
      obtain ⟨record, hrecord, hspells⟩ := Source.Loads.spells hl hs.spelled
      exact ⟨hs.loads o hl, record, hrecord, hspells.append (p.text ++ ".Add(") ");"⟩

/-! ### Objects named -/

/-- While a constructor is emitted, the default object and objects of the unit are at hand.  The
lines name objects that the walk meets, and the default object only if it is listed as owned. -/
structure Naming (cx : Context) (unit : TypeDecl) (col : Collector) (s : State) : Prop where
  generated : ∃ g, s.names.generated = some g ∧ g.cls = cx.unit
  default : ∀ d, unit.defaultObject = some d → (s.names.find? d).isSome
  owned : ∀ o, (s.names.find? o).isSome → unit.defaultObject = some o ∨
    ∃ record, cx.objects.object o = .ok record ∧ Owned cx unit record.outer
  named : ∀ l ∈ s.lines, ∀ o, l.Names o → Meets cx unit col o ∧
    (unit.defaultObject = some o → o ∈ unit.ownedObjects) ∧
    ∃ record, cx.objects.object o = .ok record ∧ Spells cx record.cls l.text

namespace Naming

/-- What is created belongs to the unit. -/
theorem owned_of_under (h : Naming cx unit col s) {creation : Creation}
    {owner : LocalNames.Owner} (hc : creation.Under cx s.names owner) :
    ∃ record, cx.objects.object creation.object = .ok record ∧ Owned cx unit record.outer := by
  obtain ⟨record, hrecord, howner, -⟩ := hc.record
  obtain ⟨g, hg, hcls⟩ := h.generated
  refine ⟨record, hrecord, ?_⟩
  rcases (LocalNames.owner?_cases hg howner).2 with ⟨houter, -⟩ | ⟨p, houter, hp⟩
  · rw [houter, hcls]
    exact .unit
  · rw [houter]
    rcases h.owned p (Option.isSome_of_eq_some hp) with hdefault | ⟨record', hrecord', howned⟩
    · exact .default hdefault
    · exact .object hrecord' howned

theorem withLine (h : Naming cx unit col s) {l : Line} (hk : ∀ o, K o → Meets cx unit col o)
    (hl : StoresWithin cx K base s.names l) : Naming cx unit col (s.withLine l) where
  generated := h.generated
  default := h.default
  owned := h.owned
  named l' hl' o ho := by
    rcases List.mem_append.mp hl' with hl' | hl'
    · exact h.named l' hl' o ho
    · obtain rfl := List.mem_singleton.mp hl'
      obtain ⟨⟨hko, hnone, -⟩, hspells⟩ := hl.spells ho
      refine ⟨hk o hko, fun hdefault => ?_, hspells⟩
      -- The default object is at hand all the time, and so it is never loaded.
      have hsome := h.default o hdefault
      rw [hnone] at hsome
      cases hsome

theorem withCreation (h : Naming cx unit col s) {creation : Creation} {owner : LocalNames.Owner}
    (hc : creation.Under cx s.names owner) (hmeets : Meets cx unit col creation.object)
    (hlisted : unit.defaultObject = some creation.object →
      creation.object ∈ unit.ownedObjects) :
    Naming cx unit col (s.withCreation creation owner.afterCreate) where
  generated := by
    rw [generated_withCreation]
    exact h.generated
  default d hd := by
    rw [find?_withCreation]
    split
    · rfl
    · exact h.default d hd
  owned o ho := by
    rw [find?_withCreation] at ho
    split at ho
    · rename_i heq
      rw [heq]
      exact .inr (h.owned_of_under hc)
    · exact h.owned o ho
  named l hl o ho := by
    rw [lines_withCreation] at hl
    rcases List.mem_append.mp hl with hl | hl
    · exact h.named l hl o ho
    · rcases List.mem_cons.mp hl with rfl | hl
      · cases ho
        exact ⟨hmeets, hlisted, hc.spells⟩
      · obtain ⟨text, -, rfl⟩ := List.mem_map.mp hl
        exact ho.elim

end Naming

/-- **Along a trace, the objects named are those that are referred to**, and the walk over the
defaults of the unit meets them. -/
theorem Trace.naming (h : Trace cx K base s t) (hunit : cx.schema.type cx.unit = .ok unit)
    (htour : Tour cx unit col) (hk : ∀ o, K o → Meets cx unit col o)
    (hs : Naming cx unit col s) : Naming cx unit col t := by
  induction h with
  | refl => exact hs
  | report p => exact ⟨hs.generated, hs.default, hs.owned, hs.named⟩
  | store h => exact hs.withLine hk h
  | create hko hc hnew _ ih =>
      have hmeets := hk _ hko
      obtain ⟨record, hrecord, howned⟩ := hs.owned_of_under hc
      refine ih (fun p hp => htour.meets_of_refers hunit hmeets hrecord (.inr howned) hp) ?_
      refine hs.withCreation hc hmeets fun hdefault => ?_
      have hsome := hs.default _ hdefault
      rw [hnew] at hsome
      cases hsome
  | trans _ _ ih ih' => exact ih' hk (ih hk hs)

/-- The objects that a unit lists are created one after another. -/
theorem createAll_naming {os : List ObjectId} {unused : PUnit}
    (hunit : cx.schema.type cx.unit = .ok unit) (htour : Tour cx unit col)
    (hos : os ⊆ unit.ownedObjects) (h : (createAll cx os).run s = (.ok unused, t))
    (hs : Naming cx unit col s) : Naming cx unit col t := by
  induction os generalizing s with
  | nil =>
      cases h
      exact hs
  | cons o os ih =>
      obtain ⟨_, mid, hfirst, hrest⟩ := run_bind_ok h
      have ho : o ∈ unit.ownedObjects := hos List.mem_cons_self
      refine ih (fun _ hmem => hos (List.mem_cons_of_mem _ hmem)) hrest ?_
      obtain ⟨record, hrecord, ⟨-, rfl⟩ | ⟨owner, creation, hc, rfl, htrace⟩⟩ :=
        discard_emitSubobject_run hfirst
      · exact hs
      · have hmeets : Meets cx unit col creation.object := .inl (.inr ho)
        refine htrace.naming hunit htour (fun p hp => ?_) (hs.withCreation hc hmeets fun _ => ho)
        exact htour.meets_of_refers hunit hmeets hrecord (.inl (.inr ho)) hp

theorem naming_start {parent : Option ObjectId} {sink : Sink} :
    Naming cx unit col (constructorStart cx unit parent sink) where
  generated := ⟨_, generated_constructorNames cx unit parent, rfl⟩
  default d hd := by
    simp [constructorStart, constructorNames, hd, LocalNames.find?, LocalNames.bind,
      LocalNames.record]
  owned o ho := by
    left
    unfold constructorStart constructorNames at ho
    cases hdefault : unit.defaultObject with
    | none => simp [hdefault, LocalNames.find?] at ho
    | some d =>
        obtain ⟨x, hx⟩ := Option.isSome_iff_exists.mp ho
        simp only [hdefault] at hx
        have hmem := LocalNames.mem_names_of_find? hx
        have heq : o = d := congrArg Prod.fst (List.mem_singleton.mp hmem)
        rw [heq]
  named l hl := absurd hl List.not_mem_nil

/-! ### Constructors -/

/-- What is bound again has its class spelled. -/
theorem rebind_spells {n : LocalNames} {slot : Nat} {os : List ObjectId} {rs : List Rebinding}
    (h : rebind cx n slot os = .ok rs) : ∀ r ∈ rs, ∃ record,
      cx.objects.object r.object = .ok record ∧ cx.schema.cppName record.cls = .ok r.cls := by
  induction os generalizing slot rs with
  | nil =>
      cases h
      exact fun _ hmem => by cases hmem
  | cons o os ih =>
      obtain ⟨record, hrecord, h⟩ := Lookup.of_bind_ok h
      obtain ⟨cls, hcls, h⟩ := Lookup.of_bind_ok h
      obtain ⟨rest, hrest, h⟩ := Lookup.of_bind_ok h
      cases h
      intro r hr
      rcases List.mem_cons.mp hr with rfl | hr
      · exact ⟨record, hrecord, hcls⟩
      · exact ih hrest r hr

theorem parentDefault?_of_run (hunit : cx.schema.type cx.unit = .ok unit)
    (h : (emitConstructor cx).run s = (.ok c, t)) :
    ∃ parent, parentDefault? cx unit = .ok parent := by
  obtain ⟨unit', hunit', h⟩ := run_liftBind_ok h
  obtain rfl : unit' = unit := by
    rw [hunit] at hunit'
    exact (Except.ok.inj hunit').symm
  obtain ⟨cls, -, h⟩ := run_liftBind_ok h
  obtain ⟨parent, hparent, -⟩ := run_liftBind_ok h
  exact ⟨parent, hparent⟩

/-- The objects that a constructor names are met by the walk over the defaults of the unit. -/
theorem ConstructorRun.naming {parent : Option ObjectId} {sink : Sink} {mid last : State}
    (h : ConstructorRun cx unit parent sink c mid last)
    (hunit : cx.schema.type cx.unit = .ok unit) (htour : Tour cx unit col) :
    Naming cx unit col mid ∧ Naming cx unit col last := by
  have hmid : Naming cx unit col mid :=
    createAll_naming hunit htour (List.Subset.refl _) h.owned naming_start
  refine ⟨hmid, h.values.naming hunit htour ?_ ?_⟩
  · rintro o ⟨d, hd, ho⟩
    exact htour.meets_of_default hunit hd ho
  · exact ⟨hmid.generated, hmid.default, hmid.owned, fun l hl => absurd hl List.not_mem_nil⟩

/-- **Every class that a constructor names is included**, unless it is that of an object that the
unit lists as its own, or of one that is reached through the default of a field. -/
theorem constructor_class_included {u : ScriptUnit} {deps : Dependencies} {code : Code}
    (hnames : cx.NamesDistinct) (hu : u.type = cx.unit)
    (hunit : cx.schema.type cx.unit = .ok unit) (hgather : gather cx u = .ok deps)
    (hrun : (emitConstructor cx).run s = (.ok c, t)) (hcode : c.Names o code) :
    ∃ record text, cx.objects.object o = .ok record ∧ code = .line text ∧
      Spells cx record.cls text ∧
      (deps.Includes cx record.cls ∨ o ∈ unit.ownedObjects ∨ FromDefault cx o) := by
  obtain ⟨parent, hparent⟩ := parentDefault?_of_run hunit hrun
  obtain ⟨mid, last, h⟩ := emitConstructor_run hunit hparent hrun
  obtain ⟨col, hwalked, hroots, hcovers⟩ := gather_walks hnames hu hunit hgather
  have htour : Tour cx unit col := ⟨hwalked, hroots⟩
  obtain ⟨hmid, hlast⟩ := h.naming hunit htour
  -- A line that names an object, with what is known of the object.
  have hline : ∀ l ∈ c.stored ++ c.instanceLines, l.Names o → Meets cx unit col o ∧
      (unit.defaultObject = some o → o ∈ unit.ownedObjects) ∧
      ∃ record, cx.objects.object o = .ok record ∧ Spells cx record.cls l.text := by
    intro l hl ho
    rw [h.stored, h.instanceLines] at hl
    rcases List.mem_append.mp hl with hl | hl
    · exact hmid.named l hl o ho
    · exact hlast.named l hl o ho
  have hincluded : ∀ l ∈ c.stored ++ c.instanceLines, l.Names o → ∀ record,
      cx.objects.object o = .ok record →
      deps.Includes cx record.cls ∨ o ∈ unit.ownedObjects ∨ FromDefault cx o := by
    intro l hl ho record hrecord
    obtain ⟨hmeets, hlisted, -⟩ := hline l hl ho
    have hlisted : IsRoot unit o → o ∈ unit.ownedObjects := fun hroot => hroot.elim hlisted id
    rcases hmeets with hroot | hmarked | hdefault
    · exact .inr (.inl (hlisted hroot))
    · rcases htour.cases_of_mem hmarked with hroot | ⟨record', -, hrecord', hcls, -⟩
      · exact .inr (.inl (hlisted hroot))
      · rw [hrecord] at hrecord'
        cases hrecord'
        exact .inl (hcovers _ hcls)
    · exact .inr (.inr hdefault)
  cases hcode with
  | line hl ho =>
      obtain ⟨-, -, record, hrecord, hspells⟩ := hline _ hl ho
      exact ⟨record, _, hrecord, rfl, hspells, hincluded _ hl ho record hrecord⟩
  | rebinding hr ho =>
      obtain ⟨record, hrecord, hcls⟩ := rebind_spells h.rebindings _ hr
      obtain ⟨text, htext, hspells⟩ := Rebinding.spells hcls
      -- What is bound again was created by a line.
      obtain ⟨creation, hc, hobject⟩ := mem_createdBy.mp (h.mem_createdBy_of_rebinding hr)
      rw [ho] at hrecord hobject
      exact ⟨record, text, hrecord, htext, hspells,
        hincluded _ (List.mem_append_left _ hc) hobject record hrecord⟩

/-! ### A hero with a curve -/

/-- A class whose default object has a part, which has a curve from another package.  The class
lists `owned`; there is also a light that belongs to the class. -/
def curveEdits (owned : List ObjectId) : List Edit :=
  [.addClass "Hero" none, .addClass "Part" none, .addClass "Curve" none, .addClass "Light" none,
    .addField ⟨0⟩ "Body" (.object ⟨1⟩), .addField ⟨1⟩ "Fade" (.object ⟨2⟩),
    .addObject "Default__Hero" ⟨0⟩ (.package "/Game"), .addObject "Body" ⟨1⟩ (.object ⟨0⟩),
    .addObject "Fade" ⟨2⟩ (.package "/Game/Curves"), .addObject "Glow" ⟨3⟩ (.type ⟨0⟩),
    .setValue ⟨0⟩ ⟨0⟩ (.object (some ⟨1⟩)), .setValue ⟨1⟩ ⟨1⟩ (.object (some ⟨2⟩)),
    .changeType ⟨0⟩ [.ownedObjects owned, .defaultObject (some ⟨0⟩)]]

def curveContext (owned : List ObjectId) : Context :=
  ((World.build (curveEdits owned)).toOption.getD {}).context ⟨0⟩

def curveConstructor (owned : List ObjectId) : Constructor :=
  ((emitConstructor (curveContext owned)).run {}).1.toOption.getD default

def curveUnit (owned : List ObjectId) : TypeDecl :=
  ((curveContext owned).schema.type ⟨0⟩).toOption.getD default

/-- The dependencies of the class, which has no functions. -/
def curveDependencies (owned : List ObjectId) : Dependencies :=
  (gather (curveContext owned) ⟨⟨0⟩, []⟩).toOption.getD {}

/-- The part is created and its curve is loaded, and the class of the curve is included. -/
theorem constructor_class_included_curve :
    (curveConstructor []).instanceLines.map Line.text =
      ["auto __Local__ = CreateDefaultSubobject<UPart>(TEXT(\"Body\"));",
        "__Local__->Fade = LoadObject<UCurve>(nullptr, TEXT(\"/Game/Curves.Fade\"));",
        "Body = __Local__;"] ∧
    .type ⟨2⟩ ∈ (curveDependencies []).implementation ∧
    ∃ l ∈ (curveConstructor []).instanceLines, l.Names ⟨2⟩ ∧
      ∃ record text, (curveContext []).objects.object ⟨2⟩ = .ok record ∧ l.code = .line text ∧
        Spells (curveContext []) record.cls text ∧
        ((curveDependencies []).Includes (curveContext []) record.cls ∨
          ⟨2⟩ ∈ (curveUnit []).ownedObjects ∨ FromDefault (curveContext []) ⟨2⟩) := by
  have hlines : (curveConstructor []).instanceLines[1]? = some (.assign
      ⟨some (.created ⟨1⟩), "__Local__->", [.member ⟨1⟩ "Fade"]⟩ (.literal (.object ⟨2⟩)
        (.object (some ⟨2⟩)) "LoadObject<UCurve>(nullptr, TEXT(\"/Game/Curves.Fade\"))")) := rfl
  have hl := List.mem_of_getElem? hlines
  have hunit : (curveContext []).schema.type ⟨0⟩ = .ok (curveUnit []) := rfl
  refine ⟨by decide +kernel, by decide +kernel, _, hl, ⟨rfl, rfl⟩, ?_⟩
  exact constructor_class_included (u := ⟨⟨0⟩, []⟩) (namesDistinct_of_forall (by decide +kernel))
    rfl hunit rfl (run_of_isOk (by decide +kernel)) (.line (List.mem_append_right _ hl) ⟨rfl, rfl⟩)

/-- The class lists its light: the constructor creates it and binds it again, and nothing includes
its class. -/
theorem owned_class_not_included :
    (curveConstructor [⟨3⟩]).stored.map Line.text =
      ["auto __Local__ = NewObject<ULight>(GetClass(), TEXT(\"Glow\"));",
        "GetClass()->MiscObjects.Add(__Local__);"] ∧
    (curveConstructor [⟨3⟩]).rebindings.map Rebinding.code =
      [.line "auto __Local__ = CastChecked<ULight>(GetClass()->MiscObjects[0]);"] ∧
    (curveContext [⟨3⟩]).NamesDistinct ∧
    ¬ (curveDependencies [⟨3⟩]).Includes (curveContext [⟨3⟩]) ⟨3⟩ := by
  refine ⟨by decide +kernel, rfl, namesDistinct_of_forall (by decide +kernel), ?_⟩
  rintro (hunit | ⟨decl, hdecl, hknown⟩ | hlisted | hlisted)
  · cases hunit
  · cases hdecl
    cases hknown
  · revert hlisted
    decide +kernel
  · revert hlisted
    decide +kernel

end Defaults
end GraphLowering
