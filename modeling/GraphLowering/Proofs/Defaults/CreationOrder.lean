import GraphLowering.Proofs.Defaults.Constructors

/-!
# Defaults — the order of creation

The names at hand in generated code start out empty.  The class is set, objects are bound, and
emission of one object after another adds what it creates.

* `Reached`: the names that come about in this way.
* `Trace.introduced`: a line refers only to objects that were at hand from the start, or that a line
  before it creates.
* `created_in_order`: each object is created once, under a local of its own, and before it is used.
-/

namespace GraphLowering.Defaults

variable {cx : Context} {K : ObjectId → Prop} {base : Place} {root : String}
  {again : List ObjectId} {s t : State} {o : ObjectId}

/-! ### Names that come about -/

/-- Names that come about: the class is set, objects are bound, and values are emitted. -/
inductive Reached : LocalNames → Prop
  | new : Reached {}
  | setGenerated {n : LocalNames} (h : Reached n) (g : GeneratedClass) :
      Reached { n with generated := some g }
  | bind {n : LocalNames} (h : Reached n) (object : ObjectId) (x : String)
      (archetype : Option ObjectId) : Reached (n.bind object x archetype)
  | emitObject {cx : Context} {object : ObjectId} {archetype : Option ObjectId} {root : String}
      {allowProtected : Bool} {s t : State} (h : Reached s.names)
      (hrun : (emitObject cx object archetype root allowProtected).run s = (.ok (), t)) :
      Reached t.names
  | emitField {cx : Context} {allowProtected : Bool} {field : FieldId} {v : Value}
      {start : Option Value} {place : Place} {s t : State} (h : Reached s.names)
      (hrun : (emitField cx (emitSubobject cx) allowProtected field v start place).run s =
        (.ok (), t)) : Reached t.names
  | emitSubobject {cx : Context} {object : ObjectId} {result : Option String} {s t : State}
      (h : Reached s.names) (hrun : (emitSubobject cx object).run s = (.ok result, t)) :
      Reached t.names

theorem consistent_withCreation (h : s.names.Consistent) (c : Creation)
    (afterCreate : Option String) : (s.withCreation c afterCreate).names.Consistent := by
  rw [names_withCreation]
  dsimp only
  split
  · exact (h.addNew c.object c.archetype).register (by simp [LocalNames.find?_addNew])
  · exact h.addNew c.object c.archetype

theorem Moves.consistent (h : Moves cx root again s t) (hs : s.names.Consistent) :
    t.names.Consistent := by
  induction h with
  | refl => exact hs
  | tail _ hmove ih =>
      cases hmove with
      | report p => exact ih
      | store _ => exact ih
      | create _ _ => exact consistent_withCreation ih _ _

theorem emitObject_trace {object : ObjectId} {archetype : Option ObjectId} {allowProtected : Bool}
    (h : (emitObject cx object archetype root allowProtected).run s = (.ok (), t)) :
    Trace cx (cx.Refers object) ⟨some (.given object), root, []⟩ s t :=
  (emitObjectWith_traced emitSubobject_recreates.spawns archetype ⟨rfl, rfl⟩ allowProtected s () t
    trivial h).1

theorem emitField_trace {allowProtected : Bool} {field : FieldId} {v : Value}
    {start : Option Value} {place : Place}
    (h : (emitField cx (emitSubobject cx) allowProtected field v start place).run s =
      (.ok (), t)) : Trace cx v.RefersTo place s t :=
  (emitField_traced emitSubobject_recreates.spawns allowProtected field v start place
    (fun _ ho => ho) ⟨rfl, rfl⟩ s () t trivial h).1

theorem Reached.consistent {n : LocalNames} (h : Reached n) : n.Consistent := by
  induction h with
  | new => exact ⟨rfl, fun _ ho => by cases ho⟩
  | setGenerated _ g ih => exact ⟨ih.taken_eq, ih.registered⟩
  | bind _ object x archetype ih => exact ih.record object x archetype
  | emitObject _ hrun ih => exact (emitObject_trace hrun).moves.consistent ih
  | emitField _ hrun ih => exact (emitField_trace hrun).moves.consistent ih
  | emitSubobject _ hrun ih =>
      obtain ⟨-, -, ⟨-, -, rfl⟩ | ⟨owner, c, -, -, -, htrace⟩⟩ := emitSubobject_recreates hrun
      · exact ih
      · exact htrace.moves.consistent (consistent_withCreation ih c _)

/-! ### Locals -/

/-- The locals that lines declare, in order. -/
def localsOf (ls : List Line) : List String :=
  ls.filterMap fun
    | .create c => some c.localName
    | _ => none

theorem mem_localsOf {ls : List Line} {x : String} : x ∈ localsOf ls ↔ Declares ls x := by
  simp only [localsOf, List.mem_filterMap, Declares]
  constructor
  · rintro ⟨l, hl, h⟩
    cases l with
    | create c => exact ⟨c, hl, Option.some.inj h⟩
    | _ => cases h
  · rintro ⟨c, hc, rfl⟩
    exact ⟨.create c, hc, rfl⟩

theorem localsOf_withCreation (s : State) (c : Creation) (afterCreate : Option String) :
    localsOf (s.withCreation c afterCreate).lines = localsOf s.lines ++ [c.localName] := by
  cases afterCreate <;> simp [lines_withCreation, localsOf]

theorem Stores.localsOf_withLine {l : Line} (h : Stores cx root s l) :
    localsOf (s.withLine l).lines = localsOf s.lines := by
  cases h <;> simp [State.withLine, localsOf]

/-- A local is taken once it is declared, so no two creations have the same one. -/
theorem Moves.nodup_localsOf (h : Moves cx root again s t) (hs : s.lines = []) :
    (localsOf t.lines).Nodup ∧ localsOf t.lines ⊆ t.names.taken := by
  induction h with
  | refl => simp [hs, localsOf]
  | tail _ hmove ih =>
      cases hmove with
      | report p => exact ih
      | store hl =>
          rw [hl.localsOf_withLine]
          exact ih
      | @create c owner hc _ =>
          obtain ⟨hnodup, hsub⟩ := ih
          have hfree : c.localName ∉ localsOf _ := fun hmem =>
            LocalNames.fresh_not_mem _ (hc.localName ▸ hsub hmem)
          rw [localsOf_withCreation, taken_withCreation, ← hc.localName]
          refine ⟨hnodup.append (List.nodup_singleton _) (by simpa using hfree), ?_⟩
          intro x hx
          rcases List.mem_append.mp hx with hx | hx
          · exact List.mem_cons_of_mem _ (hsub hx)
          · rw [List.mem_singleton.mp hx]
            exact List.mem_cons_self

theorem Moves.created_eq (h : Moves cx root again s t) (hs : s.lines = []) :
    t.names.created = s.names.created ++ createdBy t.lines := by
  induction h with
  | refl => simp [hs, createdBy]
  | tail _ hmove ih =>
      cases hmove with
      | report p => exact ih
      | store hl =>
          rw [hl.createdBy_withLine]
          exact ih
      | create _ _ => rw [created_withCreation, createdBy_withCreation, ih, List.append_assoc]

/-- A created object stays at hand under its local, where none is created again. -/
theorem Moves.find?_of_create (h : Moves cx root [] s t) (hs : s.lines = []) {c : Creation}
    (hc : Line.create c ∈ t.lines) : t.names.find? c.object = some c.localName := by
  induction h with
  | refl => simp [hs] at hc
  | tail _ hmove ih =>
      cases hmove with
      | report p => exact ih hc
      | store hl => exact ih (hl.create_mem_withLine.mp hc)
      | @create c' owner hunder hnew =>
          rw [find?_withCreation]
          rcases (create_mem_withCreation ..).mp hc with hc | rfl
          · have hname := ih hc
            have hne : c.object ≠ c'.object := fun heq => by
              rw [heq, hnew.resolve_right List.not_mem_nil] at hname
              cases hname
            rw [if_neg hne, hname]
          · rw [if_pos rfl, hunder.localName]

/-! ### References -/

/-- The object whose part the line changes. -/
def Line.holder : Line → Option Holder
  | .assign p _ | .clear p | .reserve p _ | .append p _ => p.holder
  | .create _ | .register _ _ _ => none

/-- The line refers to an object through the names at hand: it stores the object, changes a part of
it after its creation, creates another that it owns, or registers it. -/
def Line.Involves (cx : Context) (o : ObjectId) (l : Line) : Prop :=
  l.RefersTo cx o ∨ l.holder = some (.created o) ∨ ∃ x text, l = .register o x text

/-- One of the lines creates the object, under the given local. -/
def CreatedAs (ls : List Line) (o : ObjectId) (x : String) : Prop :=
  ∃ c, Line.create c ∈ ls ∧ c.object = o ∧ c.localName = x

/-- Whatever is at hand, and whatever a line refers to, was at hand at the start or was created
before; the line refers to it by the local of its creation. -/
structure Introduced (cx : Context) (n : LocalNames) (s : State) : Prop where
  names : ∀ o x, s.names.find? o = some x → (n.find? o).isSome ∨ CreatedAs s.lines o x
  lines : ∀ before l after, s.lines = before ++ l :: after → ∀ o, l.Involves cx o →
    (n.find? o).isSome ∨ ∃ x, CreatedAs before o x ∧ l.Uses x

variable {n : LocalNames}

theorem CreatedAs.mono {ls ls' : List Line} {x : String} (h : CreatedAs ls o x) (hsub : ls ⊆ ls') :
    CreatedAs ls' o x := by
  obtain ⟨c, hc, h⟩ := h
  exact ⟨c, hsub hc, h⟩

/-- A line that stores a value refers to objects at hand, and to the one whose part it changes. -/
theorem StoresWithin.involves {l : Line} (h : StoresWithin cx K base s.names l)
    (hl : l.Involves cx o) : (∃ x, s.names.find? o = some x ∧ l.Uses x) ∨
      base.holder = some (.created o) ∧ ∀ x, base.root = x ++ "->" → l.Uses x := by
  rcases hl with hrefers | hholder | ⟨x, text, rfl⟩
  · cases h with
    | clear _ => exact hrefers.elim
    | reserve _ => exact hrefers.elim
    | assign _ hs =>
        obtain ⟨x, rfl⟩ := hrefers
        exact .inl ⟨x, hs.spelled, .inr ⟨o, rfl⟩⟩
    | append _ hs =>
        obtain ⟨x, rfl⟩ := hrefers
        exact .inl ⟨x, hs.spelled, .inr ⟨o, rfl⟩⟩
  · cases h with
    | assign hp _ => exact .inr ⟨hp.1 ▸ hholder, fun x hx => .inl (hp.2.trans hx)⟩
    | clear hp => exact .inr ⟨hp.1 ▸ hholder, fun x hx => hp.2.trans hx⟩
    | reserve hp => exact .inr ⟨hp.1 ▸ hholder, fun x hx => hp.2.trans hx⟩
    | append hp _ => exact .inr ⟨hp.1 ▸ hholder, fun x hx => .inl (hp.2.trans hx)⟩
  · cases h

/-- The place is none of a created object, or lies below the local of one that lines create. -/
def Place.Introduced (base : Place) (ls : List Line) : Prop :=
  ∀ o, base.holder = some (.created o) → ∃ x, CreatedAs ls o x ∧ base.root = x ++ "->"

theorem Introduced.withLine (h : Introduced cx n s) {l : Line} (hbase : base.Introduced s.lines)
    (hl : StoresWithin cx K base s.names l) : Introduced cx n (s.withLine l) where
  names o x ho := (h.names o x ho).imp id fun hc => hc.mono (List.subset_append_left _ _)
  lines := forall_split_snoc h.lines fun o hinvolves => by
    rcases hl.involves hinvolves with ⟨x, hx, huses⟩ | ⟨hholder, huses⟩
    · exact (h.names o x hx).imp id fun hc => ⟨x, hc, huses⟩
    · obtain ⟨x, hc, hroot⟩ := hbase o hholder
      exact .inr ⟨x, hc, huses x hroot⟩

theorem Introduced.withCreation (h : Introduced cx n s) {c : Creation} {owner : LocalNames.Owner}
    (hc : c.Under cx s.names owner) : Introduced cx n (s.withCreation c owner.afterCreate) where
  names o x ho := by
    rw [find?_withCreation] at ho
    split at ho
    · rename_i heq
      cases ho
      exact .inr ⟨c, mem_lines_withCreation _ _ _, heq.symm, hc.localName⟩
    · refine (h.names o x ho).imp id fun hc' => hc'.mono ?_
      exact (Grows.withCreation s c _).lines.subset
  lines := by
    have hcreate := forall_split_snoc h.lines (l := .create c) fun o hinvolves => by
      rcases hinvolves with ⟨record, hrecord, houter⟩ | hholder | ⟨x, text, heq⟩
      · obtain ⟨record', hrecord', howner, -⟩ := hc.record
        rw [hrecord] at hrecord'
        cases hrecord'
        rw [houter] at howner
        exact (h.names o _ (LocalNames.find?_of_owner? howner)).imp id
          fun hc' => ⟨_, hc', hc.outer⟩
      · cases hholder
      · cases heq
    rw [lines_withCreation]
    cases owner.afterCreate with
    | none => exact hcreate
    | some text =>
        have hregister := forall_split_snoc hcreate (l := .register c.object c.localName text)
          fun o hinvolves => by
            rcases hinvolves with hrefers | hholder | ⟨x, text, heq⟩
            · exact hrefers.elim
            · cases hholder
            · cases heq
              exact .inr ⟨c.localName, ⟨c, by simp, rfl, rfl⟩, rfl⟩
        simpa using hregister

/-- **What a line refers to comes before it**, along a trace below a place that is introduced. -/
theorem Trace.introduced (h : Trace cx K base s t) (hs : Introduced cx n s)
    (hbase : base.Introduced s.lines) : Introduced cx n t := by
  induction h with
  | refl => exact hs
  | report p => exact ⟨hs.names, hs.lines⟩
  | store h => exact hs.withLine hbase h
  | @create _ _ _ _ c _ _ hc _ _ ih =>
      refine ih (hs.withCreation hc) fun o ho => ?_
      cases ho
      exact ⟨c.localName, ⟨c, mem_lines_withCreation _ _ _, rfl, rfl⟩, rfl⟩
  | trans h _ ih ih' =>
      refine ih' (ih hs hbase) fun o ho => ?_
      obtain ⟨x, hc, hroot⟩ := hbase o ho
      exact ⟨x, hc.mono h.moves.grows.lines.subset, hroot⟩

/-! ### Creation in order -/

/-- Emission of the values of an object, or of one field. -/
inductive Assignment (cx : Context) : Emit Unit → Prop
  | object (object : ObjectId) (archetype : Option ObjectId) (root : String)
      (allowProtected : Bool) : Assignment cx (emitObject cx object archetype root allowProtected)
  | field (allowProtected : Bool) (field : FieldId) (v : Value) (start : Option Value)
      {place : Place} (hplace : ∀ o, place.holder ≠ some (.created o)) :
      Assignment cx (emitField cx (emitSubobject cx) allowProtected field v start place)

theorem Assignment.trace {step : Emit Unit} (hstep : Assignment cx step)
    (h : step.run s = (.ok (), t)) :
    ∃ K base, (∀ o, base.holder ≠ some (.created o)) ∧ Trace cx K base s t := by
  cases hstep with
  | object object archetype root allowProtected =>
      exact ⟨_, _, fun o ho => (by cases ho), emitObject_trace h⟩
  | field allowProtected field v start hplace => exact ⟨_, _, hplace, emitField_trace h⟩

/-- The lines create each object once and before it is used, from the names `n` to the names
`n'`. -/
structure CreatesInOrder (cx : Context) (n n' : LocalNames) (ls : List Line) : Prop where
  /-- No object is created twice. -/
  nodup : (createdBy ls).Nodup
  /-- None was at hand before, or registered with the class. -/
  new : ∀ o ∈ createdBy ls, n.find? o = none ∧ o ∉ n.registered
  /-- No local is declared twice. -/
  locals : (localsOf ls).Nodup
  /-- None is an expression bound or given out before. -/
  fresh : ∀ x ∈ localsOf ls, x ∉ n.names.map (·.2)
  /-- Each object is at hand under its local afterwards. -/
  atHand : ∀ c, Line.create c ∈ ls → n'.find? c.object = some c.localName
  /-- The objects on record grow by those created, in the order of their lines. -/
  created : n'.created = n.created ++ createdBy ls
  /-- A line that refers to one of them stands behind its creation, and uses the local of that. -/
  ordered : ∀ before l after, ls = before ++ l :: after → ∀ o ∈ createdBy ls, l.Involves cx o →
    ∃ x, CreatedAs before o x ∧ l.Uses x

/-- **Each object is created once, under a local of its own, and before it is used.**  This holds
from all names that come about, for every emission of an object or a field and whatever the objects
refer to. -/
theorem created_in_order {step : Emit Unit} {ls : List Line} (hnames : Reached s.names)
    (hstep : Assignment cx step) (hrun : (collectLines step).run s = (.ok ls, t)) :
    CreatesInOrder cx s.names t.names ls := by
  obtain ⟨hvalues, rfl⟩ := collectLines_run hrun
  obtain ⟨K, base, hbase, htrace⟩ := hstep.trace hvalues
  have hmoves := htrace.moves
  have honce : CreatedOnce t :=
    hmoves.createdOnce ⟨List.nodup_nil, fun _ hmem => by cases hmem⟩
  have hnew : ∀ o ∈ createdBy t.lines, s.names.find? o = none :=
    fun o ho => hmoves.find?_eq_none rfl ho
  have hordered : Introduced cx s.names t :=
    htrace.introduced ⟨fun o x ho => .inl (Option.isSome_of_eq_some ho),
      fun before l after heq => by simp at heq⟩ fun o ho => absurd ho (hbase o)
  exact {
    nodup := honce.nodup
    new := by
      refine fun o ho => ⟨hnew o ho, fun hmem => ?_⟩
      have hsome := hnames.consistent.registered o hmem
      rw [hnew o ho] at hsome
      cases hsome
    locals := (hmoves.nodup_localsOf rfl).1
    fresh := by
      intro x hx hmem
      obtain ⟨c, hc, rfl⟩ := mem_localsOf.mp hx
      rw [← hnames.consistent.taken_eq] at hmem
      exact (hmoves.localName_of_create rfl hc).2 hmem
    atHand := fun c hc => hmoves.find?_of_create rfl hc
    created := hmoves.created_eq rfl
    ordered := by
      intro before l after heq o ho hinvolves
      refine (hordered.lines before l after heq o hinvolves).resolve_left fun hsome => ?_
      rw [hnew o ho] at hsome
      cases hsome }

/-- The hero's body has a peer, whose peer is the body. -/
def cycleContext : Context :=
  ((World.build (heroEdits [] ⟨2⟩ ⟨1⟩ ++ [.setValue ⟨2⟩ ⟨0⟩ (.object (some ⟨1⟩))])).toOption.getD
    {}).context ⟨0⟩

/-- The class is set, and its default object is bound. -/
def cycleNames : LocalNames :=
  ({ generated := some ⟨⟨0⟩, "GetClass()", Constructor.storeStatement⟩ } : LocalNames).bind ⟨0⟩
    "this" none

def cycleRun : Except Fault (List Line) × State :=
  (collectLines (emitObject cycleContext ⟨0⟩ none "" true)).run { names := cycleNames }

def cycleLines : List Line := cycleRun.1.toOption.getD default

theorem created_in_order_cycle :
    cycleLines.map Line.text =
      ["auto __Local__ = NewObject<UPart>(GetClass(), TEXT(\"Fade\"));",
        "GetClass()->MiscObjects.Add(__Local__);",
        "auto __Local__0 = NewObject<UPart>(GetClass(), TEXT(\"Glow\"));",
        "GetClass()->MiscObjects.Add(__Local__0);", "__Local__0->Peer = __Local__;",
        "__Local__->Peer = __Local__0;", "Body = __Local__;"] ∧
    CreatesInOrder cycleContext cycleNames cycleRun.2.names cycleLines := by
  have hnames : Reached cycleNames := .bind (.setGenerated .new _) _ _ _
  exact ⟨by decide +kernel, created_in_order (s := { names := cycleNames }) hnames
    (.object ⟨0⟩ none "" true) (run_of_isOk (by decide +kernel))⟩

end GraphLowering.Defaults
