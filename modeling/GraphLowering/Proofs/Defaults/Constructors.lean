import GraphLowering.Proofs.Defaults.Creations
import GraphLowering.Proofs.Defaults.Traces
import GraphLowering.Proofs.Lookup
import GraphLowering.World
import Mathlib.Data.List.Induction

/-!
# Defaults — what constructors create, use and store

A constructor has two blocks: one that runs once, for the default object of the class, and one that
runs for every instance.  Both take names from one registry.

* `created_once_iff`: no object is created twice, unless an owned object was created ahead of its
  turn for the sake of another.
* `locals_in_scope_iff`: the second block uses only locals that it declares, unless it refers to an
  object that the first block created and did not store in the class.
* `stored_read_back`: what the first block stores in the class is what the second one reads back,
  place by place, and the second block stores nothing unless it creates an object of the class.
-/

namespace GraphLowering.Defaults

variable {cx : Context} {root : String} {again : List ObjectId} {s t u : State} {o : ObjectId}

/-! ### Owned objects -/

/-- Create owned objects, one after another. -/
def createAll (cx : Context) (os : List ObjectId) : Emit PUnit :=
  os.forM fun o => discard (emitSubobject cx o)

theorem Moves.mono {again' : List ObjectId} (h : Moves cx root again s t)
    (hsub : again ⊆ again') : Moves cx root again' s t := by
  refine Relation.ReflTransGen.mono (fun s t hmove => ?_) _ _ h
  cases hmove with
  | report p => exact .report p
  | store hl => exact .store hl
  | create hc hnew => exact .create hc (hnew.imp id (hsub ·))

/-- To create an owned object is nothing, or its creation and a trace for its values. -/
theorem discard_emitSubobject_run {unused : PUnit}
    (h : (discard (emitSubobject cx o)).run s = (.ok unused, t)) :
    ∃ record, cx.objects.object o = .ok record ∧
      ((s.names.owner? record.outer = none ∧ t = s) ∨
        ∃ owner c, c.Under cx s.names owner ∧ c.object = o ∧
          Trace cx (cx.Refers o) c.place (s.withCreation c owner.afterCreate) t) := by
  obtain ⟨result, mid, hrun, hend⟩ := run_bind_ok (x := emitSubobject cx o) h
  cases hend
  obtain ⟨record, hrecord, ⟨hnone, -, ht⟩ | ⟨owner, c, hc, hobject, -, htrace⟩⟩ :=
    emitSubobject_recreates hrun
  · exact ⟨record, hrecord, .inl ⟨hnone, ht⟩⟩
  · exact ⟨record, hrecord, .inr ⟨owner, c, hc, hobject, htrace⟩⟩

/-- To create owned objects is a row of moves, in which these may be created again. -/
theorem createAll_moves {os : List ObjectId} {unused : PUnit} (hos : os ⊆ again)
    (h : (createAll cx os).run s = (.ok unused, t)) : Moves cx "" again s t := by
  induction os generalizing s with
  | nil =>
      cases h
      exact .refl
  | cons o os ih =>
      obtain ⟨_, mid, hfirst, hrest⟩ := run_bind_ok h
      have ho : o ∈ again := hos List.mem_cons_self
      have hrest := ih (fun _ hmem => hos (List.mem_cons_of_mem _ hmem)) hrest
      obtain ⟨-, -, ⟨-, rfl⟩ | ⟨owner, c, hc, rfl, htrace⟩⟩ := discard_emitSubobject_run hfirst
      · exact hrest
      · exact (Relation.ReflTransGen.head (.create hc (.inr ho))
          (htrace.moves_of_creation.mono (List.nil_subset _))).trans hrest

/-- A run over two rows of owned objects is a run over each. -/
theorem createAll_append_run {before after : List ObjectId} {unused : PUnit}
    (h : (createAll cx (before ++ after)).run s = (.ok unused, t)) :
    ∃ mid, (createAll cx before).run s = (.ok ⟨⟩, mid) ∧
      (createAll cx after).run mid = (.ok ⟨⟩, t) := by
  induction before generalizing s with
  | nil => exact ⟨s, rfl, h⟩
  | cons o before ih =>
      obtain ⟨_, mid, hfirst, hrest⟩ := run_bind_ok h
      obtain ⟨mid', hbefore, hafter⟩ := ih hrest
      refine ⟨mid', ?_, hafter⟩
      change ((discard (emitSubobject cx o)) >>= fun _ => createAll cx before).run s = _
      rw [run_bind, hfirst]
      exact hbefore

/-! ### Runs of a constructor -/

section

variable (cx : Context) (unit : TypeDecl) (parent : Option ObjectId)

/-- The state from which the owned objects of a unit are created. -/
def constructorStart (sink : Sink) : State := { names := constructorNames cx unit parent, sink }

/-- The objects created by the time that those of `before` had their turn. -/
def createdAhead (sink : Sink) (before : List ObjectId) : List ObjectId :=
  createdBy ((createAll cx before).run (constructorStart cx unit parent sink)).2.lines

theorem generated_constructorNames : (constructorNames cx unit parent).generated =
    some ⟨cx.unit, "GetClass()", Constructor.storeStatement⟩ := by
  unfold constructorNames
  cases unit.defaultObject <;> rfl

theorem registered_constructorNames : (constructorNames cx unit parent).registered = [] := by
  unfold constructorNames
  cases unit.defaultObject <;> rfl

theorem tallied_constructorNames : (constructorNames cx unit parent).Tallied := by
  unfold constructorNames
  cases unit.defaultObject with
  | none => exact ⟨rfl, List.nodup_nil⟩
  | some o => exact ⟨rfl, List.nodup_singleton _⟩

/-- Only the default object is at hand at the start. -/
theorem eq_this_of_find?_constructorNames {x : String}
    (h : (constructorNames cx unit parent).find? o = some x) : x = "this" := by
  unfold constructorNames at h
  cases hdefault : unit.defaultObject with
  | none =>
      rw [hdefault] at h
      cases h
  | some p =>
      rw [hdefault] at h
      have hmem := LocalNames.mem_names_of_find? h
      exact congrArg Prod.snd (List.mem_singleton.mp hmem)

end

/-- The lines that assign the values of an instance. -/
def Constructor.instanceLines (c : Constructor) : List Line := c.assigned.getD []

/-- The objects that the text of a constructor creates, in order. -/
def Constructor.created (c : Constructor) : List ObjectId := createdBy (c.stored ++ c.instanceLines)

/-- How a constructor comes about: `mid` is the state after its first block, and `last` the one
after its second. -/
structure ConstructorRun (cx : Context) (unit : TypeDecl) (parent : Option ObjectId) (sink : Sink)
    (c : Constructor) (mid last : State) : Prop where
  owned : (createAll cx unit.ownedObjects).run (constructorStart cx unit parent sink) =
    (.ok ⟨⟩, mid)
  stored : c.stored = mid.lines
  rebindings : rebind cx mid.names 0 mid.names.registered = .ok c.rebindings
  values : Trace cx (fun o => ∃ d, unit.defaultObject = some d ∧ cx.Refers d o)
    ⟨unit.defaultObject.map .given, "", []⟩ { mid with lines := [] } last
  instanceLines : c.instanceLines = last.lines

theorem emitInstanceValues_trace {K : ObjectId → Prop} {defaultObject : ObjectId}
    {parent : Option ObjectId} (hk : ∀ o, cx.Refers defaultObject o → K o)
    (h : (emitInstanceValues cx defaultObject parent).run s = (.ok (), t)) :
    Trace cx K ⟨some (.given defaultObject), "", []⟩ s t := by
  have htraced : Traced cx K ⟨some (.given defaultObject), "", []⟩ (fun _ => True)
      (emitInstanceValues cx defaultObject parent) fun _ _ => True :=
    .liftBind fun fields _ => .forM fun field _ => .liftBind fun v hv => .liftBind fun start _ =>
      emitField_traced emitSubobject_recreates.spawns true field v start _
        (fun o ho => hk o ⟨field, v, hv, ho⟩) ⟨rfl, rfl⟩
  exact (htraced s () t trivial h).1

/-- Lines are collected from a state without lines. -/
theorem collectLines_run {step : Emit Unit} {ls : List Line}
    (h : (collectLines step).run s = (.ok ls, t)) :
    step.run { s with lines := [] } = (.ok (), t) ∧ ls = t.lines := by
  obtain ⟨_, _, hreset, h⟩ := run_bind_ok h
  cases hreset
  obtain ⟨_, mid, hstep, h⟩ := run_bind_ok h
  cases h
  exact ⟨hstep, rfl⟩

theorem emitConstructor_run {c : Constructor} {unit : TypeDecl} {parent : Option ObjectId}
    (hunit : cx.schema.type cx.unit = .ok unit) (hparent : parentDefault? cx unit = .ok parent)
    (h : (emitConstructor cx).run s = (.ok c, t)) :
    ∃ mid last, ConstructorRun cx unit parent s.sink c mid last := by
  obtain ⟨unit', hunit', h⟩ := run_liftBind_ok h
  obtain rfl : unit' = unit := by
    rw [hunit] at hunit'
    exact (Except.ok.inj hunit').symm
  obtain ⟨cls, -, h⟩ := run_liftBind_ok h
  obtain ⟨parent', hparent', h⟩ := run_liftBind_ok h
  obtain rfl : parent' = parent := by
    rw [hparent] at hparent'
    exact (Except.ok.inj hparent').symm
  obtain ⟨_, _, hnames, h⟩ := run_bind_ok h
  cases hnames
  obtain ⟨stored, mid, hstored, h⟩ := run_bind_ok h
  obtain ⟨howned, rfl⟩ := collectLines_run hstored
  obtain ⟨_, _, hget, h⟩ := run_bind_ok h
  cases hget
  obtain ⟨rebindings, hrebindings, h⟩ := run_liftBind_ok h
  dsimp only at h
  split at h
  · rename_i defaultObject hdefault
    obtain ⟨assigned, last, hassigned, h⟩ := run_bind_ok h
    cases h
    obtain ⟨ls, last', hlines, hend⟩ := run_bind_ok hassigned
    cases hend
    obtain ⟨hvalues, rfl⟩ := collectLines_run hlines
    refine ⟨_, _, howned, rfl, hrebindings, ?_, rfl⟩
    rw [hdefault]
    exact emitInstanceValues_trace (fun o ho => ⟨defaultObject, rfl, ho⟩) hvalues
  · cases h
    exact ⟨_, _, howned, rfl, hrebindings, .refl, rfl⟩

/-- What is bound again is what was registered, each under its name and at its place. -/
theorem rebind_ok {n : LocalNames} {slot : Nat} {os : List ObjectId} {rs : List Rebinding}
    (h : rebind cx n slot os = .ok rs) :
    rs.map (·.object) = os ∧ rs.map (·.slot) = List.range' slot os.length ∧
      ∀ r ∈ rs, r.localName = (n.find? r.object).getD "" := by
  induction os generalizing slot rs with
  | nil =>
      cases h
      exact ⟨rfl, rfl, fun _ hmem => by cases hmem⟩
  | cons o os ih =>
      obtain ⟨record, -, h⟩ := Lookup.of_bind_ok h
      obtain ⟨cls, -, h⟩ := Lookup.of_bind_ok h
      obtain ⟨rest, hrest, h⟩ := Lookup.of_bind_ok h
      cases h
      obtain ⟨hobjects, hslots, hnames⟩ := ih hrest
      refine ⟨by simp [hobjects], by simp [hslots, List.range'_succ], fun r hr => ?_⟩
      rcases List.mem_cons.mp hr with rfl | hr
      · rfl
      · exact hnames r hr

namespace ConstructorRun

variable {unit : TypeDecl} {parent : Option ObjectId} {sink : Sink} {c : Constructor}
  {mid last : State}

/-- The second block is a row of moves. -/
theorem moves (h : ConstructorRun cx unit parent sink c mid last) :
    Moves cx "" [] { mid with lines := [] } last :=
  h.values.moves

/-- The first block is a row of moves, in which owned objects may be created again. -/
theorem firstMoves (h : ConstructorRun cx unit parent sink c mid last) :
    Moves cx "" unit.ownedObjects (constructorStart cx unit parent sink) mid :=
  createAll_moves (List.Subset.refl _) h.owned

theorem generated_eq (h : ConstructorRun cx unit parent sink c mid last) :
    mid.names.generated = some ⟨cx.unit, "GetClass()", Constructor.storeStatement⟩ :=
  h.firstMoves.generated_eq.trans (generated_constructorNames cx unit parent)

theorem tallied (h : ConstructorRun cx unit parent sink c mid last) : mid.names.Tallied :=
  h.firstMoves.tallied (tallied_constructorNames cx unit parent)

theorem registered_eq (h : ConstructorRun cx unit parent sink c mid last) :
    mid.names.registered = registeredBy c.stored := by
  have heq := h.firstMoves.registered_eq rfl
  rw [show (constructorStart cx unit parent sink).names.registered = [] from
    registered_constructorNames cx unit parent, List.nil_append] at heq
  rw [heq, h.stored]

theorem map_object_rebindings (h : ConstructorRun cx unit parent sink c mid last) :
    c.rebindings.map (·.object) = registeredBy c.stored :=
  (rebind_ok h.rebindings).1.trans h.registered_eq

theorem created_eq (h : ConstructorRun cx unit parent sink c mid last) :
    c.created = createdBy mid.lines ++ createdBy last.lines := by
  rw [Constructor.created, createdBy_append, h.stored, h.instanceLines]

/-- What the first block created is at hand afterwards, under a local that it declares. -/
theorem find?_of_created (h : ConstructorRun cx unit parent sink c mid last)
    (ho : o ∈ createdBy c.stored) : ∃ creation, Line.create creation ∈ c.stored ∧
      creation.object = o ∧ mid.names.find? o = some creation.localName := by
  rw [h.stored] at ho ⊢
  exact h.firstMoves.find?_of_created rfl ho

/-- A registration in the first block: the object was created there, under that local. -/
theorem create_of_register (h : ConstructorRun cx unit parent sink c mid last) {x text : String}
    (hl : Line.register o x text ∈ c.stored) : text = Constructor.storeStatement ∧
      ∃ creation, Line.create creation ∈ c.stored ∧ creation.object = o ∧
        creation.localName = x := by
  rw [h.stored] at hl ⊢
  exact h.firstMoves.create_of_register rfl (generated_constructorNames cx unit parent) hl

theorem mem_createdBy_of_rebinding (h : ConstructorRun cx unit parent sink c mid last)
    {r : Rebinding} (hr : r ∈ c.rebindings) : r.object ∈ createdBy c.stored := by
  have hmem : r.object ∈ registeredBy c.stored :=
    h.map_object_rebindings ▸ List.mem_map_of_mem hr
  obtain ⟨x, text, hl⟩ := mem_registeredBy.mp hmem
  obtain ⟨-, creation, hc, hobject, -⟩ := h.create_of_register hl
  exact mem_createdBy.mpr ⟨creation, hc, hobject⟩

/-- An object bound again has the local that it had in the first block. -/
theorem localName_of_rebinding (h : ConstructorRun cx unit parent sink c mid last)
    {r : Rebinding} (hr : r ∈ c.rebindings) : mid.names.find? r.object = some r.localName := by
  obtain ⟨creation, -, -, hname⟩ := h.find?_of_created (h.mem_createdBy_of_rebinding hr)
  rw [(rebind_ok h.rebindings).2.2 r hr, hname, Option.getD_some]

end ConstructorRun

/-! ### A hero with parts -/

/-- A class with a default object.  Two parts belong to the class and one to the default object.
The class lists `owned`; the first part has `peer` for a peer, and the default object `body` for a
body. -/
def heroEdits (owned : List ObjectId) (peer body : ObjectId) : List Edit :=
  [.addClass "Hero" none, .addClass "Part" none, .addField ⟨1⟩ "Peer" (.object ⟨1⟩),
    .addField ⟨0⟩ "Body" (.object ⟨1⟩), .addObject "Default__Hero" ⟨0⟩ (.package "/Game"),
    .addObject "Fade" ⟨1⟩ (.type ⟨0⟩), .addObject "Glow" ⟨1⟩ (.type ⟨0⟩),
    .addObject "Body" ⟨1⟩ (.object ⟨0⟩), .setValue ⟨1⟩ ⟨0⟩ (.object (some peer)),
    .setValue ⟨0⟩ ⟨1⟩ (.object (some body)),
    .changeType ⟨0⟩ [.ownedObjects owned, .defaultObject (some ⟨0⟩)]]

def heroContext (owned : List ObjectId) (peer body : ObjectId) : Context :=
  ((World.build (heroEdits owned peer body)).toOption.getD {}).context ⟨0⟩

def heroUnit (owned : List ObjectId) (peer body : ObjectId) : TypeDecl :=
  ((heroContext owned peer body).schema.type ⟨0⟩).toOption.getD default

def heroConstructor (owned : List ObjectId) (peer body : ObjectId) : Constructor :=
  ((emitConstructor (heroContext owned peer body)).run {}).1.toOption.getD default

theorem type_heroContext (owned : List ObjectId) (peer body : ObjectId) :
    (heroContext owned peer body).schema.type ⟨0⟩ = .ok (heroUnit owned peer body) := rfl

theorem parentDefault?_heroContext (owned : List ObjectId) (peer body : ObjectId) :
    parentDefault? (heroContext owned peer body) (heroUnit owned peer body) = .ok none := rfl

/-! ### Creation -/

section

variable {unit : TypeDecl} {parent : Option ObjectId} {sink : Sink} {c : Constructor}
  {mid last : State}

/-- An object that is not owned comes to be at hand once in the whole run. -/
theorem ConstructorRun.count_created_le (h : ConstructorRun cx unit parent sink c mid last)
    (ho : o ∉ unit.ownedObjects) : c.created.count o ≤ 1 := by
  have hfirst := h.firstMoves.count_createdBy ho
  have hsecond := h.moves.count_createdBy (List.not_mem_nil (a := o))
  have hstart : createdBy (constructorStart cx unit parent sink).lines = [] := rfl
  have hmid : createdBy (State.mk mid.names [] mid.sink).lines = [] := rfl
  have hle := Bool.toNat_le (last.names.find? o).isSome
  rw [hstart] at hfirst
  rw [hmid] at hsecond
  rw [h.created_eq, List.count_append]
  simp only [List.count_nil, Nat.zero_add] at hfirst hsecond
  omega

/-- If no owned object was created ahead of its turn, none was created twice by the turns. -/
theorem createdOnce_createAll {os : List ObjectId}
    (hturn : ∀ before o after, os = before ++ o :: after →
      o ∉ createdAhead cx unit parent sink before) {unused : PUnit}
    (hrun : (createAll cx os).run (constructorStart cx unit parent sink) = (.ok unused, t)) :
    CreatedOnce t := by
  -- From the back: the last turn finds what the turns before it have created.
  induction os using List.reverseRecOn generalizing t with
  | nil =>
      cases hrun
      exact ⟨List.nodup_nil, fun _ hmem => by cases hmem⟩
  | append_singleton os o ih =>
      obtain ⟨mid, hbefore, hlast⟩ := createAll_append_run hrun
      have hmid : CreatedOnce mid := by
        refine ih (fun before o' after heq => ?_) hbefore
        exact hturn before o' (after ++ [o]) (by simp [heq])
      obtain ⟨_, t', hturnRun, hend⟩ := run_bind_ok hlast
      cases hend
      obtain ⟨-, -, ⟨-, rfl⟩ | ⟨owner, creation, -, rfl, htrace⟩⟩ :=
        discard_emitSubobject_run hturnRun
      · exact hmid
      · have hnew := hturn os creation.object [] rfl
        rw [createdAhead, hbefore] at hnew
        exact htrace.moves.createdOnce (hmid.withCreation hnew _)

/-- An owned object that was created ahead of its turn is created again in it. -/
theorem two_le_count_created (h : ConstructorRun cx unit parent sink c mid last)
    {before after : List ObjectId} (heq : unit.ownedObjects = before ++ o :: after)
    (ho : o ∈ createdAhead cx unit parent sink before) : 2 ≤ c.created.count o := by
  have howned := h.owned
  rw [heq] at howned
  obtain ⟨s₁, hbefore, hrest⟩ := createAll_append_run howned
  obtain ⟨_, s₂, hturn, hafter⟩ := run_bind_ok hrest
  rw [createdAhead, hbefore] at ho
  have hmoves : Moves cx "" before (constructorStart cx unit parent sink) s₁ :=
    createAll_moves (List.Subset.refl _) hbefore
  -- Its owner was at hand when it was created, and still is.
  obtain ⟨record, hrecord, howner⟩ :=
    hmoves.isSome_owner? (generated_constructorNames cx unit parent) rfl ho
  obtain ⟨record', hrecord', ⟨hnone, -⟩ | ⟨owner, creation, -, rfl, hvalues⟩⟩ :=
    discard_emitSubobject_run hturn
  · rw [hrecord] at hrecord'
    cases hrecord'
    rw [hnone] at howner
    cases howner
  · have hlines := hvalues.moves.grows.trans
      (createAll_moves (List.Subset.refl _) hafter).grows
    obtain ⟨ls, hls⟩ := hlines.lines
    have hcount : 1 ≤ (createdBy s₁.lines).count creation.object := List.count_pos_iff.mpr ho
    rw [h.created_eq, ← hls, createdBy_append, createdBy_withCreation]
    simp only [List.count_append, List.count_singleton_self]
    omega

/-- **No object is created twice, unless an owned one was created ahead of its turn.**  An object
that the class does not list as its own is created at most once in any case.  All objects are,
exactly when no listed one was created before for the sake of another. -/
theorem created_once_iff (hunit : cx.schema.type cx.unit = .ok unit)
    (hparent : parentDefault? cx unit = .ok parent)
    (hrun : (emitConstructor cx).run s = (.ok c, t)) :
    (∀ o, o ∉ unit.ownedObjects → c.created.count o ≤ 1) ∧
    ((∀ o, c.created.count o ≤ 1) ↔
      ∀ before o after, unit.ownedObjects = before ++ o :: after →
        o ∉ createdAhead cx unit parent s.sink before) := by
  obtain ⟨mid, last, h⟩ := emitConstructor_run hunit hparent hrun
  refine ⟨fun o ho => h.count_created_le ho, fun honce before o after heq ho => ?_, fun hturn => ?_⟩
  · have htwice := two_le_count_created h heq ho
    exact absurd (honce o) (by omega)
  · have hmid : CreatedOnce mid := createdOnce_createAll hturn h.owned
    have hlast : CreatedOnce last :=
      h.moves.createdOnce ⟨List.nodup_nil, fun _ hmem => by cases hmem⟩
    -- The second block creates only what is not at hand, and so nothing of the first.
    have hdisjoint : (createdBy mid.lines).Disjoint (createdBy last.lines) := by
      intro o hfirst hsecond
      have hnone : mid.names.find? o = none := h.moves.find?_eq_none rfl hsecond
      have hsome := hmid.atHand o hfirst
      rw [hnone] at hsome
      cases hsome
    intro o
    rw [h.created_eq]
    exact List.nodup_iff_count_le_one.mp (hmid.nodup.append hlast.nodup hdisjoint) o

/-- The first part is listed after its peer. -/
theorem created_once_iff_peer_first :
    (heroConstructor [⟨2⟩, ⟨1⟩] ⟨2⟩ ⟨3⟩).created = [⟨2⟩, ⟨1⟩, ⟨3⟩] ∧
    ∀ o, (heroConstructor [⟨2⟩, ⟨1⟩] ⟨2⟩ ⟨3⟩).created.count o ≤ 1 := by
  refine ⟨by decide +kernel, (created_once_iff (type_heroContext [⟨2⟩, ⟨1⟩] ⟨2⟩ ⟨3⟩)
    (parentDefault?_heroContext ..) (run_of_isOk (by decide +kernel))).2.mpr ?_⟩
  intro before o after heq
  replace heq : [⟨2⟩, ⟨1⟩] = before ++ o :: after := heq
  rcases before with _ | ⟨p, _ | ⟨q, before⟩⟩
  · cases heq
    decide +kernel
  · cases heq
    decide +kernel
  · simp at heq

/-- The first part is listed before its peer, which is created for its sake and once more in its own
turn. -/
theorem peer_created_twice :
    (heroConstructor [⟨1⟩, ⟨2⟩] ⟨2⟩ ⟨3⟩).created = [⟨1⟩, ⟨2⟩, ⟨2⟩, ⟨3⟩] ∧
    (heroConstructor [⟨1⟩, ⟨2⟩] ⟨2⟩ ⟨3⟩).stored.map Line.text =
      ["auto __Local__ = NewObject<UPart>(GetClass(), TEXT(\"Fade\"));",
        "GetClass()->MiscObjects.Add(__Local__);",
        "auto __Local__0 = NewObject<UPart>(GetClass(), TEXT(\"Glow\"));",
        "GetClass()->MiscObjects.Add(__Local__0);", "__Local__->Peer = __Local__0;",
        "auto __Local__1 = NewObject<UPart>(GetClass(), TEXT(\"Glow\"));",
        "GetClass()->MiscObjects.Add(__Local__1);"] := by
  decide +kernel

/-! ### Scopes -/

/-- Every local that the second block uses is declared in it before: by an object that is bound
again, or by a creation. -/
def Constructor.InScope (c : Constructor) : Prop :=
  ∀ before l after, c.instanceLines = before ++ l :: after →
    ∀ k, l.Uses (LocalNames.localName k) →
      LocalNames.localName k ∈ c.rebindings.map (·.localName) ∨
        Declares before (LocalNames.localName k)

/-- **The second block uses its own locals only**, unless it refers to an object that the first
block created and did not store in the class. -/
theorem locals_in_scope_iff (hunit : cx.schema.type cx.unit = .ok unit)
    (hparent : parentDefault? cx unit = .ok parent)
    (hrun : (emitConstructor cx).run s = (.ok c, t)) :
    c.InScope ↔ ∀ o ∈ createdBy c.stored, o ∉ c.rebindings.map (·.object) →
      ∀ l ∈ c.instanceLines, ¬ l.RefersTo cx o := by
  obtain ⟨mid, last, h⟩ := emitConstructor_run hunit hparent hrun
  constructor
  · intro hscope o ho hstray l hl hrefers
    obtain ⟨creation, hc, -, hname⟩ := h.find?_of_created ho
    rw [h.stored] at hc
    obtain ⟨⟨k, hk⟩, -⟩ := h.firstMoves.localName_of_create rfl hc
    rw [hk] at hname
    have huses : l.Uses (LocalNames.localName k) :=
      h.moves.uses_of_refersTo rfl h.generated_eq hname (h.instanceLines ▸ hl) hrefers
    have hmem := LocalNames.mem_names_of_find? hname
    obtain ⟨before, after, heq⟩ := List.append_of_mem hl
    rcases hscope before l after heq k huses with hbound | ⟨creation', hc', hname'⟩
    · -- A name tells its object, so the object would be one that is bound again.
      obtain ⟨r, hr, hlocal⟩ := List.mem_map.mp hbound
      have hr' := LocalNames.mem_names_of_find? (h.localName_of_rebinding hr)
      rw [hlocal] at hr'
      exact hstray (List.mem_map.mpr ⟨r, hr, h.tallied.eq_of_mem hr' hmem⟩)
    · -- A name that is taken is not given out again.
      have hcreate : Line.create creation' ∈ last.lines := by
        rw [← h.instanceLines, heq]
        exact List.mem_append_left _ hc'
      have hfree := (h.moves.localName_of_create rfl hcreate).2
      rw [hname'] at hfree
      exact hfree (h.tallied.mem_taken hmem)
  · intro hstray before l after heq k huses
    have hl : l ∈ c.instanceLines := by
      rw [heq]
      exact List.mem_append_right _ List.mem_cons_self
    rw [h.instanceLines] at heq
    rcases h.moves.allKnown rfl h.generated_eq rfl before l after heq k huses with
      hdeclared | ⟨o, hname, hrefers⟩
    · exact .inr hdeclared
    · rcases h.firstMoves.find?_cases hname with hthis | ⟨creation, hc, hobject, -⟩
      · exact absurd (eq_this_of_find?_constructorNames cx unit parent hthis)
          (LocalNames.localName_ne_this k)
      · have ho : o ∈ createdBy c.stored := by
          rw [h.stored]
          exact mem_createdBy.mpr ⟨creation, hc, hobject⟩
        by_cases hbound : o ∈ c.rebindings.map (·.object)
        · obtain ⟨r, hr, rfl⟩ := List.mem_map.mp hbound
          have hlocal := h.localName_of_rebinding hr
          rw [hname] at hlocal
          exact .inl (List.mem_map.mpr ⟨r, hr, (Option.some.inj hlocal).symm⟩)
        · exact absurd hrefers (hstray o ho hbound l hl)

/-- The first part's peer belongs to the default object and is not stored, but the body is the first
part itself. -/
theorem locals_in_scope_iff_body_stored :
    (heroConstructor [⟨1⟩] ⟨3⟩ ⟨1⟩).instanceLines.map Line.text = ["Body = __Local__;"] ∧
    (heroConstructor [⟨1⟩] ⟨3⟩ ⟨1⟩).InScope := by
  refine ⟨by decide +kernel, (locals_in_scope_iff (type_heroContext [⟨1⟩] ⟨3⟩ ⟨1⟩)
    (parentDefault?_heroContext ..) (run_of_isOk (by decide +kernel))).mpr ?_⟩
  have hlines : (heroConstructor [⟨1⟩] ⟨3⟩ ⟨1⟩).instanceLines =
      [.assign ⟨some (.given ⟨0⟩), "", [.member ⟨1⟩ "Body"]⟩ (.object ⟨1⟩ "__Local__")] := rfl
  have hbound : ⟨1⟩ ∈ (heroConstructor [⟨1⟩] ⟨3⟩ ⟨1⟩).rebindings.map (·.object) := by
    decide +kernel
  intro o _ hstray l hl hrefers
  obtain rfl := List.mem_singleton.mp (hlines ▸ hl)
  obtain ⟨x, hx⟩ := hrefers
  cases hx
  exact hstray hbound

/-- The peer of the first part is the body of the default object: its local belongs to the first
block, and the second one uses it. -/
theorem local_used_out_of_scope :
    (heroConstructor [⟨1⟩] ⟨3⟩ ⟨3⟩).rebindings.map (·.localName) = ["__Local__"] ∧
    (heroConstructor [⟨1⟩] ⟨3⟩ ⟨3⟩).instanceLines.map Line.text = ["Body = __Local__0;"] ∧
    ¬ (heroConstructor [⟨1⟩] ⟨3⟩ ⟨3⟩).InScope := by
  refine ⟨by decide +kernel, by decide +kernel, fun hscope => ?_⟩
  rcases hscope [] _ [] rfl 1 (.inr ⟨⟨3⟩, rfl⟩) with hbound | ⟨creation, hc, -⟩
  · revert hbound
    decide +kernel
  · cases hc

/-! ### Storage -/

theorem text_storeStatement (o : ObjectId) (x : String) :
    (Line.register o x Constructor.storeStatement).text =
      "GetClass()->MiscObjects.Add(" ++ x ++ ");" := by
  rw [← String.toList_inj]
  simp [Line.text, Text.substitute, Text.substituteFrom, Constructor.storeStatement]

/-- What is stored in the class is bound again from there. -/
structure Constructor.ReadsBack (c : Constructor) : Prop where
  /-- The objects bound again are the stored ones, in order. -/
  objects : c.rebindings.map (·.object) = registeredBy c.stored
  /-- Each is read from the place that it was stored at. -/
  slots : c.rebindings.map (·.slot) = List.range (registeredBy c.stored).length
  /-- Each has a local under which it was created. -/
  locals : ∀ r ∈ c.rebindings, ∃ creation, Line.create creation ∈ c.stored ∧
    creation.object = r.object ∧ creation.localName = r.localName
  /-- A registration appends the local of a created object to the storage of the class. -/
  stores : ∀ o x text, Line.register o x text ∈ c.stored →
    (Line.register o x text).text = "GetClass()->MiscObjects.Add(" ++ x ++ ");" ∧
      ∃ creation, Line.create creation ∈ c.stored ∧ creation.object = o ∧ creation.localName = x

theorem ConstructorRun.readsBack (h : ConstructorRun cx unit parent sink c mid last) :
    c.ReadsBack where
  objects := h.map_object_rebindings
  slots := by
    rw [(rebind_ok h.rebindings).2.1, h.registered_eq, List.range_eq_range']
  locals := by
    intro r hr
    obtain ⟨creation, hc, hobject, hname⟩ :=
      h.find?_of_created (h.mem_createdBy_of_rebinding hr)
    exact ⟨creation, hc, hobject, Option.some.inj (hname.symm.trans (h.localName_of_rebinding hr))⟩
  stores := by
    intro o x text hl
    obtain ⟨rfl, hcreate⟩ := h.create_of_register hl
    exact ⟨text_storeStatement o x, hcreate⟩

/-- **What the first block stores in the class is read back**, place by place.  The second block
stores nothing, unless it creates an object that belongs to the class or to a stored object. -/
theorem stored_read_back (hunit : cx.schema.type cx.unit = .ok unit)
    (hparent : parentDefault? cx unit = .ok parent)
    (hrun : (emitConstructor cx).run s = (.ok c, t)) :
    c.ReadsBack ∧
    (registeredBy c.instanceLines = [] ↔
      ∀ o ∈ createdBy c.instanceLines, ∀ record, cx.objects.object o = .ok record →
        record.outer ≠ .type cx.unit ∧ ∀ r ∈ c.rebindings, record.outer ≠ .object r.object) := by
  obtain ⟨mid, last, h⟩ := emitConstructor_run hunit hparent hrun
  refine ⟨h.readsBack, ?_⟩
  have hregistered : mid.names.registered = c.rebindings.map (·.object) :=
    h.registered_eq.trans h.map_object_rebindings.symm
  rw [h.instanceLines, h.moves.registeredBy_eq_nil_iff rfl h.generated_eq]
  refine forall_congr' fun o => imp_congr_right fun _ => ?_
  simp only [StoredWith, LocalNames.StoresUnder, hregistered, List.mem_map]
  constructor
  · intro hnone record hrecord
    refine ⟨fun houter => hnone ⟨record, hrecord, .inl houter⟩, fun r hr houter => ?_⟩
    exact hnone ⟨record, hrecord, .inr ⟨r.object, ⟨r, hr, rfl⟩, houter⟩⟩
  · rintro hforeign ⟨record, hrecord, houter | ⟨_, ⟨r, hr, rfl⟩, houter⟩⟩
    · exact (hforeign record hrecord).1 houter
    · exact (hforeign record hrecord).2 r hr houter

/-- Two parts are stored, one of them for the sake of the other, and the body belongs to the default
object. -/
theorem stored_read_back_parts :
    registeredBy (heroConstructor [⟨1⟩] ⟨2⟩ ⟨3⟩).stored = [⟨1⟩, ⟨2⟩] ∧
    (heroConstructor [⟨1⟩] ⟨2⟩ ⟨3⟩).ReadsBack ∧
    registeredBy (heroConstructor [⟨1⟩] ⟨2⟩ ⟨3⟩).instanceLines = [] := by
  have hrun := run_of_isOk (x := emitConstructor (heroContext [⟨1⟩] ⟨2⟩ ⟨3⟩)) (s := {})
    (by decide +kernel)
  obtain ⟨hback, hnone⟩ := stored_read_back (type_heroContext [⟨1⟩] ⟨2⟩ ⟨3⟩)
    (parentDefault?_heroContext ..) hrun
  refine ⟨by decide +kernel, hback, hnone.mpr fun o ho record hrecord => ?_⟩
  have hcreated : createdBy (heroConstructor [⟨1⟩] ⟨2⟩ ⟨3⟩).instanceLines = [⟨3⟩] := by
    decide +kernel
  have hbound : (heroConstructor [⟨1⟩] ⟨2⟩ ⟨3⟩).rebindings.map (·.object) = [⟨1⟩, ⟨2⟩] := by
    decide +kernel
  obtain rfl : o = ⟨3⟩ := List.mem_singleton.mp (hcreated ▸ ho)
  obtain rfl : record = ⟨"Body", ⟨1⟩, .object ⟨0⟩, [], {}⟩ := (Except.ok.inj hrecord).symm
  refine ⟨by decide, fun r hr houter => ?_⟩
  have hmem : r.object ∈ [⟨1⟩, ⟨2⟩] := hbound ▸ List.mem_map_of_mem hr
  rw [← Outer.object.inj houter] at hmem
  revert hmem
  decide

/-- No part is listed, and the body is a part of the class: every instance creates it and stores it
in the class, and none reads it back. -/
theorem stored_by_every_instance :
    (heroConstructor [] ⟨2⟩ ⟨1⟩).instanceLines.map Line.text =
      ["auto __Local__ = NewObject<UPart>(GetClass(), TEXT(\"Fade\"));",
        "GetClass()->MiscObjects.Add(__Local__);",
        "auto __Local__0 = NewObject<UPart>(GetClass(), TEXT(\"Glow\"));",
        "GetClass()->MiscObjects.Add(__Local__0);", "__Local__->Peer = __Local__0;",
        "Body = __Local__;"] ∧
    (heroConstructor [] ⟨2⟩ ⟨1⟩).rebindings = [] := by
  decide +kernel

end

end GraphLowering.Defaults
