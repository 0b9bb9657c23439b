import GraphLowering.Defaults.StructFactory
import GraphLowering.Proofs.Defaults.Constructors
import GraphLowering.Proofs.Totality.Dependencies

/-!
# Totality — defaults

Emission of an object sets off that of others, each of which is new to the names and then is not; so
the objects without a name bound the nesting (`Emitting`).  The nesting of struct members is bounded
by the depth of the value (`Value.depth`).

* `Grounded.emitField`, `Grounded.emitSubobject`: fields and sub-objects.
* `Grounded.constructorCode`, `Grounded.structFactoryCode`: the code of a class and of a struct.
-/

namespace GraphLowering

/-! ### Values -/

namespace Value

variable {e : Extent} {v w : Value} {vs : List Value}

theorem depth_pos (v : Value) : 0 < v.depth := by
  cases v <;> simp only [depth] <;> omega

theorem depth_le_maxDepth (hv : v ∈ vs) : v.depth ≤ maxDepth vs := by
  induction vs with
  | nil => cases hv
  | cons w vs ih =>
      rw [maxDepth]
      rcases List.mem_cons.mp hv with rfl | hv
      · exact Nat.le_max_left _ _
      · exact Nat.le_trans (ih hv) (Nat.le_max_right _ _)

theorem depth_lt_array (hv : v ∈ vs) : v.depth < (Value.array vs).depth :=
  Nat.lt_succ_of_le (depth_le_maxDepth hv)

theorem depth_lt_struct {type : TypeId} (hv : v ∈ vs) : v.depth < (Value.struct type vs).depth :=
  Nat.lt_succ_of_le (depth_le_maxDepth hv)

theorem asObject_inRange (hv : v.inRange e = true) {o : ObjectId} (ho : v.asObject = some o) :
    o.InRange e := by
  cases v with
  | object r =>
      cases ho
      simpa [inRange] using hv
  | _ => cases ho

/-- An element of a static array is in range and no deeper than the array. -/
theorem staticElement_inRange (hv : v.inRange e = true) {i : Nat}
    (hw : v.staticElement i = some w) : w.inRange e = true ∧ w.depth ≤ v.depth := by
  unfold staticElement at hw
  split at hw
  · have hmem := List.mem_of_getElem? hw
    exact ⟨inRange_array.mp hv w hmem, Nat.le_of_lt (depth_lt_array hmem)⟩
  · split at hw
    · cases hw
      exact ⟨hv, Nat.le_refl _⟩
    · cases hw

end Value

open Defaults

variable {A : Prop} {cx : Context} {k d : Nat} {spawn : Spawn} {emitMember : FieldEmitter}

theorem Defaults.candidates_inRange {f : FieldDecl} {v : Value}
    (hv : v.inRange cx.extent = true) {base : Option Value} {p : Pending}
    (hp : p ∈ candidates f v base) :
    p.value.inRange cx.extent = true ∧ p.value.depth ≤ v.depth := by
  unfold candidates at hp
  split at hp
  · obtain ⟨i, _, hp⟩ := List.mem_filterMap.mp hp
    obtain ⟨w, hw, rfl⟩ := Option.map_eq_some_iff.mp hp
    exact Value.staticElement_inRange hv hw
  · cases List.mem_singleton.mp hp
    exact ⟨hv, Nat.le_refl _⟩

/-! ### States -/

/-- At most `k` objects have no name. -/
def Emitting (cx : Context) (k : Nat) (s : Defaults.State) : Prop :=
  unseen cx.objects.ids (fun o => (s.names.find? o).isSome) ≤ k

/-- With a name for the object, at most `k` objects have none. -/
def Admits (cx : Context) (k : Nat) (object : ObjectId) (s : Defaults.State) : Prop :=
  ∀ archetype, Emitting cx k { s with names := (s.names.addNew object archetype).2 }

namespace Emitting

variable {s : Defaults.State} {object : ObjectId}

theorem mono (h : Emitting cx k s) {m : Nat} (hle : k ≤ m) : Emitting cx m s := Nat.le_trans h hle

/-- There are no more objects without a name than there are. -/
theorem all (s : Defaults.State) : Emitting cx cx.objects.objects.size s :=
  Nat.le_trans unseen_le_length (by simp [ObjectStore.ids])

/-- An object that had no name leaves one less. -/
theorem admits (h : Emitting cx (k + 1) s) (ho : object.InRange cx.extent)
    (hnew : s.names.find? object = none) : Admits cx k object s := by
  intro archetype
  refine Nat.le_of_lt_succ (Nat.lt_of_lt_of_le ?_ h)
  refine unseen_lt (fun o hold => ?_) (mem_objectIds ho) (by simp [hnew])
    (by simp [LocalNames.find?_addNew])
  rw [LocalNames.find?_addNew]
  split
  · rfl
  · exact hold

end Emitting

/-- The step goes on with at most as many objects without a name. -/
abbrev Proceeds {α : Type} (A : Prop) (cx : Context) (k : Nat) (x : Emit α) : Prop :=
  Runs A (Emitting cx k) x fun _ => Emitting cx k

/-- Objects in range that have no name yet can be created. -/
def SpawnProceeds (A : Prop) (cx : Context) (k : Nat) (spawn : Spawn) : Prop :=
  ∀ o : ObjectId, o.InRange cx.extent →
    Runs A (fun s => Emitting cx k s ∧ s.names.find? o = none) (spawn o) fun _ => Emitting cx k

/-- Fields can be assigned values that are in range and at most `d` deep. -/
def FieldProceeds (A : Prop) (cx : Context) (k d : Nat) (emitter : FieldEmitter) : Prop :=
  ∀ field : FieldId, field.InRange cx.extent → ∀ v : Value, v.inRange cx.extent = true →
    v.depth ≤ d → ∀ base place, Proceeds A cx k (emitter field v base place)

theorem Defaults.report_proceeds (p : Problem) : Proceeds A cx k (report p) :=
  .update fun _ hs => hs

theorem Defaults.emit_proceeds (l : Line) : Proceeds A cx k (emit l) := .update fun _ hs => hs

namespace Grounded

/-! ### Lines -/

variable {t : ValueType} {v : Value}

theorem objectSource? (hspawn : SpawnProceeds A cx k spawn) (hv : v.inRange cx.extent = true) :
    Proceeds A cx k (objectSource? spawn t v) := by
  unfold Defaults.objectSource?
  split
  · split
    · exact .pure fun _ hs => hs
    · rename_i object hobject
      have hfind : Runs A (Emitting cx k) (find? object) fun r s =>
          Emitting cx k s ∧ s.names.find? object = r := fun _ hs => ⟨hs, rfl⟩
      refine .bind hfind fun r => ?_
      cases r with
      | some name => exact .pure fun _ hs => hs.1
      | none =>
          refine .bind (hspawn object (Value.asObject_inRange hv hobject)) fun r => ?_
          cases r with
          | some name => exact .pure fun _ hs => hs
          | none => exact .pure fun _ hs => hs
  · exact .pure fun _ hs => hs

theorem oneLine (h : Grounded A cx) (hspawn : SpawnProceeds A cx k spawn) (ht : t.InRange cx.extent)
    (hv : v.inRange cx.extent = true) : Proceeds A cx k (oneLine cx spawn t v) := by
  refine .bind (objectSource? hspawn hv) fun source => ?_
  cases source with
  | some source => exact .pure fun _ hs => hs
  | none =>
      refine .liftBind (h.render ht hv) fun r _ => ?_
      cases r with
      | ok text => exact .pure fun _ hs => hs
      | error problem =>
          dsimp only
          split
          · exact .liftBind (h.defaultText ht) fun _ _ => .pure fun _ hs => hs
          · exact .bind (report_proceeds problem) fun _ => .pure fun _ hs => hs

theorem emitMembers (hmember : FieldProceeds A cx k d emitMember) (place : Place)
    {fields : List FieldId} (hfields : ∀ f ∈ fields, f.InRange cx.extent) {members : List Value}
    (hmembers : ∀ m ∈ members, m.inRange cx.extent = true ∧ m.depth ≤ d) (base : List Value) :
    Proceeds A cx k (emitMembers emitMember place fields members base) := by
  induction fields generalizing members base with
  | nil => exact .pure fun _ hs => hs
  | cons field fields ih =>
      cases members with
      | nil => exact .pure fun _ hs => hs
      | cons member members =>
          obtain ⟨hrange, hdepth⟩ := hmembers member List.mem_cons_self
          refine .bind (hmember field (hfields field List.mem_cons_self) member hrange hdepth
            base.head? place) fun _ => ?_
          exact ih (fun f hf => hfields f (List.mem_cons_of_mem _ hf))
            (fun m hm => hmembers m (List.mem_cons_of_mem _ hm)) base.tail

/-- The members of a struct are less deep than the struct. -/
theorem emitStructMembers (h : Grounded A cx) (hmember : FieldProceeds A cx k d emitMember)
    {type : TypeId} {members : List Value}
    (hv : (Value.struct type members).inRange cx.extent = true)
    (hdepth : (Value.struct type members).depth ≤ d + 1) (base : StructValue) (place : Place) :
    Proceeds A cx k (emitStructMembers cx emitMember ⟨type, members⟩ base place) := by
  obtain ⟨htype, hmembers⟩ := Value.inRange_struct.mp hv
  refine .liftBind (h.allFields htype) fun fields hfields => ?_
  refine emitMembers hmember place hfields (fun m hm => ⟨hmembers m hm, ?_⟩) base.members
  exact Nat.le_of_lt_succ (Nat.lt_of_lt_of_le (Value.depth_lt_struct hm) hdepth)

theorem emitItems (h : Grounded A cx) (hspawn : SpawnProceeds A cx k spawn)
    (hmember : FieldProceeds A cx k d emitMember) (ht : t.InRange cx.extent) (place : Place)
    {items : List Value}
    (hitems : ∀ item ∈ items, item.inRange cx.extent = true ∧ item.depth ≤ d + 1) (i : Nat) :
    Proceeds A cx k (emitItems cx spawn emitMember t place i items) := by
  induction items generalizing i with
  | nil => exact .pure fun _ hs => hs
  | cons item items ih =>
      obtain ⟨hrange, hdepth⟩ := hitems item List.mem_cons_self
      have hrest := ih (fun w hw => hitems w (List.mem_cons_of_mem _ hw)) (i + 1)
      refine .bind (h.oneLine hspawn ht hrange) fun line => ?_
      cases line with
      | complete source => exact .bind (emit_proceeds _) fun _ => hrest
      | skip => exact hrest
      | incomplete source =>
          refine .bind (emit_proceeds _) fun _ => ?_
          cases item with
          | struct type members =>
              refine .liftBind (h.structDefault (Value.inRange_struct.mp hrange).1) fun base _ => ?_
              exact .bind (h.emitStructMembers hmember hrange hdepth base _) fun _ => hrest
          | _ => exact hrest

theorem emitArray (h : Grounded A cx) (hspawn : SpawnProceeds A cx k spawn)
    (hmember : FieldProceeds A cx k d emitMember) (ht : t.InRange cx.extent)
    (hv : v.inRange cx.extent = true) (hdepth : v.depth ≤ d + 1) (base : Option Value)
    (place : Place) : Proceeds A cx k (emitArray cx spawn emitMember t v base place) := by
  unfold Defaults.emitArray
  split
  · rename_i items
    have hfill : Proceeds A cx k (if !items.isEmpty then do
        emit (.reserve place items.length)
        Defaults.emitItems cx spawn emitMember t.element place 0 items
        else pure PUnit.unit) := by
      split
      · refine .bind (emit_proceeds _) fun _ => ?_
        refine h.emitItems hspawn hmember (element_inRange ht) place (fun item hitem => ?_) 0
        exact ⟨Value.inRange_array.mp hv item hitem,
          Nat.le_trans (Nat.le_of_lt (Value.depth_lt_array hitem)) hdepth⟩
      · exact .pure fun _ hs => hs
    dsimp only
    split
    · exact .bind (emit_proceeds _) fun _ => hfill
    · exact hfill
  · exact .pure fun _ hs => hs

theorem emitIncomplete (h : Grounded A cx) (hmember : FieldProceeds A cx k d emitMember)
    (source : Source) (hv : v.inRange cx.extent = true) (hdepth : v.depth ≤ d + 1)
    (base : Option Value) (place : Place) :
    Proceeds A cx k (emitIncomplete cx emitMember source v base place) := by
  unfold Defaults.emitIncomplete
  split
  · split
    · exact h.emitStructMembers hmember hv hdepth _ place
    · refine .bind (emit_proceeds _) fun _ => ?_
      refine .liftBind (h.structDefault (Value.inRange_struct.mp hv).1) fun base _ => ?_
      exact h.emitStructMembers hmember hv hdepth base place
  · exact .pure fun _ hs => hs

theorem emitValue (h : Grounded A cx) (hspawn : SpawnProceeds A cx k spawn)
    (hmember : FieldProceeds A cx k d emitMember) (ht : t.InRange cx.extent)
    (hv : v.inRange cx.extent = true) (hdepth : v.depth ≤ d + 1) (base : Option Value)
    (place : Place) : Proceeds A cx k (emitValue cx spawn emitMember t v base place) := by
  unfold Defaults.emitValue
  split
  · exact h.emitArray hspawn hmember ht hv hdepth base place
  · refine .bind (h.oneLine hspawn ht hv) fun line => ?_
    cases line with
    | complete source => exact emit_proceeds _
    | incomplete source => exact h.emitIncomplete hmember source hv hdepth base place
    | skip => exact .pure fun _ hs => hs

/-! ### Fields -/

/-- One more level of members. -/
theorem emitFieldWith (h : Grounded A cx) (hspawn : SpawnProceeds A cx k spawn)
    (hmember : FieldProceeds A cx k d emitMember) (allowProtected : Bool) :
    FieldProceeds A cx k (d + 1) (emitFieldWith cx spawn emitMember allowProtected) := by
  intro field hfield v hv hdepth base place
  refine .liftBind (h.field hfield) fun f ⟨_, hrange⟩ => ?_
  dsimp only
  split
  · exact .pure fun _ hs => hs
  · split
    · exact .pure fun _ hs => hs
    · split
      · exact report_proceeds _
      · refine .forM fun p hp => ?_
        obtain ⟨hvalue, hle⟩ := candidates_inRange hv (List.mem_of_mem_filter hp)
        exact h.emitValue hspawn hmember hrange.type hvalue (Nat.le_trans hle hdepth) p.base _

theorem emitMemberFrom (h : Grounded A cx) (hspawn : SpawnProceeds A cx k spawn) (n : Nat) :
    FieldProceeds A cx k n (emitMemberFrom cx spawn n) := by
  induction n with
  | zero =>
      -- No value has depth 0.
      intro _ _ v _ hdepth _ _
      exact absurd hdepth (Nat.not_le_of_lt v.depth_pos)
  | succ n ih => exact h.emitFieldWith hspawn ih false

theorem emitField (h : Grounded A cx) (hspawn : SpawnProceeds A cx k spawn) (allowProtected : Bool)
    {field : FieldId} (hfield : field.InRange cx.extent) (hv : v.inRange cx.extent = true)
    (base : Option Value) (place : Place) :
    Proceeds A cx k (emitField cx spawn allowProtected field v base place) :=
  h.emitFieldWith hspawn (h.emitMemberFrom hspawn v.depth) allowProtected field hfield v hv
    (Nat.le_succ _) base place

/-! ### Objects -/

theorem startValue (h : Grounded A cx) {archetype : Option ObjectId}
    (ha : ∀ a ∈ archetype, a.InRange cx.extent) {field : FieldId}
    (hfield : field.InRange cx.extent) : Ends A (startValue cx archetype field) := by
  cases archetype with
  | some a => exact (h.fieldValue (ha a rfl) hfield).ends
  | none => exact (h.fieldDefault hfield).ends

theorem emitObjectWith (h : Grounded A cx) (hspawn : SpawnProceeds A cx k spawn) {object : ObjectId}
    (ho : object.InRange cx.extent) {archetype : Option ObjectId}
    (ha : ∀ a ∈ archetype, a.InRange cx.extent) (place : Place) (allowProtected : Bool) :
    Proceeds A cx k (emitObjectWith cx spawn object archetype place allowProtected) := by
  refine .liftBind (h.object ho) fun record ⟨_, hrange⟩ => ?_
  refine .liftBind (h.allFields hrange.cls) fun fields hfields => .forM fun field hmem => ?_
  have hfield := hfields field hmem
  refine .liftBind (h.fieldValue ho hfield) fun v hv => ?_
  exact .liftBind (h.startValue ha hfield) fun base _ =>
    h.emitField hspawn allowProtected hfield hv (some base) place

theorem findSubobject?_inRange {outer object : ObjectId} {name : String} {cls : TypeId}
    (hfind : cx.objects.findSubobject? outer name cls = some object) :
    object.InRange cx.extent := by
  obtain ⟨i, hi, rfl⟩ := Option.map_eq_some_iff.mp hfind
  obtain ⟨hlt, -⟩ := List.findIdx?_eq_some_iff_getElem.mp hi
  rwa [Array.length_toList] at hlt

/-- The archetype of an object is in range, whatever the names say. -/
theorem archetypeFor (h : Grounded A cx) (names : LocalNames) {record : ObjectRecord}
    (hrecord : record.InRange cx.extent) :
    Answers A (archetypeFor cx names record) fun archetype =>
      ∀ a ∈ archetype, a.InRange cx.extent := by
  refine .bind (h.type hrecord.cls) fun decl ⟨_, hrange⟩ => .pure fun a ha => ?_
  rw [Option.orElse_eq_orElse, Option.orElse_eq_or] at ha
  rcases Option.or_eq_some_iff.mp ha with ha | ⟨_, ha⟩
  · split at ha
    · obtain ⟨base, _, ha⟩ := Option.bind_eq_some_iff.mp ha
      exact findSubobject?_inRange ha
    · cases ha
    · cases ha
  · exact hrange.defaultObject a ha

theorem recreate (h : Grounded A cx) (hspawn : SpawnProceeds A cx k spawn) {object : ObjectId}
    (ho : object.InRange cx.extent) {record : ObjectRecord} (hrecord : record.InRange cx.extent)
    (owner : LocalNames.Owner) :
    Runs A (Admits cx k object) (recreate cx spawn object record owner) fun _ =>
      Emitting cx k := by
  refine .getBind fun s _ => .liftBind (h.archetypeFor s.names hrecord) fun archetype ha => ?_
  have hadd : Runs A (Admits cx k object) (addNew object archetype) fun _ => Emitting cx k :=
    fun _ hs => hs archetype
  refine .bind hadd fun localName => .liftBind (h.cppName hrecord.cls) fun cls _ => ?_
  refine .bind (emit_proceeds _) fun _ => ?_
  -- From here on the object has its name, and `k` is what is left for its values.
  have hvalues := h.emitObjectWith hspawn ho ha
    ⟨some (.created object), localName ++ "->", []⟩ false
  dsimp only
  split
  · refine .bind (emit_proceeds _) fun _ => ?_
    refine .bind (Q := fun _ => Emitting cx k) (.update fun _ hs => hs) fun _ => ?_
    exact .bind hvalues fun _ => .pure fun _ hs => hs
  · exact .bind hvalues fun _ => .pure fun _ hs => hs

/-- One more level of objects that set off others. -/
theorem spawnFrom_succ (h : Grounded A cx) {m n : Nat} (hle : n ≤ m)
    (hspawn : SpawnProceeds A cx n (spawnFrom cx n)) {object : ObjectId}
    (ho : object.InRange cx.extent) :
    Runs A (fun s => Emitting cx m s ∧ Admits cx n object s) (spawnFrom cx (n + 1) object) fun _ =>
      Emitting cx m := by
  refine .liftBind (h.object ho) fun record ⟨_, hrange⟩ => .getBind fun s _ => ?_
  split
  · exact .pure fun _ hs => hs.1
  · rename_i owner _
    refine .bind ((h.recreate hspawn ho hrange owner).imp (fun _ hs => hs.2) fun _ _ hs => hs) ?_
    exact fun _ => .pure fun _ hs => hs.mono hle

theorem spawnFrom (h : Grounded A cx) (n : Nat) : SpawnProceeds A cx n (spawnFrom cx n) := by
  induction n with
  | zero =>
      -- Every object has a name, so there is none to create.
      intro object ho
      refine .endless fun s ⟨hs, hnew⟩ => ?_
      have hnamed := seen_of_unseen_le_zero hs (mem_objectIds ho)
      rw [hnew] at hnamed
      cases hnamed
  | succ n ih =>
      intro object ho
      exact (h.spawnFrom_succ (Nat.le_succ n) ih ho).imp
        (fun _ hs => ⟨hs.1, hs.1.admits ho hs.2⟩) fun _ _ hs => hs

/-- Emission with all objects left. -/
theorem emitSubobject (h : Grounded A cx) {object : ObjectId} (ho : object.InRange cx.extent) :
    Proceeds A cx cx.objects.objects.size (emitSubobject cx object) :=
  (h.spawnFrom_succ (Nat.le_refl _) (h.spawnFrom _) ho).imp
    (fun _ hs => ⟨hs, fun _ => .all _⟩) fun _ _ hs => hs

theorem emitSubobject_spawns (h : Grounded A cx) :
    SpawnProceeds A cx cx.objects.objects.size (Defaults.emitSubobject cx) :=
  fun _ ho => (h.emitSubobject ho).imp (fun _ hs => hs.1) fun _ _ hs => hs

/-! ### Constructors -/

theorem parentDefault? (h : Grounded A cx) {unit : TypeDecl} (hunit : unit.InRange cx.extent) :
    Answers A (parentDefault? cx unit) fun o => ∀ id ∈ o, id.InRange cx.extent := by
  unfold Defaults.parentDefault?
  split
  · rename_i parent hparent
    exact .bind (h.type (hunit.superType parent hparent)) fun _ ⟨_, hrange⟩ =>
      .pure hrange.defaultObject
  · exact .pure fun _ hmem => by cases hmem

theorem rebind (h : Grounded A cx) (names : LocalNames) {objects : List ObjectId}
    (hobjects : ∀ o ∈ objects, o.InRange cx.extent) (slot : Nat) :
    Ends A (rebind cx names slot objects) := by
  induction objects generalizing slot with
  | nil => exact .pure trivial
  | cons object objects ih =>
      refine .bind (h.object (hobjects object List.mem_cons_self)) fun record ⟨_, hrange⟩ => ?_
      refine .bind (h.cppName hrange.cls) fun _ _ => ?_
      exact .bind (ih (fun o ho => hobjects o (List.mem_cons_of_mem _ ho)) (slot + 1)) fun _ _ =>
        .pure trivial

theorem inheritedValue (h : Grounded A cx) {parentDefault : Option ObjectId}
    (hparent : ∀ o ∈ parentDefault, o.InRange cx.extent) {field : FieldId}
    (hfield : field.InRange cx.extent) : Ends A (inheritedValue cx parentDefault field) := by
  refine .bind (h.field hfield) fun decl _ => ?_
  split
  · exact .pure trivial
  · exact .bind (h.startValue hparent hfield) fun _ _ => .pure trivial

/-- Lines are set aside before a step, on which what the step needs does not depend. -/
theorem collectLines {P Q : Defaults.State → Prop} {x : Emit Unit}
    (hlines : ∀ s, P s → P { s with lines := [] }) (hx : Runs A P x fun _ => Q) :
    Runs A P (collectLines x) fun _ => Q := by
  refine .bind (Q := fun _ => P) (.update hlines) fun _ => ?_
  exact .bind hx fun _ => .getBind fun _ _ => .pure fun _ hs => hs

/-- What the owned objects of a unit have registered is in range. -/
theorem createAll (h : Grounded A cx) {os : List ObjectId} (hos : ∀ o ∈ os, o.InRange cx.extent) :
    Runs A (fun s => s.names.registered = []) (createAll cx os) fun _ s =>
      ∀ o ∈ s.names.registered, o.InRange cx.extent := by
  intro s hs
  have hcreate : Proceeds A cx cx.objects.objects.size (Defaults.createAll cx os) :=
    .forM fun o ho => .map (h.emitSubobject (hos o ho)) fun _ _ hs => hs
  have hrun := hcreate s (.all s)
  cases hresult : (Defaults.createAll cx os).run s with
  | mk result t =>
      rw [hresult] at hrun
      cases result with
      | error fault => exact hrun
      | ok _ =>
          intro o ho
          rcases (createAll_moves (List.Subset.refl os) hresult).object_of_registered ho with
            hold | ⟨record, hrecord⟩
          · rw [hs] at hold
            cases hold
          · exact ObjectStore.index_lt hrecord

theorem emitInstanceValues (h : Grounded A cx) {object : ObjectId} (ho : object.InRange cx.extent)
    {parentDefault : Option ObjectId} (hparent : ∀ o ∈ parentDefault, o.InRange cx.extent) :
    Proceeds A cx cx.objects.objects.size (emitInstanceValues cx object parentDefault) := by
  refine .liftBind (h.allFields h.unit) fun fields hfields => .forM fun field hmem => ?_
  have hfield := hfields field hmem
  refine .liftBind (h.fieldValue ho hfield) fun v hv => ?_
  exact .liftBind (h.inheritedValue hparent hfield) fun base _ =>
    h.emitField h.emitSubobject_spawns true hfield hv base _

theorem emitConstructor (h : Grounded A cx) :
    Runs A (fun _ => True) (emitConstructor cx) fun _ _ => True := by
  refine .liftBind (h.type h.unit) fun unit ⟨_, hunit⟩ => .liftBind (h.cppName h.unit) ?_
  refine fun cls _ => .liftBind (h.parentDefault? hunit) fun parentDefault hparent => ?_
  refine .bind (Q := fun _ s => s.names.registered = [])
    (.update fun s _ => registered_constructorNames cx unit parentDefault) fun _ => ?_
  refine .bind (collectLines (fun _ hs => hs) (h.createAll hunit.ownedObjects)) fun stored => ?_
  refine .getBind fun s hs => .liftBind (h.rebind s.names hs 0) fun rebindings _ => ?_
  dsimp only
  split
  · rename_i o ho
    have hassigned : Runs A (fun _ => True) (Defaults.emitInstanceValues cx o parentDefault)
        fun _ _ => True :=
      (h.emitInstanceValues (hunit.defaultObject o ho) hparent).imp (fun s _ => .all s)
        fun _ _ _ => trivial
    refine .bind (Q := fun _ _ => True) (.map (Q := fun _ _ => True) ?_ fun _ _ _ => trivial) ?_
    · exact (collectLines (fun _ _ => trivial) hassigned).imp (fun _ _ => trivial) fun _ _ hs => hs
    · exact fun _ => .pure fun _ _ => trivial
  · exact .pure fun _ _ => trivial

/-- **A class has the code of its constructor.** -/
theorem constructorCode (h : Grounded A cx) (sink : Sink) : Ends A (constructorCode cx sink) := by
  have hrun := h.emitConstructor { sink } trivial
  unfold Defaults.constructorCode
  generalize (Defaults.emitConstructor cx).run { sink } = r at hrun ⊢
  obtain ⟨fault | constructor, s⟩ := r
  · exact hrun
  · exact .pure trivial

/-- **A struct has the code of its factory.** -/
theorem structFactoryCode (h : Grounded A cx) {type : TypeId} (htype : type.InRange cx.extent)
    (sink : Sink) : Ends A (structFactoryCode cx type sink) := by
  refine .bind (h.cppName htype) fun name _ => .bind (h.structDefault htype) fun defaults hv => ?_
  refine .bind (h.allFields htype) fun fields hfields => ?_
  have hmembers : Proceeds A cx cx.objects.objects.size
      (emitDefaultMembers cx ⟨none, "DefaultData__.", []⟩ (fields.zip defaults.members)) := by
    refine .forM fun entry hentry => ?_
    have hfield := hfields entry.1 (List.of_mem_zip hentry).1
    have hvalue := (Value.inRange_struct.mp hv).2 entry.2 (List.of_mem_zip hentry).2
    exact h.emitField h.emitSubobject_spawns false hfield hvalue none _
  have hrun := hmembers { sink } (.all _)
  dsimp only
  generalize (emitDefaultMembers cx _ (fields.zip defaults.members)).run { sink } = r at hrun ⊢
  obtain ⟨fault | _, s⟩ := r
  · exact hrun
  · exact .pure trivial

end Grounded

end GraphLowering
