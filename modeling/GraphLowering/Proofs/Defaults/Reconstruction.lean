import GraphLowering.Proofs.Defaults.Objects
import GraphLowering.Proofs.Schema.Fields

/-!
# Defaults — reconstruction of live objects

The lines emitted for an object, replayed in order, rebuild the object together with the objects
that they create.

* `FieldsRestorable`: what is asked of the types involved; for given objects it can be computed
  (`FieldsRestorable.of_check`).
* `replay_reconstructs`: after the lines, every field of the object and of every object created
  on the way holds the value of the live one.
-/

namespace GraphLowering.Defaults

variable {cx : Context}

/-! ### The types involved -/

/-- The classes of some objects, and the structs that the values of their fields are made of. -/
inductive Involved (cx : Context) (objects : List ObjectId) : TypeId → Prop
  | cls {object : ObjectId} {o : ObjectRecord} : object ∈ objects →
      cx.objects.object object = .ok o → Involved cx objects o.cls
  | part {field : FieldId} {f : FieldDecl} {t id : TypeId} {fields : List FieldId} :
      Involved cx objects t → cx.schema.allFields t = .ok fields → field ∈ fields →
      cx.schema.field field = .ok f → f.type.structType? = some id → Involved cx objects id

/-- Fields of the types involved are emitted at all, and the structs in them have defaults that
fit. -/
def FieldsRestorable (cx : Context) (objects : List ObjectId) : Prop :=
  ∀ field f, IsField cx.schema (Involved cx objects) field f →
    f.flags.hasAny [.editorOnly, .transient] = false ∧ cx.schema.DefaultFits f.type

/-- The types involved are regular. -/
theorem FieldsRestorable.regular {objects : List ObjectId} (h : FieldsRestorable cx objects)
    (howned : FieldsOwned cx.schema) : Regular cx.schema (Involved cx objects) where
  nodup := fun _ _ _ hfields => howned.nodup_allFields hfields
  isKnown := fun _ _ _ hfields _ hmem => howned.field_of_mem_allFields hfields hmem
  restorable := by
    intro field f hisField
    refine ⟨fun id hid => ?_, (h field f hisField).2⟩
    obtain ⟨t, fields, ht, hfields, hmem, hf⟩ := hisField
    exact .part ht hfields hmem hf hid
  isWritten := fun field f hisField => (h field f hisField).1

/-- Whether every value that a live object was given fits its field. -/
def checkValues (cx : Context) : Bool :=
  cx.objects.objects.all fun o => o.values.all fun (field, v) =>
    match cx.schema.field field with
    | .ok f => cx.schema.fits f.arrayDim f.type v
    | .error _ => true

theorem ValuesFit.of_check (h : checkValues cx = true) : ValuesFit cx := by
  intro object o field v f ho hmem hf
  have hobject : o ∈ cx.objects.objects := by
    unfold ObjectStore.object at ho
    split at ho
    · rename_i hget
      cases ho
      exact Array.mem_of_getElem? hget
    · cases ho
  have hentry := List.all_eq_true.mp (Array.all_eq_true'.mp h o hobject) (field, v) hmem
  simpa only [hf] using hentry

/-- Whether a field is emitted at all, and a struct in it is one of `ts` with a default that
fits. -/
def checkField (schema : Schema) (ts : List TypeId) (f : FieldDecl) : Bool :=
  !f.flags.hasAny [.editorOnly, .transient] &&
    match f.type.structType? with
    | none => true
    | some id => ts.contains id &&
      match schema.structDefault id with
      | .ok default => schema.fits 1 (.struct id) default.toValue
      | .error _ => true

/-- Whether the fields of some types can be restored with these types alone. -/
def checkTypes (schema : Schema) (ts : List TypeId) : Bool :=
  ts.all fun t =>
    match schema.allFields t with
    | .error _ => true
    | .ok fields => fields.all fun field =>
      match schema.field field with
      | .error _ => true
      | .ok f => checkField schema ts f

/-- Whether the objects are of some types. -/
def checkClasses (cx : Context) (objects : List ObjectId) (ts : List TypeId) : Bool :=
  objects.all fun object =>
    match cx.objects.object object with
    | .error _ => true
    | .ok o => ts.contains o.cls

theorem checkField_of_checkTypes {schema : Schema} {ts : List TypeId}
    (h : checkTypes schema ts = true) {field : FieldId} {f : FieldDecl}
    (hf : IsField schema (· ∈ ts) field f) : checkField schema ts f = true := by
  obtain ⟨t, fields, ht, hfields, hmem, hfield⟩ := hf
  have htype := List.all_eq_true.mp h t ht
  simp only [hfields] at htype
  have hall := List.all_eq_true.mp htype field hmem
  simpa only [hfield] using hall

/-- The types involved are among those checked. -/
theorem Involved.mem_of_check {objects : List ObjectId} {ts : List TypeId}
    (htypes : checkTypes cx.schema ts = true) (hclasses : checkClasses cx objects ts = true)
    {t : TypeId} (ht : Involved cx objects t) : t ∈ ts := by
  induction ht with
  | cls hmem ho =>
      have hcheck := List.all_eq_true.mp hclasses _ hmem
      simpa only [ho, List.contains_iff_mem] using hcheck
  | part _ hfields hmem hf hid ih =>
      have hcheck := checkField_of_checkTypes htypes ⟨_, _, ih, hfields, hmem, hf⟩
      simp only [checkField, hid, Bool.and_eq_true, List.contains_iff_mem] at hcheck
      exact hcheck.2.1

theorem FieldsRestorable.of_check {objects : List ObjectId} (ts : List TypeId)
    (htypes : checkTypes cx.schema ts = true) (hclasses : checkClasses cx objects ts = true) :
    FieldsRestorable cx objects := by
  rintro field f ⟨t, fields, ht, hfields, hmem, hf⟩
  have hcheck := checkField_of_checkTypes htypes
    ⟨t, fields, ht.mem_of_check htypes hclasses, hfields, hmem, hf⟩
  simp only [checkField, Bool.and_eq_true, Bool.not_eq_true'] at hcheck
  refine ⟨hcheck.1, fun id value hid hvalue => ?_⟩
  have hpart := hcheck.2
  simp only [hid, hvalue, Bool.and_eq_true] at hpart
  exact hpart.2

/-! ### Reconstruction -/

/-- Every field of an object holds the value of the live one. -/
def Holds (cx : Context) (st : Store) (h : Holder) (object : ObjectId) : Prop :=
  ∃ fields, fieldsOf cx object = .ok fields ∧
    ∀ field ∈ fields, ∃ v, cx.fieldValue object field = .ok v ∧ st h field = some v

theorem Holds.of_settle {objects : List ObjectId} {c : ObjectId} (hc : c ∈ objects)
    (hvalues : HasValues cx c) (st : Store) : Holds cx (st.settle cx objects) (.created c) c := by
  obtain ⟨fields, hfields, hvs⟩ := hvalues
  refine ⟨fields, hfields, fun field hmem => ?_⟩
  obtain ⟨v, hv⟩ := hvs field hmem
  refine ⟨v, hv, ?_⟩
  simp [Store.settle, hc, held, hfields, hmem, hv, Except.toOption]

theorem Holds.of_fill {object : ObjectId} {fields : List FieldId}
    (hfields : fieldsOf cx object = .ok fields)
    (hvalues : ∀ field ∈ fields, ∃ v, cx.fieldValue object field = .ok v) (st : Store)
    (objects : List ObjectId) :
    Holds cx ((st.fill cx object (.given object) fields).settle cx objects) (.given object)
      object := by
  refine ⟨fields, hfields, fun field hmem => ?_⟩
  obtain ⟨v, hv⟩ := hvalues field hmem
  exact ⟨v, hv, by simp [Store.settle, Store.fill, hmem, hv, Except.toOption]⟩

/-- **Replaying the emitted lines reconstructs the object.**  Let nothing be reported, let all
values fit their fields, and let the types involved have only fields that are emitted.  Then the
lines, replayed on a store in which the object starts with the values of its archetype (of the
fields' defaults when it has none), end in a store in which the object and every object that the
lines create hold what the live ones do.  The lines are spelled by the expressions of the objects
and the names of the fields that they stand for. -/
theorem replay_reconstructs {edits : List Edit} {w : World} (hbuild : World.build edits = .ok w)
    {unit : TypeId} (hvalues : ValuesFit (w.context unit)) {object : ObjectId}
    {archetype : Option ObjectId} {root : String} {allowProtected : Bool} {s t : State}
    (hrun : (emitObject (w.context unit) object archetype root allowProtected).run s =
      (.ok (), t))
    (hquiet : t.sink.diagnostics = s.sink.diagnostics)
    (hfields : FieldsRestorable (w.context unit) (object :: createdSince s t)) :
    t.lines = s.lines ++ linesSince s t ∧
    (∀ l ∈ linesSince s t, l.Spelled (w.context unit) root t.names) ∧
    ∀ st : Store,
      (∀ fields, fieldsOf (w.context unit) object = .ok fields →
        Starts (w.context unit) st (.given object) archetype fields) →
      ∃ st', replay (w.context unit) (linesSince s t) st = some st' ∧
        Holds (w.context unit) st' (.given object) object ∧
        ∀ c ∈ createdBy (linesSince s t), Holds (w.context unit) st' (.created c) c := by
  have hregular := hfields.regular (fieldsOwned_of_build hbuild)
  -- Which objects are created is known only after the run, so the types involved are read off it.
  have hcls : ∀ c o, c ∈ object :: createdSince s t →
      (w.context unit).objects.object c = .ok o →
      Involved (w.context unit) (object :: createdSince s t) o.cls :=
    fun _ _ hc ho => .cls hc ho
  have hspawn : Creates (· ∈ object :: createdSince s t) (w.context unit) root
      (emitSubobject (w.context unit)) :=
    spawnFrom_creates hregular hvalues hcls _
  have hemits := emitObjectWith_emits hregular hvalues hspawn object archetype
    ⟨some (.given object), root, []⟩ allowProtected
  obtain ⟨hgrows, h⟩ := hemits s _ t hrun
  have hplace : Place.Spelled w.schema root s.names ⟨some (.given object), root, []⟩ :=
    ⟨rfl, fun _ hmem => by cases hmem⟩
  obtain ⟨fields, hfieldsOf, hvs, hreplays⟩ :=
    h () rfl ⟨hquiet, fun c hc => List.mem_cons_of_mem _ hc⟩ (.given object)
      (fun o ho => hcls object o List.mem_cons_self ho) rfl rfl hplace
  refine ⟨hgrows.lines_eq, hreplays.spelled, fun st hstarts => ?_⟩
  refine ⟨_, hreplays.replay_eq st _ ⟨hstarts fields hfieldsOf, rfl⟩, ?_, fun c hc => ?_⟩
  · exact Holds.of_fill hfieldsOf hvs st (createdSince s t)
  · exact Holds.of_settle hc (hreplays.hasValues c hc) _

/-! A car whose engine belongs to it: one member of its struct differs, one element of its static
array, and the engine refers back to the car. -/

def garageEdits : List Edit :=
  [.addStruct "Stats", .addField ⟨0⟩ "Power" .int, .addField ⟨0⟩ "Tags" ValueType.name.array,
    .addClass "Engine" none, .addField ⟨1⟩ "Torque" .int, .addField ⟨1⟩ "Car" (.object ⟨2⟩),
    .addClass "Car" none, .addField ⟨2⟩ "Stats" (.struct ⟨0⟩), .addField ⟨2⟩ "Wheels" .int,
    .changeField ⟨5⟩ [.arrayDim 2], .addField ⟨2⟩ "Kits" (ValueType.struct ⟨0⟩).array,
    .addField ⟨2⟩ "Engine" (.object ⟨1⟩),
    .addObject "Default__Car" ⟨2⟩ (.package "/Game"),
    .setValue ⟨0⟩ ⟨4⟩ (.struct ⟨0⟩ [.int 3, .array [.name "Old"]]),
    .setValue ⟨0⟩ ⟨5⟩ (.array [.int 1, .int 2]),
    .addObject "Car" ⟨2⟩ (.package "/Game"),
    .setValue ⟨1⟩ ⟨4⟩ (.struct ⟨0⟩ [.int 3, .array [.name "Fast"]]),
    .setValue ⟨1⟩ ⟨5⟩ (.array [.int 1, .int 7]),
    .setValue ⟨1⟩ ⟨6⟩ (.array [.struct ⟨0⟩ [.int 9, .array []]]),
    .setValue ⟨1⟩ ⟨7⟩ (.object (some ⟨2⟩)),
    .addObject "V8" ⟨1⟩ (.object ⟨1⟩),
    .setValue ⟨2⟩ ⟨2⟩ (.int 400),
    .setValue ⟨2⟩ ⟨3⟩ (.object (some ⟨1⟩))]

def garage : World := (World.build garageEdits).toOption.getD {}

def garageContext : Context := garage.context ⟨2⟩

/-- The car is at hand as `this`. -/
def garageState : State := { names := LocalNames.bind {} ⟨1⟩ "this" (some ⟨0⟩) }

/-- The state after the lines for the car. -/
def garageEnd : State :=
  ((emitObject garageContext ⟨1⟩ (some ⟨0⟩) "" true).run garageState).2

/-- The car starts like the default one. -/
def garageStart : Store := fun _ field => (startValue garageContext (some ⟨0⟩) field).toOption

theorem run_garage : (emitObject garageContext ⟨1⟩ (some ⟨0⟩) "" true).run garageState =
    (.ok (), garageEnd) := by
  have hok : ((emitObject garageContext ⟨1⟩ (some ⟨0⟩) "" true).run garageState).1.isOk = true := by
    decide +kernel
  generalize hr : (emitObject garageContext ⟨1⟩ (some ⟨0⟩) "" true).run garageState = r at hok
  have hend : garageEnd = r.2 := congrArg Prod.snd hr
  obtain ⟨a | a, t⟩ := r
  · cases hok
  · rw [hend]

theorem replay_reconstructs_garage :
    garageEnd.lines.map Line.text = ["Stats.Tags.Empty();", "Stats.Tags.Reserve(1);",
      "Stats.Tags.Add(FName(TEXT(\"Fast\")));", "Wheels[1] = 7;", "Kits.Reserve(1);",
      "Kits.Add(FStats::GetDefaultValue());", "Kits[0].Power = 9;",
      "auto __Local__ = CreateDefaultSubobject<UEngine>(TEXT(\"V8\"));",
      "__Local__->Torque = 400;", "__Local__->Car = this;", "Engine = __Local__;"] ∧
    ∃ st', replay garageContext garageEnd.lines garageStart = some st' ∧
      Holds garageContext st' (.given ⟨1⟩) ⟨1⟩ ∧ Holds garageContext st' (.created ⟨2⟩) ⟨2⟩ := by
  refine ⟨by decide +kernel, ?_⟩
  have hcreated : createdBy (linesSince garageState garageEnd) = [⟨2⟩] := by decide +kernel
  have hfields : FieldsRestorable garageContext (⟨1⟩ :: createdSince garageState garageEnd) :=
    FieldsRestorable.of_check [⟨2⟩, ⟨1⟩, ⟨0⟩] (by decide +kernel) (by decide +kernel)
  have hvalues : ValuesFit garageContext := ValuesFit.of_check (by decide +kernel)
  have hstarts : ∀ fields, fieldsOf garageContext ⟨1⟩ = .ok fields →
      Starts garageContext garageStart (.given ⟨1⟩) (some ⟨0⟩) fields := by
    intro fields _ field _ v hv
    rw [garageStart, hv]
    rfl
  obtain ⟨-, -, h⟩ := @replay_reconstructs garageEdits garage rfl ⟨2⟩ hvalues ⟨1⟩ (some ⟨0⟩) "" true
    garageState garageEnd run_garage (by decide +kernel) hfields
  obtain ⟨st', hreplay, hgiven, hrest⟩ := h garageStart hstarts
  exact ⟨st', hreplay, hgiven, hrest ⟨2⟩ (hcreated ▸ List.mem_cons_self)⟩

end GraphLowering.Defaults
