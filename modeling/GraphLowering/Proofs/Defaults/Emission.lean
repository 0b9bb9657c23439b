import GraphLowering.Proofs.Defaults.Runs
import GraphLowering.Proofs.Schema.Typing
import GraphLowering.Proofs.Values

/-!
# Defaults — emission of values

The lines emitted for a field turn the value that it starts with into the value it is to hold, for
values that fit the field.  The cases follow emission: whole values, arrays filled anew, structs
member by member, static arrays element by element.

* `emitValue_emits`, `emitFieldWith_fills`: one value and one field, given how members are
  emitted and objects created.
* `emitField_fills`: a field, by induction on the nesting of structs.
-/

namespace GraphLowering

namespace Defaults

variable {G : ObjectId → Prop} {cx : Context} {root : String} {P : TypeId → Prop}
  {spawn : Spawn} {emitMember : FieldEmitter}

/-! ### What is known of the types -/

/-- A field of one of the types `P`. -/
def IsField (schema : Schema) (P : TypeId → Prop) (field : FieldId) (f : FieldDecl) : Prop :=
  ∃ t fields, P t ∧ schema.allFields t = .ok fields ∧ field ∈ fields ∧ schema.field field = .ok f

theorem IsField.field_eq {schema : Schema} {field : FieldId} {f : FieldDecl}
    (h : IsField schema P field f) : schema.field field = .ok f := by
  obtain ⟨_, _, _, _, _, hf⟩ := h
  exact hf

/-- The values of a type are of structs among `P`, with defaults that fit. -/
structure Restorable (schema : Schema) (P : TypeId → Prop) (t : ValueType) : Prop where
  isPart : ∀ id, t.structType? = some id → P id
  defaultFits : schema.DefaultFits t

/-- The types `P` list each field once and no unknown one, are closed under the structs of their
fields, and have no field that emission passes over. -/
structure Regular (schema : Schema) (P : TypeId → Prop) : Prop where
  nodup : ∀ t fields, P t → schema.allFields t = .ok fields → fields.Nodup
  isKnown : ∀ t fields, P t → schema.allFields t = .ok fields →
    ∀ field ∈ fields, ∃ f, schema.field field = .ok f
  restorable : ∀ field f, IsField schema P field f → Restorable schema P f.type
  isWritten : ∀ field f, IsField schema P field f →
    f.flags.hasAny [.editorOnly, .transient] = false

theorem Restorable.element {schema : Schema} {t : ValueType} (h : Restorable schema P t) :
    Restorable schema P t.element :=
  ⟨h.isPart, h.defaultFits⟩

/-! ### What is known of the parts of emission -/

/-- A way to create objects: the object gets a local, and nothing at hand changes. -/
def Creates (G : ObjectId → Prop) (cx : Context) (root : String) (spawn : Spawn) : Prop :=
  ∀ object, Emits G (spawn object) fun s name? t => s.names.find? object = none →
    Replays cx root s t Eq ∧ ∀ name, name? = some name → t.names.find? object = some name

/-- From `s` to `t`, the lines added turn the value that a field starts with into the value it is
to hold. -/
def Filled (cx : Context) (root : String) (P : TypeId → Prop) (field : FieldId) (v : Value)
    (base : Option Value) (place : Place) (s t : State) : Prop :=
  ∀ f b, IsField cx.schema P field f → base = some b →
    cx.schema.fits f.arrayDim f.type v = true → cx.schema.fits f.arrayDim f.type b = true →
    place.Spelled cx.schema root s.names → Writes cx root s t (place.member field f.name) b v

/-- A way to emit fields that fills them. -/
def Fills (G : ObjectId → Prop) (cx : Context) (root : String) (P : TypeId → Prop)
    (emitMember : FieldEmitter) : Prop :=
  ∀ field v base place, Emits G (emitMember field v base place) fun s _ t =>
    Filled cx root P field v base place s t

/-! ### One line -/

theorem find?_emits (object : ObjectId) :
    Emits G (find? object) fun s name? t => t = s ∧ name? = s.names.find? object := by
  intro s r t hrun
  cases hrun
  exact ⟨Grows.refl s, fun b hb _ => by cases hb; exact ⟨rfl, rfl⟩⟩

/-- An object that stands for a value is spelled by its expression. -/
theorem objectSource?_emits (hspawn : Creates G cx root spawn) (t : ValueType) (v : Value) :
    Emits G (objectSource? spawn t v) fun s source? u => Replays cx root s u Eq ∧
      ∀ source, source? = some source →
        source.read cx.schema = some v ∧ source.Spelled cx u.names := by
  have hnone : Emits G (pure none : Emit (Option Source)) fun s source? u =>
      Replays cx root s u Eq ∧ ∀ source, source? = some source →
        source.read cx.schema = some v ∧ source.Spelled cx u.names :=
    Emits.pure fun s => ⟨Replays.rfl, fun _ h => by cases h⟩
  unfold objectSource?
  split
  · cases hv : v.asObject with
    | none => exact hnone
    | some object =>
        have hobject : v = .object (some object) := by
          cases v <;> simp_all [Value.asObject]
        refine Emits.bind (find?_emits object) fun found => ?_
        cases found with
        | some name =>
            refine Emits.pure fun u s hfound => ?_
            obtain ⟨rfl, hname⟩ := hfound
            refine ⟨Replays.rfl, fun source hsource => ?_⟩
            cases hsource
            exact ⟨by rw [hobject]; rfl, hname.symm⟩
        | none =>
            refine Emits.bind (hspawn object) fun created => ?_
            cases created with
            | some name =>
                refine Emits.pure fun u s hcreates s₀ hfound => ?_
                obtain ⟨rfl, hnone⟩ := hfound
                obtain ⟨hreplays, hname⟩ := hcreates hnone.symm
                refine ⟨hreplays, fun source hsource => ?_⟩
                cases hsource
                exact ⟨by rw [hobject]; rfl, hname name rfl⟩
            | none =>
                refine Emits.pure fun u s hcreates s₀ hfound => ?_
                obtain ⟨rfl, hnone⟩ := hfound
                exact ⟨(hcreates hnone.symm).1, fun _ h => by cases h⟩
  · exact hnone

/-- What a line written for a value stores. -/
def OneLine.Stores (cx : Context) (t : ValueType) (v : Value) (names : LocalNames) :
    OneLine → Prop
  | .complete source => source.read cx.schema = some v ∧ source.Spelled cx names
  | .incomplete source => t.category = .struct ∧ source.Spelled cx names ∧
      ∃ d, cx.schema.defaultValue t = .ok d ∧ source.read cx.schema = some d
  | .skip => False

/-- The running instance is always written `this`, so a type whose default was asked for has one. -/
theorem defaultValue_of_defaultText {t : ValueType} {v : Value} {problem : Problem} {text : String}
    (hrender : (Literal.render cx t v).run = .ok (.error problem))
    (h : Literal.defaultText cx t = .ok text) : ∃ d, cx.schema.defaultValue t = .ok d := by
  cases hself : t.isSelf with
  | true =>
      unfold Literal.render at hrender
      rw [if_pos hself] at hrender
      cases hrender
  | false =>
      simp only [Literal.defaultText, hself] at h
      obtain ⟨d, hd, -⟩ := Lookup.of_bind_ok h
      exact ⟨d, hd⟩

theorem oneLine_emits (hspawn : Creates G cx root spawn) (t : ValueType) (v : Value) :
    Emits G (oneLine cx spawn t v) fun s line u =>
      Replays cx root s u Eq ∧ line.Stores cx t v u.names := by
  unfold oneLine
  refine Emits.bind (objectSource?_emits hspawn t v) fun source? => ?_
  cases source? with
  | some source => exact Emits.pure fun u s h => ⟨h.1, h.2 source rfl⟩
  | none =>
      refine Emits.liftBind fun rendered hrendered => ?_
      cases rendered with
      | ok text => exact Emits.pure fun u s h => ⟨h.1, rfl, hrendered⟩
      | error problem =>
          simp only
          split
          · rename_i hstruct
            refine Emits.liftBind fun text htext => ?_
            obtain ⟨d, hd⟩ := defaultValue_of_defaultText hrendered htext
            refine Emits.pure fun u s h => ⟨h.1, hstruct, htext, d, hd, ?_⟩
            simp only [Source.read, hd, Except.toOption]
          · exact Emits.bind (Emits.report (P := fun _ _ _ => False)) fun _ =>
              Emits.pure fun u s h => h.elim

/-! ### Structs -/

/-- A place inside an object at hand, for values of a type. -/
structure Ready (cx : Context) (root : String) (P : TypeId → Prop) (names : LocalNames)
    (place : Place) (t : ValueType) : Prop where
  inside : place.steps ≠ []
  spelled : place.Spelled cx.schema root names
  restorable : Restorable cx.schema P t

theorem Ready.mono {n n' : LocalNames} {place : Place} {t : ValueType}
    (h : Ready cx root P n place t) (hn : Keeps n n') : Ready cx root P n' place t :=
  ⟨h.inside, h.spelled.mono hn, h.restorable⟩

theorem Ready.element {n : LocalNames} {place : Place} {t : ValueType}
    (h : Ready cx root P n place t) (i : Nat) : Ready cx root P n (place.element i) t :=
  ⟨List.append_ne_nil_of_right_ne_nil _ (List.cons_ne_nil _ _), h.spelled.element i, h.restorable⟩

/-- The place of a field among the members. -/
theorem slot?_eq {schema : Schema} {type : TypeId} {field : FieldId} {before after : List FieldId}
    (h : schema.allFields type = .ok (before ++ field :: after))
    (hnodup : (before ++ field :: after).Nodup) : slot? schema type field = some before.length := by
  have hnot : field ∉ before := fun hmem =>
    (List.nodup_append.mp hnodup).2.2 field hmem field List.mem_cons_self rfl
  simp only [slot?, h, Except.toOption, Option.bind_some]
  refine List.idxOf?_eq_some_iff.mpr ⟨by simp, by simp, fun j hj heq => hnot ?_⟩
  rw [List.getElem_append_left hj] at heq
  exact heq ▸ List.getElem_mem hj

/-- The members from some field on, when those before it are done. -/
theorem emitMembers_emits (hregular : Regular cx.schema P) (hmember : Fills G cx root P emitMember)
    (place : Place) (fields : List FieldId) (members base : List Value) :
    Emits G (emitMembers emitMember place fields members base) fun s _ t =>
      ∀ type before pre, P type → cx.schema.allFields type = .ok (before ++ fields) →
        pre.length = before.length → cx.schema.membersFit fields members = true →
        cx.schema.membersFit fields base = true → place.steps ≠ [] →
        place.Spelled cx.schema root s.names →
        Writes cx root s t place (.struct type (pre ++ base)) (.struct type (pre ++ members)) := by
  induction fields generalizing members base with
  | nil =>
      have hrun : emitMembers emitMember place [] members base = pure () := by
        cases members <;> rfl
      rw [hrun]
      refine Emits.pure fun s type before pre _ _ _ hmembers hbase _ _ => ?_
      rw [Schema.membersFit_nil hmembers, Schema.membersFit_nil hbase]
      exact Writes.refl s place _
  | cons field fields ih =>
      cases members with
      | nil =>
          refine Emits.pure fun s type before pre _ _ _ hmembers => ?_
          obtain ⟨f, v, rest, hcons, -⟩ := Schema.membersFit_cons hmembers
          cases hcons
      | cons member members =>
          refine Emits.bind (hmember field member base.head? place) fun _ => ?_
          refine (ih members base.tail).imp fun t _ u htail s hhead => ?_
          intro type before pre htype hfields hpre hmembers hbase hsteps hplace
          obtain ⟨f, v, rest, hcons, hf, hv, hrest⟩ := Schema.membersFit_cons hmembers
          cases hcons
          obtain ⟨f', b, bs, rfl, hf', hb, hbs⟩ := Schema.membersFit_cons hbase
          cases hf.symm.trans hf'
          have hisField : IsField cx.schema P field f :=
            ⟨type, _, htype, hfields, List.mem_append_right _ List.mem_cons_self, hf⟩
          -- No field is listed twice, so the path of this one leads to the first member left.
          have hslot : slot? cx.schema type field = some pre.length :=
            hpre ▸ slot?_eq hfields (hregular.nodup type _ htype hfields)
          have hwrite := hhead f b hisField rfl hv hb hplace
          have hfirst : Writes cx root s t place (.struct type (pre ++ b :: bs))
              (.struct type (pre ++ member :: bs)) := hwrite.member hslot hsteps
          have hnext := htail type (before ++ [field]) (pre ++ [member]) htype
            (by simpa using hfields) (by simp [hpre]) hrest hbs hsteps (hplace.mono hwrite.keeps)
          simp only [List.append_assoc, List.cons_append, List.nil_append, List.tail_cons] at hnext
          exact hfirst.trans hnext hplace

/-- A struct is written member by member onto a base of its type. -/
theorem emitStructMembers_emits (hregular : Regular cx.schema P)
    (hmember : Fills G cx root P emitMember) (t : ValueType) (type : TypeId) (members : List Value)
    (base : StructValue) (place : Place) :
    Emits G (emitStructMembers cx emitMember ⟨type, members⟩ base place) fun s _ u =>
      Ready cx root P s.names place t → cx.schema.fits 1 t (.struct type members) = true →
        cx.schema.fits 1 t base.toValue = true →
        Writes cx root s u place base.toValue (.struct type members) := by
  refine Emits.liftBind fun fields hfields => ?_
  refine (emitMembers_emits hregular hmember place fields members base.members).imp ?_
  intro s _ u h hplace hv hb
  obtain ⟨baseType, baseMembers⟩ := base
  obtain ⟨-, hid, fields₁, hfields₁, hmembers⟩ := Schema.fits_struct hv
  obtain ⟨-, hid₂, fields₂, hfields₂, hbase⟩ := Schema.fits_struct hb
  obtain rfl : type = baseType := Option.some.inj (hid.symm.trans hid₂)
  cases hfields.symm.trans hfields₁
  cases hfields.symm.trans hfields₂
  exact h type [] [] (hplace.restorable.isPart type hid) hfields rfl hmembers hbase hplace.inside
    hplace.spelled

/-- The default that the members of a struct are written onto is that of its type. -/
theorem structDefault_of_fits {t : ValueType} {type : TypeId} {members : List Value} {d : Value}
    {default : StructValue} (ht : Restorable cx.schema P t)
    (hfits : cx.schema.fits 1 t (.struct type members) = true)
    (hd : cx.schema.defaultValue t = .ok d)
    (hdefault : cx.schema.structDefault type = .ok default) :
    d = default.toValue ∧ cx.schema.fits 1 t default.toValue = true := by
  obtain ⟨harray, hid, -⟩ := Schema.fits_struct hfits
  obtain ⟨value, hvalue, rfl⟩ := Schema.defaultValue_eq_structDefault harray hid hd
  cases hdefault.symm.trans hvalue
  exact ⟨rfl, Schema.defaultValue_fits ht.defaultFits hd⟩

/-- A struct type with other values than structs has only one value. -/
theorem eq_of_fits_structType {t : ValueType} {v w : Value} (harray : t.isArray = false)
    (hstruct : t.category = .struct) (hv : cx.schema.fits 1 t v = true)
    (hw : cx.schema.fits 1 t w = true) (hnot : ∀ type members, v ≠ .struct type members) :
    w = v := by
  rcases Schema.fits_structType harray hstruct hv with ⟨type, members, rfl⟩ | ⟨hid, rfl⟩
  · exact absurd rfl (hnot type members)
  · rcases Schema.fits_structType harray hstruct hw with ⟨type, members, rfl⟩ | ⟨-, rfl⟩
    · rw [(Schema.fits_struct hw).2.1] at hid
      cases hid
    · rfl

/-! ### Arrays -/

/-- Append one item of an array. -/
def emitItem (cx : Context) (spawn : Spawn) (emitMember : FieldEmitter) (t : ValueType)
    (place : Place) (i : Nat) (item : Value) : Emit Unit := do
  match ← oneLine cx spawn t item with
  | .complete source => emit (.append place source)
  | .incomplete source =>
    emit (.append place source)
    match item with
    | .struct type members =>
      let default ← cx.schema.structDefault type
      emitStructMembers cx emitMember ⟨type, members⟩ default (place.element i)
    | _ => pure ()
  | .skip => pure ()

theorem emitItems_cons (t : ValueType) (place : Place) (i : Nat) (item : Value)
    (rest : List Value) : emitItems cx spawn emitMember t place i (item :: rest) =
      emitItem cx spawn emitMember t place i item >>= fun _ =>
        emitItems cx spawn emitMember t place (i + 1) rest := by
  unfold emitItem
  rw [bind_assoc]
  change oneLine cx spawn t item >>= _ = _
  congr 1
  funext line
  cases line with
  | complete source => rfl
  | incomplete source =>
      cases item <;> simp only [bind_assoc, pure_bind]
  | skip => exact (pure_bind _ _).symm

/-- Lines that change nothing at hand, then one that appends to an array. -/
theorem Writes.append {s t : State} {place : Place} {source : Source} {w : Value}
    (h : Replays cx root s t Eq) (hplace : place.Spelled cx.schema root s.names)
    (hread : source.read cx.schema = some w) (hsource : source.Spelled cx t.names)
    (pre : List Value) :
    Writes cx root s (t.withLine (.append place source)) place (.array pre)
      (.array (pre ++ [w])) := by
  refine Writes.after h ?_ hplace
  refine Writes.line (f := onItems (· ++ [w])) ⟨hplace.mono h.keeps, hsource⟩ rfl (fun st => ?_) rfl
  simp only [Line.apply, hread, Option.bind_some]

/-- An item is appended; one with no literal form is appended as its default and then changed
where it stands. -/
theorem emitItem_emits (hregular : Regular cx.schema P) (hspawn : Creates G cx root spawn)
    (hmember : Fills G cx root P emitMember) (t : ValueType) (place : Place) (i : Nat)
    (item : Value) :
    Emits G (emitItem cx spawn emitMember t place i item) fun s _ u =>
      ∀ pre, pre.length = i → Ready cx root P s.names place t → t.isArray = false →
        cx.schema.fits 1 t item = true →
        Writes cx root s u place (.array pre) (.array (pre ++ [item])) := by
  refine Emits.bind (oneLine_emits hspawn t item) fun line => ?_
  cases line with
  | complete source =>
      refine (Emits.emit _).imp fun t₁ _ u hemit s hline pre hpre hplace harray hfits => ?_
      obtain ⟨rfl, -⟩ := hemit
      exact Writes.append hline.1 hplace.spelled hline.2.1 hline.2.2 pre
  | incomplete source =>
      refine Emits.bind (Emits.emit _) fun _ => ?_
      split
      · rename_i type members
        refine Emits.liftBind fun default hdefault => ?_
        refine (emitStructMembers_emits hregular hmember t type members default
          (place.element i)).imp ?_
        intro t₂ _ u hmembers t₁ hemit s hline pre hpre hplace harray hfits
        obtain ⟨rfl, -⟩ := hemit
        obtain ⟨hreplays, hstruct, hsource, d, hd, hread⟩ := hline
        obtain ⟨rfl, hbase⟩ := structDefault_of_fits hplace.restorable hfits hd hdefault
        -- The default now stands at number `i`, and the members are written onto it there.
        have happend := Writes.append hreplays hplace.spelled hread hsource pre
        have hready := (hplace.mono happend.keeps).element i
        exact happend.trans ((hmembers hready hfits hbase).element hpre hplace.inside)
          hplace.spelled
      · rename_i hnot
        refine Emits.pure fun t₂ t₁ hemit s hline pre hpre hplace harray hfits => ?_
        obtain ⟨rfl, -⟩ := hemit
        obtain ⟨hreplays, hstruct, hsource, d, hd, hread⟩ := hline
        have hdefault := Schema.defaultValue_fits hplace.restorable.defaultFits hd
        obtain rfl := eq_of_fits_structType harray hstruct hfits hdefault hnot
        exact Writes.append hreplays hplace.spelled hread hsource pre
  | skip => exact Emits.pure fun t₁ s hline => hline.2.elim

theorem emitItems_emits (hregular : Regular cx.schema P) (hspawn : Creates G cx root spawn)
    (hmember : Fills G cx root P emitMember) (t : ValueType) (place : Place) (i : Nat)
    (items : List Value) :
    Emits G (emitItems cx spawn emitMember t place i items) fun s _ u =>
      ∀ pre, pre.length = i → Ready cx root P s.names place t → t.isArray = false →
        (∀ item ∈ items, cx.schema.fits 1 t item = true) →
        Writes cx root s u place (.array pre) (.array (pre ++ items)) := by
  induction items generalizing i with
  | nil =>
      refine Emits.pure fun s pre _ _ _ _ => ?_
      rw [List.append_nil]
      exact Writes.refl s place _
  | cons item rest ih =>
      rw [emitItems_cons]
      refine Emits.bind (emitItem_emits hregular hspawn hmember t place i item) fun _ => ?_
      refine (ih (i + 1)).imp fun t₁ _ u hrest s hitem pre hpre hplace harray hfits => ?_
      have hfirst := hitem pre hpre hplace harray (hfits item List.mem_cons_self)
      have hnext := hrest (pre ++ [item]) (by simp [hpre]) (hplace.mono hfirst.keeps) harray
        fun x hx => hfits x (List.mem_cons_of_mem _ hx)
      rw [List.append_assoc, List.singleton_append] at hnext
      exact hfirst.trans hnext hplace.spelled

/-- An empty array is filled. -/
theorem fillArray_emits (hregular : Regular cx.schema P) (hspawn : Creates G cx root spawn)
    (hmember : Fills G cx root P emitMember) (t : ValueType) (items : List Value) (place : Place) :
    Emits G (if !items.isEmpty then do
        emit (.reserve place items.length)
        emitItems cx spawn emitMember t.element place 0 items
      else pure ()) fun s _ u =>
      Ready cx root P s.names place t →
        (∀ item ∈ items, cx.schema.fits 1 t.element item = true) →
        Writes cx root s u place (.array []) (.array items) := by
  cases items with
  | nil => exact Emits.pure fun s _ _ => Writes.refl s place _
  | cons item rest =>
      refine Emits.bind (Emits.emit _) fun _ => ?_
      refine (emitItems_emits hregular hspawn hmember t.element place 0 (item :: rest)).imp ?_
      intro t₁ _ u hitems s hemit hplace hfits
      obtain ⟨rfl, -⟩ := hemit
      have hreserve : Writes cx root s (s.withLine (.reserve place (item :: rest).length)) place
          (.array []) (.array []) :=
        Writes.line (f := onItems id) hplace.spelled rfl (fun _ => rfl) rfl
      have hready := hplace.mono hreserve.keeps
      exact hreserve.trans (hitems [] rfl ⟨hready.inside, hready.spelled, hready.restorable.element⟩
        rfl hfits) hplace.spelled

theorem emitArray_emits (hregular : Regular cx.schema P) (hspawn : Creates G cx root spawn)
    (hmember : Fills G cx root P emitMember) (t : ValueType) (v : Value) (base : Option Value)
    (place : Place) :
    Emits G (emitArray cx spawn emitMember t v base place) fun s _ u =>
      ∀ b, base = some b → Ready cx root P s.names place t → t.isArray = true →
        cx.schema.fits 1 t v = true → cx.schema.fits 1 t b = true →
        Writes cx root s u place b v := by
  unfold emitArray
  split
  · rename_i items
    have hfill := fillArray_emits hregular hspawn hmember t items place
    simp only
    split
    · refine Emits.bind (Emits.emit _) fun _ => hfill.imp ?_
      intro t₁ _ u h s hemit b hbase hplace harray hv hb
      obtain ⟨rfl, -⟩ := hemit
      obtain ⟨items', rfl, -⟩ := Schema.fits_array harray hb
      obtain ⟨_, heq, hitems⟩ := Schema.fits_array harray hv
      cases heq
      have hclear : Writes cx root s (s.withLine (.clear place)) place (.array items')
          (.array []) :=
        Writes.line (f := onItems fun _ => []) hplace.spelled rfl (fun _ => rfl) rfl
      exact hclear.trans (h (hplace.mono hclear.keeps) hitems) hplace.spelled
    · rename_i hempty
      refine hfill.imp fun s _ u h b hbase hplace harray hv hb => ?_
      subst hbase
      obtain ⟨items', rfl, -⟩ := Schema.fits_array harray hb
      obtain ⟨_, heq, hitems⟩ := Schema.fits_array harray hv
      cases heq
      -- The base has no items, or they would have been cleared.
      cases items' with
      | nil => exact h hplace hitems
      | cons item rest => exact absurd rfl hempty
  · rename_i hnot
    refine Emits.pure fun s b _ _ harray hv _ => ?_
    obtain ⟨items, rfl, -⟩ := Schema.fits_array harray hv
    exact absurd rfl (hnot items)

/-! ### Values -/

/-- Where there is a base, a struct with no literal form is written onto it. -/
theorem emitIncomplete_emits (hregular : Regular cx.schema P)
    (hmember : Fills G cx root P emitMember) (t : ValueType) (source : Source) (v : Value)
    (base : Option Value) (place : Place) :
    Emits G (emitIncomplete cx emitMember source v base place) fun s _ u =>
      ∀ b, base = some b → Ready cx root P s.names place t → t.isArray = false →
        t.category = .struct → cx.schema.fits 1 t v = true → cx.schema.fits 1 t b = true →
        Writes cx root s u place b v := by
  unfold emitIncomplete
  split
  · rename_i type members
    split
    · rename_i baseType baseMembers
      refine (emitStructMembers_emits hregular hmember t type members ⟨baseType, baseMembers⟩
        place).imp fun s _ u h b hbase hplace _ _ hv hb => ?_
      cases hbase
      exact h hplace hv hb
    · rename_i hnot
      refine Emits.bind (Emits.emit _) fun _ => Emits.liftBind fun default _ => ?_
      refine (emitStructMembers_emits hregular hmember t type members default place).imp ?_
      intro t₁ _ u _ s _ b hbase _ harray hstruct hv hb
      -- A base that is no struct would be the only value of the type.
      obtain rfl := eq_of_fits_structType harray hstruct hb hv fun type members heq =>
        hnot type members (hbase.trans (congrArg some heq))
      exact absurd hbase (hnot type members)
  · rename_i hnot
    refine Emits.pure fun s b _ _ harray hstruct hv hb => ?_
    rw [eq_of_fits_structType harray hstruct hv hb hnot]
    exact Writes.refl s place v

/-- The lines emitted for a value turn the value that its place starts with into it. -/
theorem emitValue_emits (hregular : Regular cx.schema P) (hspawn : Creates G cx root spawn)
    (hmember : Fills G cx root P emitMember) (t : ValueType) (v : Value) (base : Option Value)
    (place : Place) :
    Emits G (emitValue cx spawn emitMember t v base place) fun s _ u =>
      ∀ b, base = some b → Ready cx root P s.names place t → cx.schema.fits 1 t v = true →
        cx.schema.fits 1 t b = true → Writes cx root s u place b v := by
  unfold emitValue
  split
  · rename_i harray
    exact (emitArray_emits hregular hspawn hmember t v base place).imp
      fun s _ u h b hbase hplace hv hb => h b hbase hplace harray hv hb
  · rename_i harray
    refine Emits.bind (oneLine_emits hspawn t v) fun line => ?_
    cases line with
    | complete source =>
        refine (Emits.emit _).imp fun t₁ _ u hemit s hline b hbase hplace hv hb => ?_
        obtain ⟨rfl, -⟩ := hemit
        obtain ⟨hreplays, hread, hsource⟩ := hline
        refine Writes.after hreplays ?_ hplace.spelled
        refine Writes.line (f := fun _ => some v) ⟨hplace.spelled.mono hreplays.keeps, hsource⟩
          rfl (fun st => ?_) rfl
        simp only [Line.apply, hread, Option.bind_some]
    | incomplete source =>
        refine (emitIncomplete_emits hregular hmember t source v base place).imp ?_
        intro t₁ _ u h s hline b hbase hplace hv hb
        obtain ⟨hreplays, hstruct, -⟩ := hline
        exact Writes.after hreplays (h b hbase (hplace.mono hreplays.keeps)
          (Bool.not_eq_true _ ▸ harray) hstruct hv hb) hplace.spelled
    | skip => exact Emits.pure fun t₁ s hline => hline.2.elim

/-! ### Fields -/

/-- What is not due is there already. -/
theorem eq_of_not_isDue {f : FieldDecl} {index : Option Nat} {v b : Value}
    (h : Pending.isDue f ⟨index, v, some b⟩ = false) : v = b := by
  have hidentical : v.identical b = true := by
    cases hb : v.identical b with
    | true => rfl
    | false => simp [Pending.isDue, hb] at h
  exact Value.eq_of_identical v b hidentical

/-- The elements of a static array from number `i` on, each with the one it starts with. -/
def pendingFrom : Nat → List Value → List Value → List Pending
  | i, v :: vs, b :: bs => ⟨some i, v, some b⟩ :: pendingFrom (i + 1) vs bs
  | _, _, _ => []

theorem filterMap_elements (pre pre' : List Value) {vs bs : List Value} {i : Nat}
    (hpre : pre.length = i) (hpre' : pre'.length = i) (hlen : vs.length = bs.length) :
    (List.range' i vs.length).filterMap (fun j =>
      (pre ++ vs)[j]?.map fun v => (⟨some j, v, (pre' ++ bs)[j]?⟩ : Pending)) =
      pendingFrom i vs bs := by
  induction vs generalizing bs pre pre' i with
  | nil => rfl
  | cons v vs ih =>
      cases bs with
      | nil => cases hlen
      | cons b bs =>
          have hrest := ih (pre ++ [v]) (pre' ++ [b]) (i := i + 1) (by simp [hpre])
            (by simp [hpre']) (Nat.succ.inj hlen)
          simp only [List.append_assoc, List.singleton_append] at hrest
          have hv : (pre ++ v :: vs)[i]? = some v := by simp [← hpre]
          have hb : (pre' ++ b :: bs)[i]? = some b := by simp [← hpre']
          rw [List.length_cons, List.range'_succ, List.filterMap_cons]
          simp only [hv, hb, Option.map_some, hrest, pendingFrom]

theorem candidates_static {f : FieldDecl} {vs bs : List Value} (hdim : 1 < f.arrayDim)
    (hvs : vs.length = f.arrayDim) (hbs : bs.length = f.arrayDim) :
    candidates f (.array vs) (some (.array bs)) = pendingFrom 0 vs bs := by
  rw [candidates, if_pos hdim, List.range_eq_range', ← hvs]
  exact filterMap_elements [] [] rfl rfl (hvs.trans hbs.symm)

/-- The elements that are due are written where they stand; the others are there already. -/
theorem emitElements_emits (hregular : Regular cx.schema P) (hspawn : Creates G cx root spawn)
    (hmember : Fills G cx root P emitMember) (f : FieldDecl) (place : Place) (i : Nat)
    (vs bs : List Value) :
    Emits G (((pendingFrom i vs bs).filter (Pending.isDue f)).forM fun p =>
        emitValue cx spawn emitMember f.type p.value p.base (p.place place)) fun s _ u =>
      ∀ pre, pre.length = i → vs.length = bs.length → Ready cx root P s.names place f.type →
        (∀ v ∈ vs, cx.schema.fits 1 f.type v = true) →
        (∀ b ∈ bs, cx.schema.fits 1 f.type b = true) →
        Writes cx root s u place (.array (pre ++ bs)) (.array (pre ++ vs)) := by
  induction vs generalizing bs i with
  | nil =>
      refine Emits.pure fun s pre _ hlen _ _ _ => ?_
      rw [List.eq_nil_of_length_eq_zero hlen.symm]
      exact Writes.refl s place _
  | cons v vs ih =>
      cases bs with
      | nil => exact Emits.pure fun s pre _ hlen _ _ _ => by cases hlen
      | cons b bs =>
          rw [pendingFrom, List.filter_cons]
          split
          · refine Emits.bind (emitValue_emits hregular hspawn hmember f.type v (some b)
              (place.element i)) fun _ => (ih (i + 1) bs).imp ?_
            intro t₁ _ u hrest s hvalue pre hpre hlen hplace hvs hbs
            have hfirst : Writes cx root s t₁ place (.array (pre ++ b :: bs))
                (.array (pre ++ v :: bs)) :=
              (hvalue b rfl (hplace.element i) (hvs v List.mem_cons_self)
                (hbs b List.mem_cons_self)).element hpre hplace.inside
            have hnext := hrest (pre ++ [v]) (by simp [hpre]) (Nat.succ.inj hlen)
              (hplace.mono hfirst.keeps) (fun x hx => hvs x (List.mem_cons_of_mem _ hx))
              fun x hx => hbs x (List.mem_cons_of_mem _ hx)
            simp only [List.append_assoc, List.singleton_append] at hnext
            exact hfirst.trans hnext hplace.spelled
          · rename_i hdue
            refine (ih (i + 1) bs).imp fun s _ u hrest pre hpre hlen hplace hvs hbs => ?_
            obtain rfl := eq_of_not_isDue (Bool.eq_false_iff.mpr hdue)
            have hnext := hrest (pre ++ [v]) (by simp [hpre]) (Nat.succ.inj hlen) hplace
              (fun x hx => hvs x (List.mem_cons_of_mem _ hx))
              fun x hx => hbs x (List.mem_cons_of_mem _ hx)
            simpa only [List.append_assoc, List.singleton_append] using hnext

/-- What is due in a field turns the value that it starts with into the value it is to hold. -/
theorem emitDue_emits (hregular : Regular cx.schema P) (hspawn : Creates G cx root spawn)
    (hmember : Fills G cx root P emitMember) (f : FieldDecl) (v : Value) (base : Option Value)
    (place : Place) :
    Emits G (((candidates f v base).filter (Pending.isDue f)).forM fun p =>
        emitValue cx spawn emitMember f.type p.value p.base (p.place place)) fun s _ u =>
      ∀ b, base = some b → Ready cx root P s.names place f.type →
        cx.schema.fits f.arrayDim f.type v = true → cx.schema.fits f.arrayDim f.type b = true →
        Writes cx root s u place b v := by
  by_cases hfits : ∃ b, base = some b ∧ cx.schema.fits f.arrayDim f.type v = true ∧
      cx.schema.fits f.arrayDim f.type b = true
  · obtain ⟨b, rfl, hv, hb⟩ := hfits
    by_cases hdim : 1 < f.arrayDim
    · obtain ⟨vs, rfl, hvs, hvsFit⟩ := Schema.fits_static hdim hv
      obtain ⟨bs, rfl, hbs, hbsFit⟩ := Schema.fits_static hdim hb
      rw [candidates_static hdim hvs hbs]
      refine (emitElements_emits hregular hspawn hmember f place 0 vs bs).imp ?_
      rintro s - u h _ hbase hplace - -
      cases hbase
      exact h [] rfl (hvs.trans hbs.symm) hplace hvsFit hbsFit
    · have hone : f.arrayDim ≤ 1 := Nat.not_lt.mp hdim
      rw [Schema.fits_one hone] at hv hb
      rw [candidates, if_neg hdim, List.filter_cons]
      split
      · refine Emits.bind (emitValue_emits hregular hspawn hmember f.type v (some b) place)
          fun _ => Emits.pure ?_
        rintro u s h _ hbase hplace - -
        cases hbase
        exact h b rfl hplace hv hb
      · rename_i hdue
        refine Emits.pure ?_
        rintro s _ hbase - - -
        cases hbase
        obtain rfl := eq_of_not_isDue (Bool.eq_false_iff.mpr hdue)
        exact Writes.refl s place v
  · -- Of values that do not fit, all there is to show is that the run only adds.
    have hvalue : ∀ p : Pending, Emits G (emitValue cx spawn emitMember f.type p.value p.base
        (p.place place)) fun _ _ _ => True := fun p =>
      (emitValue_emits hregular hspawn hmember f.type p.value p.base (p.place place)).imp
        fun _ _ _ _ => trivial
    refine (Emits.forM hvalue).imp fun s _ u _ b hbase _ hv hb => ?_
    exact absurd ⟨b, hbase, hv, hb⟩ hfits

/-- A field is filled, given how the members of structs in it are. -/
theorem emitFieldWith_fills (hregular : Regular cx.schema P) (hspawn : Creates G cx root spawn)
    (hmember : Fills G cx root P emitMember) (allowProtected : Bool) :
    Fills G cx root P (emitFieldWith cx spawn emitMember allowProtected) := by
  intro field v base place
  refine Emits.liftBind fun f hf => ?_
  have hname : cx.schema.fieldName field = .ok f.name := by
    rw [Schema.fieldName, Lookup.bind_of_ok hf]
    rfl
  have hdue : Emits G (((candidates f v base).filter (Pending.isDue f)).forM fun p =>
      emitValue cx spawn emitMember f.type p.value p.base (p.place (place.member field f.name)))
      fun s _ t => Filled cx root P field v base place s t := by
    refine (emitDue_emits hregular hspawn hmember f v base (place.member field f.name)).imp ?_
    intro s _ t h f' b hisField hbase hv hb hplace
    cases hf.symm.trans hisField.field_eq
    exact h b hbase ⟨List.append_ne_nil_of_right_ne_nil _ (List.cons_ne_nil _ _),
      hplace.member hname, hregular.restorable field f hisField⟩ hv hb
  split
  · rename_i hflags
    refine Emits.pure fun s f' b hisField => ?_
    cases hf.symm.trans hisField.field_eq
    rw [hregular.isWritten field f hisField] at hflags
    cases hflags
  · simp only
    split
    · rename_i hempty
      rwa [List.isEmpty_iff.mp hempty] at hdue
    · split
      · exact Emits.report
      · exact hdue

/-- Members are filled however deep structs nest: a nesting beyond the bound is a fault. -/
theorem emitMemberFrom_fills (hregular : Regular cx.schema P) (hspawn : Creates G cx root spawn)
    (n : Nat) : Fills G cx root P (emitMemberFrom cx spawn n) := by
  induction n with
  | zero => exact fun _ _ _ _ => Emits.throw
  | succ n ih => exact emitFieldWith_fills hregular hspawn ih false

/-- **A field is filled.**  The lines emitted for it turn the value that it starts with into the
value it is to hold. -/
theorem emitField_fills (hregular : Regular cx.schema P) (hspawn : Creates G cx root spawn)
    (allowProtected : Bool) : Fills G cx root P (emitField cx spawn allowProtected) :=
  fun field v base place => emitFieldWith_fills hregular hspawn
    (emitMemberFrom_fills hregular hspawn v.depth) allowProtected field v base place

end Defaults
end GraphLowering
