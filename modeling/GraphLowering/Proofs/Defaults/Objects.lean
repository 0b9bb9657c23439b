import GraphLowering.Proofs.Defaults.Emission

/-!
# Defaults — emission of objects

The lines emitted for an object give each of its fields the value of the live one.  An object that
is created on the way starts with the values of its archetype and is filled by the lines behind its
creation, before the line that refers to it.

* `emitObjectWith_emits`: the fields of one object, given how others are created.
* `recreate_emits`, `spawnFrom_creates`: created objects, by induction on how many can set off one
  another.
-/

namespace GraphLowering.Defaults

variable {G : ObjectId → Prop} {cx : Context} {root : String} {P : TypeId → Prop}
  {spawn : Spawn}

/-! ### Values of live objects -/

/-- Every value that a live object was given fits its field. -/
def ValuesFit (cx : Context) : Prop :=
  ∀ object o field v f, cx.objects.object object = .ok o → (field, v) ∈ o.values →
    cx.schema.field field = .ok f → cx.schema.fits f.arrayDim f.type v = true

theorem mem_of_lookup {field : FieldId} {v : Value} {values : List (FieldId × Value)}
    (h : values.lookup field = some v) : (field, v) ∈ values := by
  induction values with
  | nil => cases h
  | cons entry rest ih =>
      obtain ⟨field', v'⟩ := entry
      rw [List.lookup_cons] at h
      split at h
      · rename_i heq
        cases h
        rw [beq_iff_eq.mp heq]
        exact List.mem_cons_self
      · exact List.mem_cons_of_mem _ (ih h)

theorem fieldValue_fits (hvalues : ValuesFit cx) {object : ObjectId} {field : FieldId}
    {f : FieldDecl} {v : Value} (hf : cx.schema.field field = .ok f)
    (hdefault : cx.schema.DefaultFits f.type) (h : cx.fieldValue object field = .ok v) :
    cx.schema.fits f.arrayDim f.type v = true := by
  obtain ⟨o, ho, h⟩ := Lookup.of_bind_ok h
  cases hlookup : o.values.lookup field with
  | some value =>
      rw [hlookup] at h
      cases h
      exact hvalues object o field v f ho (mem_of_lookup hlookup) hf
  | none =>
      rw [hlookup] at h
      exact Schema.fieldDefault_fits hf hdefault h

theorem startValue_fits (hvalues : ValuesFit cx) {archetype : Option ObjectId} {field : FieldId}
    {f : FieldDecl} {v : Value} (hf : cx.schema.field field = .ok f)
    (hdefault : cx.schema.DefaultFits f.type) (h : startValue cx archetype field = .ok v) :
    cx.schema.fits f.arrayDim f.type v = true := by
  cases archetype with
  | some a => exact fieldValue_fits hvalues hf hdefault h
  | none => exact Schema.fieldDefault_fits hf hdefault h

/-! ### The fields of an object -/

/-- The object holds the values that it starts with. -/
def Starts (cx : Context) (st : Store) (h : Holder) (archetype : Option ObjectId)
    (fields : List FieldId) : Prop :=
  ∀ field ∈ fields, ∀ v, startValue cx archetype field = .ok v → st h field = some v

/-- Give the listed fields of an object the values of a live one. -/
def Store.fill (cx : Context) (object : ObjectId) (h : Holder) (fields : List FieldId)
    (st : Store) : Store :=
  fun h' field =>
    if h' = h ∧ field ∈ fields then (cx.fieldValue object field).toOption else st h' field

theorem Store.fill_cons {st : Store} {object : ObjectId} {h : Holder} {field : FieldId} {v : Value}
    (hv : cx.fieldValue object field = .ok v) (fields : List FieldId) :
    (st.set h field v).fill cx object h fields = st.fill cx object h (field :: fields) := by
  funext h' field'
  by_cases hh : h' = h <;> by_cases hfield : field' = field <;> by_cases hmem : field' ∈ fields <;>
    simp_all [fill, set, Except.toOption]

theorem Store.fill_nil (st : Store) (object : ObjectId) (h : Holder) :
    st.fill cx object h [] = st := by
  funext h' field
  simp [fill]

theorem Store.fill_settle (st : Store) {objects : List ObjectId} {h : Holder}
    (hh : ∀ c ∈ objects, h ≠ .created c) (object : ObjectId) (fields : List FieldId) :
    (st.settle cx objects).fill cx object h fields =
      (st.fill cx object h fields).settle cx objects := by
  funext h' field
  by_cases heq : h' = h
  · subst heq
    rw [settle_of_not_mem _ hh, fill, fill, settle_of_not_mem _ hh]
  · cases h' <;> simp [fill, settle, heq]

/-- What is written into a whole field. -/
theorem Writes.set {s t : State} {place : Place} {h : Holder} {field : FieldId} {name : String}
    {b v : Value} (hwrites : Writes cx root s t (place.member field name) b v)
    (hholder : place.holder = some h) (hsteps : place.steps = []) :
    Replays cx root s t fun st st' => st h field = some b ∧ st' = st.set h field v := by
  obtain ⟨f, hf, hreplays⟩ := hwrites
  refine hreplays.imp fun st st' hst => ?_
  obtain ⟨hb, rfl⟩ := hst
  simp only [Store.change, Place.member, hholder, hsteps, List.nil_append, hb, Option.bind_some,
    change, hf, Option.map_some]

theorem emitObjectField_emits (hregular : Regular cx.schema P) (hspawn : Creates G cx root spawn)
    (object : ObjectId) (archetype : Option ObjectId) (place : Place) (allowProtected : Bool)
    (field : FieldId) :
    Emits G (do
        let v ← cx.fieldValue object field
        let base ← startValue cx archetype field
        emitField cx spawn allowProtected field v (some base) place) fun s _ t =>
      ∃ v base, cx.fieldValue object field = .ok v ∧ startValue cx archetype field = .ok base ∧
        Filled cx root P field v (some base) place s t :=
  Emits.liftBind fun v hv => Emits.liftBind fun base hbase =>
    (emitField_fills hregular hspawn allowProtected field v (some base) place).imp
      fun _ _ _ h => ⟨v, base, hv, hbase, h⟩

/-- The fields from some field on. -/
theorem emitFields_emits (hregular : Regular cx.schema P) (hvalues : ValuesFit cx)
    (hspawn : Creates G cx root spawn) (object : ObjectId) (archetype : Option ObjectId)
    (place : Place) (allowProtected : Bool) (fields : List FieldId) :
    Emits G (fields.forM fun field => do
        let v ← cx.fieldValue object field
        let base ← startValue cx archetype field
        emitField cx spawn allowProtected field v (some base) place) fun s _ t =>
      ∀ h, fields.Nodup → (∀ field ∈ fields, ∃ f, IsField cx.schema P field f) →
        place.holder = some h → place.steps = [] → place.Spelled cx.schema root s.names →
        (∀ field ∈ fields, ∃ v, cx.fieldValue object field = .ok v) ∧
        Replays cx root s t fun st st' =>
          Starts cx st h archetype fields ∧ st' = st.fill cx object h fields := by
  induction fields with
  | nil =>
      refine Emits.pure fun s h _ _ _ _ _ => ⟨fun _ hmem => (by cases hmem), ?_⟩
      exact Replays.refl s fun st st' hst => hst.2.trans (Store.fill_nil st object h)
  | cons field fields ih =>
      refine Emits.bind (emitObjectField_emits hregular hspawn object archetype place
        allowProtected field) fun _ => ?_
      refine ih.imp fun t _ u hrest s hfirst h hnodup hfields hholder hsteps hplace => ?_
      obtain ⟨v, base, hv, hbase, hfilled⟩ := hfirst
      obtain ⟨f, hf⟩ := hfields field List.mem_cons_self
      obtain ⟨hnot, hnodup⟩ := List.nodup_cons.mp hnodup
      have hdefault := (hregular.restorable field f hf).defaultFits
      have hwrites := hfilled f base hf rfl (fieldValue_fits hvalues hf.field_eq hdefault hv)
        (startValue_fits hvalues hf.field_eq hdefault hbase) hplace
      obtain ⟨hvs, hreplays⟩ := hrest h hnodup (fun x hx => hfields x (List.mem_cons_of_mem _ hx))
        hholder hsteps (hplace.mono hwrites.keeps)
      refine ⟨fun x hx => ?_, ?_⟩
      · rcases List.mem_cons.mp hx with rfl | hx
        · exact ⟨v, hv⟩
        · exact hvs x hx
      · -- The object is at hand, so objects created for this field do not touch the later ones.
        have hframe : Framed cx s.names fun st st' =>
            Starts cx st h archetype fields ∧ st' = st.fill cx object h fields := by
          rintro objects hobjects st _ ⟨hstarts, rfl⟩
          have hh : ∀ c ∈ objects, h ≠ .created c := fun c hc heq =>
            hplace.holder_ne (hobjects c hc) (by rw [hholder, heq])
          refine ⟨fun x hx w hw => ?_, (Store.fill_settle st hh object fields).symm⟩
          rw [Store.settle_of_not_mem st hh]
          exact hstarts x hx w hw
        refine ((hwrites.set hholder hsteps).trans hreplays hframe).imp fun st st' hst => ?_
        obtain ⟨hstarts, rfl⟩ := hst
        refine ⟨st.set h field v, ⟨hstarts field List.mem_cons_self base hbase, rfl⟩, ?_,
          (Store.fill_cons hv fields).symm⟩
        intro x hx w hw
        have hne : x ≠ field := fun heq => hnot (heq ▸ hx)
        rw [Store.set, if_neg fun heq => hne heq.2]
        exact hstarts x (List.mem_cons_of_mem _ hx) w hw

/-- The lines emitted for an object turn the values that it starts with into those of the live
one. -/
theorem emitObjectWith_emits (hregular : Regular cx.schema P) (hvalues : ValuesFit cx)
    (hspawn : Creates G cx root spawn) (object : ObjectId) (archetype : Option ObjectId)
    (place : Place) (allowProtected : Bool) :
    Emits G (emitObjectWith cx spawn object archetype place allowProtected) fun s _ t =>
      ∀ h, (∀ o, cx.objects.object object = .ok o → P o.cls) → place.holder = some h →
        place.steps = [] → place.Spelled cx.schema root s.names →
        ∃ fields, fieldsOf cx object = .ok fields ∧
          (∀ field ∈ fields, ∃ v, cx.fieldValue object field = .ok v) ∧
          Replays cx root s t fun st st' =>
            Starts cx st h archetype fields ∧ st' = st.fill cx object h fields := by
  refine Emits.liftBind fun o ho => Emits.liftBind fun fields hfields => ?_
  refine (emitFields_emits hregular hvalues hspawn object archetype place allowProtected
    fields).imp fun s _ t h holder hcls hholder hsteps hplace => ?_
  have hP := hcls o ho
  have hisField : ∀ field ∈ fields, ∃ f, IsField cx.schema P field f := by
    intro field hmem
    obtain ⟨f, hf⟩ := hregular.isKnown o.cls fields hP hfields field hmem
    exact ⟨f, o.cls, fields, hP, hfields, hmem, hf⟩
  obtain ⟨hvs, hreplays⟩ := h holder (hregular.nodup o.cls fields hP hfields) hisField hholder
    hsteps hplace
  refine ⟨fields, ?_, hvs, hreplays⟩
  rw [fieldsOf, Lookup.bind_of_ok ho, hfields]

/-! ### Created objects -/

/-- From `s` to `t`, an object got a local and a line creates it with the values that it starts
with. -/
structure Begun (cx : Context) (root : String) (s t : State) (object : ObjectId)
    (archetype : Option ObjectId) (name : String) : Prop where
  grows : Grows s t
  keeps : Keeps s.names t.names
  createdSince_eq : createdSince s t = [object]
  find?_eq : t.names.find? object = some name
  spelled : ∀ l ∈ linesSince s t, l.Spelled cx root t.names
  replay_eq : ∀ st,
    replay cx (linesSince s t) st = some (st.give cx (startValue cx archetype) object)

/-- An object that was created and then filled holds the values of the live one. -/
theorem Store.fill_give {object : ObjectId} {fields : List FieldId}
    (hfields : fieldsOf cx object = .ok fields) (st : Store)
    (start : FieldId → Except Fault Value) :
    (st.give cx start object).fill cx object (.created object) fields =
      st.settle cx [object] := by
  funext h field
  cases h with
  | given c => simp [fill, give, settle]
  | created c =>
      by_cases hc : c = object
      · subst hc
        by_cases hmem : field ∈ fields <;>
          simp [fill, give, settle, held, hfields, hmem, Except.toOption]
      · simp [fill, give, settle, hc]

theorem Begun.adds {s t : State} {object : ObjectId} {archetype : Option ObjectId} {name : String}
    (h : Begun cx root s t object archetype name) (hnew : s.names.find? object = none)
    (hvalues : HasValues cx object) : Adds cx root s t where
  grows := h.grows
  keeps := h.keeps
  fresh := by
    intro c hc
    rw [h.createdSince_eq, List.mem_singleton] at hc
    exact hc ▸ hnew
  hasValues := by
    intro c hc
    rw [h.createdSince_eq, List.mem_singleton] at hc
    exact hc ▸ hvalues
  spelled := h.spelled

/-- Behind its creation, an object is filled like any other; what the lines in between create is
settled by then. -/
theorem Begun.replays {s t u : State} {object : ObjectId} {archetype : Option ObjectId}
    {name : String} {fields : List FieldId} (h : Begun cx root s t object archetype name)
    (hnew : s.names.find? object = none) (hfields : fieldsOf cx object = .ok fields)
    (hvalues : ∀ field ∈ fields, ∃ v, cx.fieldValue object field = .ok v)
    (hfill : Replays cx root t u fun st st' => Starts cx st (.created object) archetype fields ∧
      st' = st.fill cx object (.created object) fields) :
    Replays cx root s u Eq := by
  refine ⟨(h.adds hnew ⟨fields, hfields, hvalues⟩).trans hfill.toAdds, ?_⟩
  rintro st _ rfl
  have hstarts : Starts cx (st.give cx (startValue cx archetype) object) (.created object)
      archetype fields := by
    intro field hmem v hv
    simp [Store.give, held, hfields, hmem, hv, Except.toOption]
  rw [h.grows.linesSince_append hfill.grows, h.grows.createdSince_append hfill.grows,
    replay_append, h.replay_eq, Option.bind_some, hfill.replay_eq _ _ ⟨hstarts, rfl⟩,
    Store.fill_give hfields, Store.settle_settle, h.createdSince_eq]

/-- The state in which an object has a fresh local. -/
def State.withObject (s : State) (object : ObjectId) (archetype : Option ObjectId) : State :=
  { s with names := (s.names.addNew object archetype).2 }

/-- The state in which an object is registered. -/
def State.withRegistered (s : State) (object : ObjectId) : State :=
  { s with names := s.names.register object }

theorem Grows.withObject (s : State) (object : ObjectId) (archetype : Option ObjectId) :
    Grows s (s.withObject object archetype) :=
  ⟨List.prefix_rfl, List.prefix_rfl⟩

theorem Grows.withRegistered (s : State) (object : ObjectId) : Grows s (s.withRegistered object) :=
  ⟨List.prefix_rfl, List.prefix_rfl⟩

theorem addNew_emits (object : ObjectId) (archetype : Option ObjectId) :
    Emits G (addNew object archetype) fun s name t =>
      name = (s.names.addNew object archetype).1 ∧ t = s.withObject object archetype := by
  intro s r t hrun
  cases hrun
  exact ⟨Grows.withObject s object archetype, fun name hname _ => by cases hname; exact ⟨rfl, rfl⟩⟩

theorem register_emits (object : ObjectId) :
    Emits G (modify fun s => { s with names := s.names.register object }) fun s _ t =>
      t = s.withRegistered object := by
  intro s r t hrun
  cases hrun
  exact ⟨Grows.withRegistered s object, fun _ _ _ => rfl⟩

/-- The first line of an object that is not at hand creates it. -/
theorem Begun.create {s : State} (c : Creation) (hnew : s.names.find? c.object = none)
    (hname : c.localName = (s.names.addNew c.object c.archetype).1) :
    Begun cx root s ((s.withObject c.object c.archetype).withLine (.create c)) c.object
      c.archetype c.localName := by
  have hfind : ((s.withObject c.object c.archetype).withLine (.create c)).names.find? c.object =
      some c.localName := by
    rw [hname]
    simp [State.withLine, State.withObject, LocalNames.addNew, LocalNames.record, LocalNames.find?]
  have hlines : linesSince s ((s.withObject c.object c.archetype).withLine (.create c)) =
      [.create c] := List.drop_left
  refine ⟨(Grows.withObject s _ _).trans (Grows.withLine _ _), fun object name h => ?_, ?_, hfind,
    fun l hl => ?_, fun st => ?_⟩
  · have hne : object ≠ c.object := fun heq => by rw [heq, hnew] at h; cases h
    simp only [State.withLine, State.withObject, LocalNames.addNew, LocalNames.record,
      LocalNames.find?, List.lookup_cons, beq_false_of_ne hne] at h ⊢
    exact h
  · rw [createdSince, hlines]
    rfl
  · rw [hlines] at hl
    cases List.mem_singleton.mp hl
    exact hfind
  · rw [hlines, replay_singleton]
    rfl

/-- Registering a new object has no effect on the store. -/
theorem Begun.register {s t : State} {object : ObjectId} {archetype : Option ObjectId}
    {name : String} (h : Begun cx root s t object archetype name) (afterCreate : String) :
    Begun cx root s ((t.withLine (.register object name afterCreate)).withRegistered object)
      object archetype name := by
  have hgrows : Grows t ((t.withLine (.register object name afterCreate)).withRegistered object) :=
    (Grows.withLine t _).trans (Grows.withRegistered _ object)
  have hlines : linesSince t ((t.withLine (.register object name afterCreate)).withRegistered
      object) = [.register object name afterCreate] := List.drop_left
  have hcreated : createdSince t ((t.withLine (.register object name afterCreate)).withRegistered
      object) = [] := by
    rw [createdSince, hlines]
    rfl
  refine ⟨h.grows.trans hgrows, h.keeps, ?_, h.find?_eq, fun l hl => ?_, fun st => ?_⟩
  · rw [h.grows.createdSince_append hgrows, h.createdSince_eq, hcreated]
    rfl
  · rw [h.grows.linesSince_append hgrows, hlines] at hl
    rcases List.mem_append.mp hl with hl | hl
    · exact (h.spelled l hl).mono fun _ _ hn => hn
    · cases List.mem_singleton.mp hl
      exact h.find?_eq
  · rw [h.grows.linesSince_append hgrows, hlines, replay_append, h.replay_eq]
    rfl

/-- An object that is created again gets the values of the live one. -/
theorem recreate_emits (hregular : Regular cx.schema P) (hvalues : ValuesFit cx)
    (hspawn : Creates G cx root spawn)
    (hcls : ∀ c o, G c → cx.objects.object c = .ok o → P o.cls) (object : ObjectId)
    (o : ObjectRecord) (owner : LocalNames.Owner) :
    Emits G (recreate cx spawn object o owner) fun s name t => s.names.find? object = none →
      Replays cx root s t Eq ∧ t.names.find? object = some name := by
  refine Emits.bind Emits.get fun s₀ => Emits.liftBind fun archetype _ => ?_
  refine Emits.bind (addNew_emits object archetype) fun name => Emits.liftBind fun cls _ => ?_
  refine Emits.bind (Emits.emit _) fun _ => ?_
  -- However the object was begun, its fields follow.
  have hfields : Emits G (do
      emitObjectWith cx spawn object archetype ⟨some (.created object), name ++ "->", []⟩ false
      pure name) fun t name' u => name' = name ∧ ∀ s, G object →
        Begun cx root s t object archetype name → s.names.find? object = none →
        Replays cx root s u Eq ∧ u.names.find? object = some name := by
    refine Emits.bind (emitObjectWith_emits hregular hvalues hspawn object archetype _ false)
      fun _ => Emits.pure fun u t h => ⟨rfl, fun s hG hbegun hnew => ?_⟩
    have hplace : Place.Spelled cx.schema root t.names
        ⟨some (.created object), name ++ "->", []⟩ :=
      ⟨⟨name, hbegun.find?_eq, rfl⟩, fun _ hmem => by cases hmem⟩
    obtain ⟨fields, hfields, hvs, hfill⟩ :=
      h (.created object) (fun o ho => hcls object o hG ho) rfl rfl hplace
    exact ⟨hbegun.replays hnew hfields hvs hfill, hfill.keeps object name hbegun.find?_eq⟩
  cases owner.afterCreate with
  | none =>
      refine hfields.imp fun t name' u h t₁ hemit s hadd s₁ hget hnew => ?_
      obtain ⟨hname, rfl⟩ := hadd
      obtain ⟨rfl, rfl⟩ := hget
      obtain ⟨rfl, hG⟩ := hemit
      obtain ⟨rfl, h⟩ := h
      exact h s (hG object List.mem_cons_self) (Begun.create ⟨object, archetype, name', cls,
        owner.expression, o.name⟩ hnew hname) hnew
  | some afterCreate =>
      refine Emits.bind (Emits.emit _) fun _ => Emits.bind (register_emits object) fun _ => ?_
      refine hfields.imp ?_
      intro t name' u h t₃ hregister t₂ hemit₂ t₁ hemit s hadd s₁ hget hnew
      obtain ⟨hname, rfl⟩ := hadd
      obtain ⟨rfl, rfl⟩ := hget
      obtain ⟨rfl, hG⟩ := hemit
      obtain ⟨rfl, -⟩ := hemit₂
      subst hregister
      obtain ⟨rfl, h⟩ := h
      exact h s (hG object List.mem_cons_self) ((Begun.create ⟨object, archetype, name', cls,
        owner.expression, o.name⟩ hnew hname).register afterCreate) hnew

/-- Objects are created however many set off others: a chain beyond the bound is a fault. -/
theorem spawnFrom_creates (hregular : Regular cx.schema P) (hvalues : ValuesFit cx)
    (hcls : ∀ c o, G c → cx.objects.object c = .ok o → P o.cls) (n : Nat) :
    Creates G cx root (spawnFrom cx n) := by
  induction n with
  | zero => exact fun _ => Emits.throw
  | succ n ih =>
      intro object
      refine Emits.liftBind fun o _ => Emits.bind Emits.get fun s₀ => ?_
      cases howner : s₀.names.owner? o.outer with
      | none =>
          refine Emits.pure fun t s hget _ => ?_
          obtain ⟨-, rfl⟩ := hget
          exact ⟨Replays.rfl, fun _ h => by cases h⟩
      | some owner =>
          refine Emits.bind (recreate_emits hregular hvalues ih hcls object o owner) fun name =>
            Emits.pure fun u t h s hget hnew => ?_
          obtain ⟨-, rfl⟩ := hget
          obtain ⟨hreplays, hname⟩ := h hnew
          exact ⟨hreplays, fun name' heq => by cases heq; exact hname⟩

end GraphLowering.Defaults
