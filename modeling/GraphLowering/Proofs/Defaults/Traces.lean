import GraphLowering.Proofs.Defaults.Moves
import GraphLowering.Proofs.Literals
import GraphLowering.Proofs.Values

/-!
# Defaults — traces of emission

A row of moves says what emission does.  A trace also says for which values and below which place:
it creates only objects that these values refer to, and what it does for the values of such an
object it does below that object.

* `Trace`: what is done for values that refer to objects of `K`, below one place.
* `emitField_traced`: to assign a field is a trace for its value.
* `emitSubobject_recreates`: to create an object again is its creation and then a trace for its
  values, if its owner is at hand, and nothing otherwise.
* `Trace.moves`: a trace is a row of moves.
-/

namespace GraphLowering.Defaults

variable {α β : Type} {cx : Context} {K : ObjectId → Prop} {base : Place} {s t u : State}

/-! ### Traces -/

/-- The source loads the object by its path. -/
def Source.Loads (o : ObjectId) : Source → Prop
  | .literal type v _ => type.isSelf = false ∧ v = .object (some o)
  | .object _ _ | .structDefault _ _ => False

/-- Neither the object nor its owner is at hand. -/
def Foreign (cx : Context) (n : LocalNames) (o : ObjectId) : Prop :=
  n.find? o = none ∧ ∃ record, cx.objects.object o = .ok record ∧ n.owner? record.outer = none

/-- The source is spelled by what is at hand.  What it loads by a path is an object of `K`, and one
that is foreign. -/
structure Source.Written (cx : Context) (K : ObjectId → Prop) (n : LocalNames)
    (source : Source) : Prop where
  spelled : source.Spelled cx n
  loads : ∀ o, source.Loads o → K o ∧ Foreign cx n o

/-- The place is a part of the same object. -/
def Place.Within (base p : Place) : Prop := p.holder = base.holder ∧ p.root = base.root

/-- A line that stores a value below a place. -/
inductive StoresWithin (cx : Context) (K : ObjectId → Prop) (base : Place) (n : LocalNames) :
    Line → Prop
  | assign {p : Place} {source : Source} (hp : base.Within p) (hs : source.Written cx K n) :
      StoresWithin cx K base n (.assign p source)
  | clear {p : Place} (hp : base.Within p) : StoresWithin cx K base n (.clear p)
  | reserve {p : Place} {count : Nat} (hp : base.Within p) :
      StoresWithin cx K base n (.reserve p count)
  | append {p : Place} {source : Source} (hp : base.Within p) (hs : source.Written cx K n) :
      StoresWithin cx K base n (.append p source)

/-- The place that stands for a created object. -/
def Creation.place (c : Creation) : Place := ⟨some (.created c.object), c.localName ++ "->", []⟩

/-- What emission does for values that refer to objects of `K`, below a place. -/
inductive Trace (cx : Context) : (ObjectId → Prop) → Place → State → State → Prop
  | refl {K : ObjectId → Prop} {base : Place} {s : State} : Trace cx K base s s
  | report {K : ObjectId → Prop} {base : Place} {s : State} (p : Problem)
      (hp : p.severity ≠ .fatal) : Trace cx K base s { s with sink := s.sink.report p }
  | store {K : ObjectId → Prop} {base : Place} {s : State} {l : Line}
      (h : StoresWithin cx K base s.names l) : Trace cx K base s (s.withLine l)
  /-- An object that is not at hand is created, and its own values are assigned below it. -/
  | create {K : ObjectId → Prop} {base : Place} {s t : State} {c : Creation}
      {owner : LocalNames.Owner} (hk : K c.object) (hc : c.Under cx s.names owner)
      (hnew : s.names.find? c.object = none)
      (hvalues : Trace cx (cx.Refers c.object) c.place (s.withCreation c owner.afterCreate) t) :
      Trace cx K base s t
  | trans {K : ObjectId → Prop} {base : Place} {s t u : State} (h : Trace cx K base s t)
      (h' : Trace cx K base t u) : Trace cx K base s u

theorem StoresWithin.stores {l : Line} (h : StoresWithin cx K base s.names l) :
    Stores cx base.root s l := by
  cases h with
  | assign hp hs => exact .assign (.inl hp.2) hs.spelled
  | clear hp => exact .clear (.inl hp.2)
  | reserve hp => exact .reserve (.inl hp.2)
  | append hp hs => exact .append (.inl hp.2) hs.spelled

/-- **A trace is a row of moves.** -/
theorem Trace.moves (h : Trace cx K base s t) : Moves cx base.root [] s t := by
  induction h with
  | refl => exact .refl
  | report p _ => exact .single (.report p)
  | store h => exact .single (.store h.stores)
  | create _ hc hnew _ ih =>
      exact .head (.create hc (.inl hnew)) (ih.rebase (mem_lines_withCreation _ _ _))
  | trans _ _ ih ih' => exact ih.trans ih'

/-- A trace below an object just created is a row of moves below any root. -/
theorem Trace.moves_of_creation {c : Creation} {afterCreate : Option String} {root : String}
    (h : Trace cx K c.place (s.withCreation c afterCreate) t) :
    Moves cx root [] (s.withCreation c afterCreate) t :=
  h.moves.rebase (mem_lines_withCreation s c afterCreate)

/-! ### Runs -/

/-- From a state with `P`, a run of `x` that succeeds is a trace, and ends with `Q`. -/
def Traced (cx : Context) (K : ObjectId → Prop) (base : Place) (P : State → Prop) (x : Emit α)
    (Q : α → State → Prop) : Prop :=
  ∀ s a t, P s → x.run s = (.ok a, t) → Trace cx K base s t ∧ Q a t

namespace Traced

variable {P : State → Prop} {x : Emit α} {Q : α → State → Prop} {R : β → State → Prop}

theorem imp {P' : State → Prop} {Q' : α → State → Prop} (h : Traced cx K base P x Q)
    (hP : ∀ s, P' s → P s) (hQ : ∀ a t, Q a t → Q' a t) : Traced cx K base P' x Q' :=
  fun s a t hs hrun => (h s a t (hP s hs) hrun).imp id (hQ a t)

theorem pure {a : α} (h : ∀ s, P s → Q a s) : Traced cx K base P (Pure.pure a : Emit α) Q := by
  intro s b t hs hrun
  cases hrun
  exact ⟨.refl, h s hs⟩

theorem throw {e : Fault} : Traced cx K base P (MonadExcept.throw e : Emit α) Q := by
  intro s b t _ hrun
  cases hrun

theorem bind {f : α → Emit β} (hx : Traced cx K base P x Q)
    (hf : ∀ a, Traced cx K base (Q a) (f a) R) : Traced cx K base P (x >>= f) R := by
  intro s b u hs hrun
  obtain ⟨a, t, hxs, hfs⟩ := run_bind_ok hrun
  obtain ⟨hst, ha⟩ := hx s a t hs hxs
  obtain ⟨htu, hb⟩ := hf a t b u ha hfs
  exact ⟨hst.trans htu, hb⟩

theorem liftBind {e : Except Fault α} {f : α → Emit β}
    (h : ∀ a, e = .ok a → Traced cx K base P (f a) R) :
    Traced cx K base P (liftM e >>= f) R := by
  intro s b t hs hrun
  obtain ⟨a, he, hf⟩ := run_liftBind_ok hrun
  exact h a he s b t hs hf

theorem forM {xs : List α} {f : α → Emit PUnit}
    (h : ∀ x ∈ xs, Traced cx K base (fun _ => True) (f x) fun _ _ => True) :
    Traced cx K base (fun _ => True) (xs.forM f) fun _ _ => True := by
  induction xs with
  | nil => exact .pure fun _ _ => trivial
  | cons x xs ih =>
      exact .bind (h x List.mem_cons_self) fun _ =>
        ih fun x hx => h x (List.mem_cons_of_mem _ hx)

theorem report {p : Problem} (hp : p.severity ≠ .fatal) :
    Traced cx K base (fun _ => True) (report p) fun _ _ => True := by
  intro s a t _ hrun
  cases hrun
  exact ⟨.report p hp, trivial⟩

/-- A line that stores a value. -/
theorem emit {l : Line} (h : ∀ s, P s → StoresWithin cx K base s.names l) :
    Traced cx K base P (emit l) fun _ _ => True := by
  intro s a t hs hrun
  cases hrun
  exact ⟨.store (h s hs), trivial⟩

end Traced

/-! ### Values -/

/-- Objects of `K` that are not at hand are created, unless they are foreign. -/
def Spawns (cx : Context) (K : ObjectId → Prop) (base : Place) (spawn : Spawn) : Prop :=
  ∀ object, K object → Traced cx K base (·.names.find? object = none) (spawn object)
    fun result t => match result with
      | some name => t.names.find? object = some name
      | none => Foreign cx t.names object

/-- Members are assigned by a trace, below the same place. -/
def Assigns (cx : Context) (K : ObjectId → Prop) (base : Place) (emitMember : FieldEmitter) :
    Prop :=
  ∀ field v start place, (∀ o, v.RefersTo o → K o) → base.Within place →
    Traced cx K base (fun _ => True) (emitMember field v start place) fun _ _ => True

variable {spawn : Spawn} {emitMember : FieldEmitter}

theorem find?_traced (object : ObjectId) :
    Traced cx K base (fun _ => True) (find? object) fun result t =>
      result = t.names.find? object := by
  intro s a t _ hrun
  cases hrun
  exact ⟨.refl, rfl⟩

/-- What is not written as an object at hand is foreign, if it is an object. -/
theorem objectSource?_traced (hspawn : Spawns cx K base spawn) (type : ValueType) {v : Value}
    (hv : ∀ o, v.RefersTo o → K o) :
    Traced cx K base (fun _ => True) (objectSource? spawn type v) fun result t =>
      match result with
      | some source => source.Written cx K t.names
      | none => type.category = .object → ∀ o, v = .object (some o) → Foreign cx t.names o := by
  unfold objectSource?
  split
  · split
    · rename_i hnone
      exact .pure fun s _ _ o ho => by rw [ho] at hnone; cases hnone
    · rename_i object hobject
      obtain rfl : v = .object (some object) := by
        cases v <;> simp_all [Value.asObject]
      refine .bind (find?_traced object) fun result => ?_
      split
      · exact .pure fun s hs => ⟨hs.symm, fun _ h => h.elim⟩
      · refine .bind ((hspawn object (hv object .object)).imp (fun _ hs => hs.symm)
          fun _ _ h => h) fun result => ?_
        split
        · exact .pure fun s hs => ⟨hs, fun _ h => h.elim⟩
        · refine .pure fun s hs _ o ho => ?_
          cases ho
          exact hs
  · rename_i hcategory
    exact .pure fun s _ h => absurd h hcategory

theorem run_renderBind_ok {x : Except Fault α} {f : α → Literal.Render β} {b : β}
    (h : ((liftM x : Literal.Render α) >>= f).run = .ok (.ok b)) :
    ∃ a, x = .ok a ∧ (f a).run = .ok (.ok b) := by
  cases x with
  | error fault => cases h
  | ok a => exact ⟨a, rfl, h⟩

theorem unrenderable_run_ne (type : ValueType) (text : String) :
    (Literal.unrenderable cx type : Literal.Render String).run ≠ .ok (.ok text) := by
  intro h
  obtain ⟨cpp, -, h⟩ := run_renderBind_ok h
  cases h

/-- An object has a literal form at the types of objects only, which names its class and path. -/
theorem render_object {type : ValueType} {o : ObjectId} {text : String}
    (hself : type.isSelf = false)
    (h : (Literal.render cx type (.object (some o))).run = .ok (.ok text)) :
    type.category = .object ∧ ∃ record cls path, cx.objects.object o = .ok record ∧
      cx.schema.cppName record.cls = .ok cls ∧ cx.pathName o = .ok path ∧
      text = "LoadObject<" ++ cls ++ ">(nullptr, " ++ Literal.engineText path ++ ")" := by
  unfold Literal.render at h
  simp only [hself, Bool.false_eq_true, if_false] at h
  split at h
  · exact absurd h (unrenderable_run_ne type text)
  · unfold Literal.renderElement at h
    generalize hcategory : type.category = category at h ⊢
    cases category
    case object =>
      obtain ⟨record, hrecord, h⟩ := run_renderBind_ok h
      obtain ⟨cls, hcls, h⟩ := run_renderBind_ok h
      obtain ⟨path, hpath, h⟩ := run_renderBind_ok h
      cases h
      exact ⟨rfl, record, cls, path, hrecord, hcls, hpath, rfl⟩
    all_goals exact absurd h (unrenderable_run_ne type text)

/-- How a value is written. -/
def OneLine.Written (cx : Context) (K : ObjectId → Prop) (n : LocalNames) : OneLine → Prop
  | .complete source | .incomplete source => source.Written cx K n
  | .skip => True

theorem oneLine_traced (hspawn : Spawns cx K base spawn) (type : ValueType) {v : Value}
    (hv : ∀ o, v.RefersTo o → K o) :
    Traced cx K base (fun _ => True) (oneLine cx spawn type v) fun result t =>
      result.Written cx K t.names := by
  unfold oneLine
  refine .bind (objectSource?_traced hspawn type hv) fun result => ?_
  split
  · exact .pure fun s hs => hs
  · refine .liftBind fun rendered hrendered => ?_
    split
    · refine .pure fun s hs => ⟨hrendered, ?_⟩
      rintro o ⟨hself, rfl⟩
      exact ⟨hv o .object, hs (render_object hself hrendered).1 o rfl⟩
    · split
      · exact .liftBind fun text htext => .pure fun _ _ => ⟨htext, fun _ h => h.elim⟩
      · have hproblem := Literal.render_severity hrendered
        exact .bind ((Traced.report hproblem).imp (fun _ _ => trivial) fun _ _ _ => trivial)
          fun _ => .pure fun _ _ => trivial

theorem emitMembers_traced (hmember : Assigns cx K base emitMember) {place : Place}
    (hplace : base.Within place) (fields : List FieldId) {members : List Value}
    (hmembers : ∀ v ∈ members, ∀ o, v.RefersTo o → K o) (start : List Value) :
    Traced cx K base (fun _ => True) (emitMembers emitMember place fields members start)
      fun _ _ => True := by
  induction fields generalizing members start with
  | nil =>
      unfold emitMembers
      exact .pure fun _ _ => trivial
  | cons field fields ih =>
      cases members with
      | nil =>
          unfold emitMembers
          exact .pure fun _ _ => trivial
      | cons member members =>
          exact .bind
            (hmember field member start.head? place (hmembers _ List.mem_cons_self) hplace)
            fun _ => ih (fun v hv => hmembers v (List.mem_cons_of_mem _ hv)) start.tail

theorem emitStructMembers_traced (hmember : Assigns cx K base emitMember) {place : Place}
    (hplace : base.Within place) {v : StructValue}
    (hv : ∀ m ∈ v.members, ∀ o, m.RefersTo o → K o) (start : StructValue) :
    Traced cx K base (fun _ => True) (emitStructMembers cx emitMember v start place)
      fun _ _ => True :=
  .liftBind fun fields _ => emitMembers_traced hmember hplace fields hv start.members

theorem emitItems_traced (hspawn : Spawns cx K base spawn) (hmember : Assigns cx K base emitMember)
    (type : ValueType) {place : Place} (hplace : base.Within place) (i : Nat) {items : List Value}
    (hitems : ∀ v ∈ items, ∀ o, v.RefersTo o → K o) :
    Traced cx K base (fun _ => True) (emitItems cx spawn emitMember type place i items)
      fun _ _ => True := by
  induction items generalizing i with
  | nil => exact .pure fun _ _ => trivial
  | cons item items ih =>
      have hitem := hitems item List.mem_cons_self
      have ih := fun i => ih i fun v hv => hitems v (List.mem_cons_of_mem _ hv)
      refine .bind (oneLine_traced hspawn type hitem) fun result => ?_
      cases result with
      | complete source =>
          exact .bind (.emit fun s hs => .append hplace hs) fun _ => ih (i + 1)
      | incomplete source =>
          refine .bind (.emit fun s hs => .append hplace hs) fun _ => ?_
          split
          · have helement : base.Within (place.element i) := hplace
            exact .liftBind fun default _ =>
              .bind (emitStructMembers_traced hmember helement
                (fun m hm o ho => hitem o (.member hm ho)) default) fun _ => ih (i + 1)
          · exact ih (i + 1)
      | skip => exact (ih (i + 1)).imp (fun _ _ => trivial) fun _ _ h => h

theorem emitArray_traced (hspawn : Spawns cx K base spawn) (hmember : Assigns cx K base emitMember)
    (type : ValueType) {v : Value} (hv : ∀ o, v.RefersTo o → K o) (start : Option Value)
    {place : Place} (hplace : base.Within place) :
    Traced cx K base (fun _ => True) (emitArray cx spawn emitMember type v start place)
      fun _ _ => True := by
  unfold emitArray
  split
  · rename_i items
    have hfill : Traced cx K base (fun _ => True) (do
        if !items.isEmpty then
          emit (.reserve place items.length)
          emitItems cx spawn emitMember type.element place 0 items) fun _ _ => True := by
      split
      · exact .bind (.emit fun s _ => .reserve hplace) fun _ =>
          emitItems_traced hspawn hmember type.element hplace 0 fun w hw o ho =>
            hv o (.item hw ho)
      · exact .pure fun _ _ => trivial
    simp only
    split
    · exact .bind (.emit fun s _ => .clear hplace) fun _ => hfill
    · exact hfill
  · exact .pure fun _ _ => trivial

theorem emitIncomplete_traced (hmember : Assigns cx K base emitMember) (source : Source) {v : Value}
    (hv : ∀ o, v.RefersTo o → K o) (start : Option Value) {place : Place}
    (hplace : base.Within place) :
    Traced cx K base (fun s => source.Written cx K s.names)
      (emitIncomplete cx emitMember source v start place) fun _ _ => True := by
  unfold emitIncomplete
  split
  · rename_i type members
    have hmembers : ∀ m ∈ members, ∀ o, m.RefersTo o → K o :=
      fun m hm o ho => hv o (.member hm ho)
    split
    · exact (emitStructMembers_traced hmember hplace hmembers _).imp (fun _ _ => trivial)
        fun _ _ h => h
    · exact .bind (.emit fun s hs => .assign hplace hs) fun _ => .liftBind fun default _ =>
        emitStructMembers_traced hmember hplace hmembers default
  · exact .pure fun _ _ => trivial

theorem emitValue_traced (hspawn : Spawns cx K base spawn) (hmember : Assigns cx K base emitMember)
    (type : ValueType) {v : Value} (hv : ∀ o, v.RefersTo o → K o) (start : Option Value)
    {place : Place} (hplace : base.Within place) :
    Traced cx K base (fun _ => True) (emitValue cx spawn emitMember type v start place)
      fun _ _ => True := by
  unfold emitValue
  split
  · exact emitArray_traced hspawn hmember type hv start hplace
  · refine .bind (oneLine_traced hspawn type hv) fun result => ?_
    cases result with
    | complete source => exact .emit fun s hs => .assign hplace hs
    | incomplete source => exact emitIncomplete_traced hmember source hv start hplace
    | skip => exact .pure fun _ _ => trivial

/-! ### Fields -/

/-- What is to be stored in a field are parts of its value. -/
theorem refersTo_of_candidate {f : FieldDecl} {v : Value} {start : Option Value} {p : Pending}
    (hp : p ∈ candidates f v start) {o : ObjectId} (h : p.value.RefersTo o) : v.RefersTo o := by
  unfold candidates at hp
  split at hp
  · obtain ⟨i, -, hi⟩ := List.mem_filterMap.mp hp
    obtain ⟨w, hw, rfl⟩ := Option.map_eq_some_iff.mp hi
    exact h.of_staticElement hw
  · obtain rfl := List.mem_singleton.mp hp
    exact h

theorem emitFieldWith_traced (hspawn : Spawns cx K base spawn)
    (hmember : Assigns cx K base emitMember) (allowProtected : Bool) :
    Assigns cx K base (emitFieldWith cx spawn emitMember allowProtected) := by
  intro field v start place hv hplace
  refine .liftBind fun f _ => ?_
  split
  · exact .pure fun _ _ => trivial
  · dsimp only
    split
    · exact .pure fun _ _ => trivial
    · split
      · exact .report (by simp [Problem.severity])
      · refine .forM fun p hp => emitValue_traced hspawn hmember f.type
          (fun o ho => hv o (refersTo_of_candidate (List.mem_of_mem_filter hp) ho)) p.base ?_
        cases hindex : p.index <;>
          simpa [Pending.place, hindex, Place.Within, Place.element, Place.member] using hplace

theorem emitMemberFrom_traced (hspawn : Spawns cx K base spawn) (n : Nat) :
    Assigns cx K base (emitMemberFrom cx spawn n) := by
  induction n with
  | zero => exact fun _ _ _ _ _ _ => .throw
  | succ n ih => exact emitFieldWith_traced hspawn ih false

theorem emitField_traced (hspawn : Spawns cx K base spawn) (allowProtected : Bool) :
    Assigns cx K base (emitField cx spawn allowProtected) :=
  fun field v start place hv hplace =>
    emitFieldWith_traced hspawn (emitMemberFrom_traced hspawn v.depth) allowProtected field v start
      place hv hplace

/-! ### Objects -/

theorem emitObjectWith_traced {object : ObjectId} (hspawn : Spawns cx (cx.Refers object) base spawn)
    (archetype : Option ObjectId) {place : Place} (hplace : base.Within place)
    (allowProtected : Bool) :
    Traced cx (cx.Refers object) base (fun _ => True)
      (emitObjectWith cx spawn object archetype place allowProtected) fun _ _ => True :=
  .liftBind fun _ _ => .liftBind fun _ _ => .forM fun field _ => .liftBind fun v hv =>
    .liftBind fun start _ => emitField_traced hspawn allowProtected field v (some start) place
      (fun _ ho => ⟨field, v, hv, ho⟩) hplace

/-- A new object is created, and its values are assigned below it. -/
theorem recreate_run {object : ObjectId} {o : ObjectRecord} {owner : LocalNames.Owner}
    (ho : cx.objects.object object = .ok o) (howner : s.names.owner? o.outer = some owner)
    {name : String} (h : (recreate cx spawn object o owner).run s = (.ok name, t)) :
    ∃ c, c.Under cx s.names owner ∧ c.object = object ∧ name = c.localName ∧
      (emitObjectWith cx spawn object c.archetype
        ⟨some (.created object), c.localName ++ "->", []⟩ false).run
          (s.withCreation c owner.afterCreate) = (.ok (), t) := by
  obtain ⟨_, _, hget, h⟩ := run_bind_ok h
  cases hget
  obtain ⟨archetype, harchetype, h⟩ := run_liftBind_ok h
  obtain ⟨_, _, hadd, h⟩ := run_bind_ok h
  cases hadd
  obtain ⟨cls, hcls, h⟩ := run_liftBind_ok h
  obtain ⟨_, _, hemit, h⟩ := run_bind_ok h
  cases hemit
  refine ⟨⟨object, archetype, s.names.fresh, cls, owner.expression, o.name⟩,
    ⟨⟨o, ho, howner, harchetype, hcls, rfl⟩, rfl, rfl⟩, rfl, ?_⟩
  obtain ⟨expression, afterCreate⟩ := owner
  cases afterCreate with
  | none =>
      obtain ⟨_, _, hobject, h⟩ := run_bind_ok h
      cases h
      exact ⟨rfl, hobject⟩
  | some afterCreate =>
      obtain ⟨_, _, hemit, h⟩ := run_bind_ok h
      cases hemit
      obtain ⟨_, _, hregister, h⟩ := run_bind_ok h
      cases hregister
      obtain ⟨_, _, hobject, h⟩ := run_bind_ok h
      cases h
      exact ⟨rfl, hobject⟩

/-- **To create an object again** is its creation and a trace for its values, if its owner is at
hand; otherwise it is nothing.  Nothing is asked of the object: it may be at hand already. -/
def Recreates (cx : Context) (spawn : Spawn) : Prop :=
  ∀ ⦃object s result t⦄, (spawn object).run s = (.ok result, t) →
    ∃ o, cx.objects.object object = .ok o ∧
      ((s.names.owner? o.outer = none ∧ result = none ∧ t = s) ∨
        ∃ owner c, c.Under cx s.names owner ∧ c.object = object ∧ result = some c.localName ∧
          Trace cx (cx.Refers object) c.place (s.withCreation c owner.afterCreate) t)

theorem Recreates.spawns (h : Recreates cx spawn) : Spawns cx K base spawn := by
  intro object hk s result t hnew hrun
  obtain ⟨o, ho, ⟨hnone, rfl, rfl⟩ | ⟨owner, c, hc, rfl, rfl, htrace⟩⟩ := h hrun
  · exact ⟨.refl, hnew, o, ho, hnone⟩
  · refine ⟨.create hk hc hnew htrace, htrace.moves.keeps _ _ ?_⟩
    rw [find?_withCreation, if_pos rfl, hc.localName]

theorem spawnFrom_recreates (n : Nat) : Recreates cx (spawnFrom cx n) := by
  induction n with
  | zero =>
      intro object s result t h
      cases h
  | succ n ih =>
      intro object s result t h
      obtain ⟨o, ho, h⟩ := run_liftBind_ok h
      obtain ⟨_, _, hget, h⟩ := run_bind_ok h
      cases hget
      refine ⟨o, ho, ?_⟩
      cases howner : s.names.owner? o.outer with
      | none =>
          rw [howner] at h
          cases h
          exact .inl ⟨rfl, rfl, rfl⟩
      | some owner =>
          rw [howner] at h
          obtain ⟨name, t', hrecreate, h⟩ := run_bind_ok h
          cases h
          obtain ⟨c, hc, rfl, rfl, hvalues⟩ := recreate_run ho howner hrecreate
          exact .inr ⟨owner, c, hc, rfl, rfl, (emitObjectWith_traced ih.spawns c.archetype
            ⟨rfl, rfl⟩ false _ _ _ trivial hvalues).1⟩

theorem emitSubobject_recreates : Recreates cx (emitSubobject cx) := spawnFrom_recreates _

end GraphLowering.Defaults
