import GraphLowering.Proofs.Totality.Ranges
import GraphLowering.Proofs.Values

/-!
# Dependencies — marks

What a walk has listed and where it has been, as sets.  Each part of a unit asks something of these
sets: that its types are covered, that its signatures and its objects are visited.  Marks are closed
when what they hold asks for nothing more.

* `Value.Mentions`: the types and objects that a value names.
* `Marks.Covers`, `CoversType`, `Follows`, `CoversSurface`, `CoversGraph`: what types, values and
  declarations ask for.
* `Marks.Closed`: every signature that was visited is scanned, and every object explored.
* `Recorded`: how a collector keeps what it has found.
-/

namespace GraphLowering

open Collector

/-- Stable names tell dependencies apart. -/
def Context.NamesDistinct (cx : Context) : Prop :=
  ∀ d d' : Dependency, ∀ name, d.stableName cx = .ok name → d'.stableName cx = .ok name → d = d'

/-- Everything that has a stable name. -/
def Context.dependencies (cx : Context) : List Dependency :=
  (List.range cx.schema.types.size).map (.type ⟨·⟩) ++ cx.objects.ids.map .object

theorem Context.mem_dependencies {cx : Context} {d : Dependency} {name : String}
    (h : d.stableName cx = .ok name) : d ∈ cx.dependencies := by
  cases d with
  | type id =>
      obtain ⟨decl, hdecl, -⟩ := Lookup.of_bind_ok h
      refine List.mem_append_left _ (List.mem_map.mpr ⟨id.index, List.mem_range.mpr ?_, rfl⟩)
      exact (Array.getElem?_eq_some_iff.mp (Schema.type_eq_ok_iff.mp hdecl)).1
  | object id =>
      obtain ⟨record, hrecord, -⟩ := Lookup.of_bind_ok h
      refine List.mem_append_right _ (List.mem_map.mpr ⟨id, ?_, rfl⟩)
      refine List.mem_map.mpr ⟨id.index, List.mem_range.mpr ?_, rfl⟩
      exact ObjectStore.index_lt hrecord

/-- That names are distinct can be checked, one pair after the other. -/
theorem namesDistinct_of_forall {cx : Context}
    (h : ∀ d ∈ cx.dependencies, ∀ d' ∈ cx.dependencies,
      (d.stableName cx).toOption = (d'.stableName cx).toOption → d = d') : cx.NamesDistinct := by
  intro d d' name hd hd'
  refine h d (Context.mem_dependencies hd) d' (Context.mem_dependencies hd') ?_
  rw [hd, hd']

/-- The value names the type or the object, itself or in one of its parts. -/
inductive Value.Mentions (dep : Dependency) : Value → Prop
  | object {o : ObjectId} (h : dep = .object o) : Mentions dep (.object (some o))
  | softObject {o : ObjectId} (h : dep = .object o) : Mentions dep (.softObject (some o))
  | delegate {o : ObjectId} {f : String} (h : dep = .object o) :
      Mentions dep (.delegate (some (o, f)))
  | classRef {t : TypeId} (h : dep = .type t) : Mentions dep (.classRef (some t))
  | softClass {t : TypeId} (h : dep = .type t) : Mentions dep (.softClass (some t))
  | struct {t : TypeId} {members : List Value} (h : dep = .type t) :
      Mentions dep (.struct t members)
  | member {t : TypeId} {members : List Value} {v : Value} (hv : v ∈ members)
      (h : Mentions dep v) : Mentions dep (.struct t members)
  | item {items : List Value} {v : Value} (hv : v ∈ items) (h : Mentions dep v) :
      Mentions dep (.array items)

theorem Value.RefersTo.mentions {o : ObjectId} {v : Value} (h : v.RefersTo o) :
    v.Mentions (.object o) := by
  induction h with
  | object => exact .object rfl
  | member hv _ ih => exact .member hv ih
  | item hv _ ih => exact .item hv ih

/-- What a walk has listed, and the signatures and objects that it has visited. -/
structure Marks where
  listed : Dependency → Prop
  signatures : FunctionId → Prop
  objects : ObjectId → Prop

def Collector.marks (c : Collector) : Marks :=
  ⟨(· ∈ c.found.map (·.2)), (· ∈ c.signatures), (· ∈ c.objects)⟩

namespace Marks

/-- What is in the first is in the second. -/
structure Sub (m m' : Marks) : Prop where
  listed : ∀ dep, m.listed dep → m'.listed dep
  signatures : ∀ g, m.signatures g → m'.signatures g
  objects : ∀ o, m.objects o → m'.objects o

theorem Sub.refl (m : Marks) : m.Sub m := ⟨fun _ h => h, fun _ h => h, fun _ h => h⟩

theorem Sub.trans {m m' m'' : Marks} (h : m.Sub m') (h' : m'.Sub m'') : m.Sub m'' where
  listed dep hdep := h'.listed dep (h.listed dep hdep)
  signatures g hg := h'.signatures g (h.signatures g hg)
  objects o ho := h'.objects o (h.objects o ho)

/-! ### Parts of a unit -/

section

variable (cx : Context) (m : Marks)

/-- The type is an engine struct, or it is listed. -/
def Covers (t : TypeId) : Prop :=
  ∃ decl, cx.schema.type t = .ok decl ∧ (decl.wellKnown.isSome = true ∨ m.listed (.type t))

/-- What a declared type names is covered, and its signature is visited. -/
def CoversType (t : ValueType) : Prop :=
  t.isSelf = false →
    (∀ sub ∈ t.subType, m.Covers cx sub) ∧ ∀ g ∈ t.signature, m.signatures g

def CoversField (f : FieldId) : Prop :=
  ∃ decl, cx.schema.field f = .ok decl ∧ m.CoversType cx decl.type

/-- The type that owns the function is covered. -/
def CoversOwner (g : FunctionId) : Prop :=
  ∃ decl, cx.schema.function g = .ok decl ∧ m.Covers cx decl.owner

/-- The type is covered, or the object is visited. -/
def Meets : Dependency → Prop
  | .type t => m.Covers cx t
  | .object o => m.objects o

/-- Everything that the value names is met. -/
def Follows (v : Value) : Prop := ∀ dep, v.Mentions dep → m.Meets cx dep

/-- The parameters of the function are covered. -/
def Scanned (g : FunctionId) : Prop :=
  ∃ decl, cx.schema.function g = .ok decl ∧ ∀ p ∈ decl.params, m.CoversField cx p

/-- The class of the object is covered.  If the object belongs to the unit its values are followed,
and else it is listed.  Whether it does is known; or a chain is endless, which `A` rules out. -/
def Explored (A : Prop) (o : ObjectId) : Prop :=
  ∃ record, cx.objects.object o = .ok record ∧ m.Covers cx record.cls ∧
    Answers A (isOwnedByUnit cx record) fun owned =>
      (owned = true → ∀ entry ∈ record.values, m.Follows cx entry.2) ∧
        (owned = false → m.listed (.object o))

/-- What a declaration shows of other types is covered. -/
structure CoversSurface (unit : TypeDecl) : Prop where
  superType : ∀ t ∈ unit.superType, m.Covers cx t
  interfaces : ∀ t ∈ unit.interfaces, m.Covers cx t
  fields : ∀ f ∈ unit.fields, m.CoversField cx f
  functions : ∀ g ∈ unit.functions, m.signatures g

/-- The type of a term is covered, and its value is followed when it is a literal. -/
def CoversTerm (t : Term) : Prop :=
  m.CoversType cx t.type ∧ ∀ v, t.kind = .literal v → m.Follows cx v

/-- The locals and terms of a body are covered, and the owners of what it calls. -/
structure CoversGraph (g : FunctionGraph) : Prop where
  locals : ∀ l ∈ g.locals, m.CoversType cx l.type
  terms : ∀ t ∈ g.terms.toList, m.CoversTerm cx t
  callees : ∀ s ∈ g.statements.toList, ∀ f ∈ s.function, m.CoversOwner cx f

end

/-- What is listed has a name; and apart from those in `before`, the signatures that were visited
are scanned and the objects explored. -/
structure Closed (A : Prop) (cx : Context) (m before : Marks) : Prop where
  names : ∀ dep, m.listed dep → Ends A (dep.stableName cx)
  signatures : ∀ g, m.signatures g → before.signatures g ∨ m.Scanned cx g
  objects : ∀ o, m.objects o → before.objects o ∨ m.Explored cx A o

/-! ### More marks -/

section Sub

variable {A : Prop} {cx : Context} {m m' : Marks}

theorem Covers.mono {t : TypeId} (h : m.Covers cx t) (hsub : m.Sub m') : m'.Covers cx t := by
  obtain ⟨decl, hdecl, hknown⟩ := h
  exact ⟨decl, hdecl, hknown.imp id (hsub.listed _)⟩

theorem CoversType.mono {t : ValueType} (h : m.CoversType cx t) (hsub : m.Sub m') :
    m'.CoversType cx t := by
  intro hself
  obtain ⟨hsubType, hsignature⟩ := h hself
  exact ⟨fun sub hmem => (hsubType sub hmem).mono hsub,
    fun g hg => hsub.signatures g (hsignature g hg)⟩

theorem CoversField.mono {f : FieldId} (h : m.CoversField cx f) (hsub : m.Sub m') :
    m'.CoversField cx f := by
  obtain ⟨decl, hdecl, htype⟩ := h
  exact ⟨decl, hdecl, htype.mono hsub⟩

theorem CoversOwner.mono {g : FunctionId} (h : m.CoversOwner cx g) (hsub : m.Sub m') :
    m'.CoversOwner cx g := by
  obtain ⟨decl, hdecl, howner⟩ := h
  exact ⟨decl, hdecl, howner.mono hsub⟩

theorem Meets.mono {dep : Dependency} (h : m.Meets cx dep) (hsub : m.Sub m') :
    m'.Meets cx dep := by
  cases dep with
  | type t => exact Covers.mono h hsub
  | object o => exact hsub.objects o h

theorem Follows.mono {v : Value} (h : m.Follows cx v) (hsub : m.Sub m') : m'.Follows cx v :=
  fun dep hdep => (h dep hdep).mono hsub

theorem Scanned.mono {g : FunctionId} (h : m.Scanned cx g) (hsub : m.Sub m') :
    m'.Scanned cx g := by
  obtain ⟨decl, hdecl, hparams⟩ := h
  exact ⟨decl, hdecl, fun p hp => (hparams p hp).mono hsub⟩

theorem Explored.mono {o : ObjectId} (h : m.Explored cx A o) (hsub : m.Sub m') :
    m'.Explored cx A o := by
  obtain ⟨record, hrecord, hcls, howned⟩ := h
  refine ⟨record, hrecord, hcls.mono hsub, howned.imp fun owned ⟨hvalues, hlisted⟩ => ?_⟩
  exact ⟨fun h entry hentry => (hvalues h entry hentry).mono hsub,
    fun h => hsub.listed _ (hlisted h)⟩

theorem CoversTerm.mono {t : Term} (h : m.CoversTerm cx t) (hsub : m.Sub m') :
    m'.CoversTerm cx t :=
  ⟨h.1.mono hsub, fun v hv => (h.2 v hv).mono hsub⟩

end Sub

end Marks

/-! ### Entries -/

namespace Collector

variable {cx : Context} {c : Collector} {name : String} {dep : Dependency}
  {entries : List (String × Dependency)}

theorem mem_insertSorted {entry : String × Dependency} (h : entry ∈ insertSorted name dep entries) :
    entry = (name, dep) ∨ entry ∈ entries := by
  fun_induction insertSorted name dep entries with
  | case1 => exact .inl (List.mem_singleton.mp h)
  | case2 => exact .inr h
  | case3 =>
      rcases List.mem_cons.mp h with h | h
      · exact .inl h
      · exact .inr h
  | case4 n d rest _ _ ih =>
      rcases List.mem_cons.mp h with rfl | h
      · exact .inr List.mem_cons_self
      · exact (ih h).imp id (List.mem_cons_of_mem _)

theorem subset_insertSorted (name : String) (dep : Dependency)
    (entries : List (String × Dependency)) : entries ⊆ insertSorted name dep entries := by
  fun_induction insertSorted name dep entries with
  | case1 => exact List.nil_subset _
  | case2 => exact List.Subset.refl _
  | case3 => exact List.subset_cons_self _ _
  | case4 n d rest _ _ ih => exact List.cons_subset_cons _ ih

/-- The name is in use afterwards, by the new entry or by one from before. -/
theorem exists_mem_insertSorted (name : String) (dep : Dependency)
    (entries : List (String × Dependency)) :
    ∃ d, (name, d) ∈ insertSorted name dep entries ∧ (d = dep ∨ (name, d) ∈ entries) := by
  fun_induction insertSorted name dep entries with
  | case1 => exact ⟨dep, List.mem_singleton_self _, .inl rfl⟩
  | case2 d rest => exact ⟨d, List.mem_cons_self, .inr List.mem_cons_self⟩
  | case3 => exact ⟨dep, List.mem_cons_self, .inl rfl⟩
  | case4 n d rest _ _ ih =>
      obtain ⟨d', hmem, hd'⟩ := ih
      exact ⟨d', List.mem_cons_of_mem _ hmem, hd'.imp id (List.mem_cons_of_mem _)⟩

/-- Names stay in ascending order when one more is put in its place. -/
theorem pairwise_insertSorted (name : String) (dep : Dependency)
    (h : entries.Pairwise fun e e' => e.1 < e'.1) :
    (insertSorted name dep entries).Pairwise fun e e' => e.1 < e'.1 := by
  fun_induction insertSorted name dep entries with
  | case1 => exact List.pairwise_singleton _ _
  | case2 => exact h
  | case3 n d rest _ hlt =>
      refine List.pairwise_cons.mpr ⟨fun entry hentry => ?_, h⟩
      rcases List.mem_cons.mp hentry with rfl | hentry
      · exact hlt
      · exact String.lt_trans hlt ((List.pairwise_cons.mp h).1 entry hentry)
  | case4 n d rest hne hnlt ih =>
      obtain ⟨hfirst, hrest⟩ := List.pairwise_cons.mp h
      refine List.pairwise_cons.mpr ⟨fun entry hentry => ?_, ih hrest⟩
      rcases mem_insertSorted hentry with rfl | hentry
      · exact String.not_le.mp fun hle => hne (String.le_antisymm hle (String.not_lt.mp hnlt))
      · exact hfirst entry hentry

/-- Entries stand under their stable names, in ascending order; the types that were seen are those
with an entry, and none of them is an engine struct. -/
structure Recorded (cx : Context) (c : Collector) : Prop where
  names : ∀ entry ∈ c.found, entry.2.stableName cx = .ok entry.1
  ascending : c.found.Pairwise fun e e' => e.1 < e'.1
  types : ∀ t, t ∈ c.types ↔ .type t ∈ c.found.map (·.2)
  plain : ∀ t ∈ c.types, ∀ decl, cx.schema.type t = .ok decl → decl.wellKnown = none

theorem Recorded.empty : Recorded cx {} where
  names := nofun
  ascending := .nil
  types _ := by simp
  plain := nofun

theorem Recorded.markSignature (h : c.Recorded cx) (g : FunctionId) :
    Recorded cx { c with signatures := g :: c.signatures } :=
  ⟨h.names, h.ascending, h.types, h.plain⟩

theorem Recorded.markObject (h : c.Recorded cx) (o : ObjectId) :
    Recorded cx { c with objects := o :: c.objects } :=
  ⟨h.names, h.ascending, h.types, h.plain⟩

/-- Under distinct names, one more entry is there beside those from before. -/
theorem mem_map_insertSorted (hnames : cx.NamesDistinct) (hdep : dep.stableName cx = .ok name)
    (hentries : ∀ entry ∈ entries, entry.2.stableName cx = .ok entry.1) {d : Dependency} :
    d ∈ (insertSorted name dep entries).map (·.2) ↔ d = dep ∨ d ∈ entries.map (·.2) := by
  constructor
  · intro hd
    obtain ⟨entry, hentry, rfl⟩ := List.mem_map.mp hd
    rcases mem_insertSorted hentry with rfl | hentry
    · exact .inl rfl
    · exact .inr (List.mem_map.mpr ⟨entry, hentry, rfl⟩)
  · rintro (rfl | hd)
    · obtain ⟨d', hmem, rfl | hold⟩ := exists_mem_insertSorted name d entries
      · exact List.mem_map.mpr ⟨_, hmem, rfl⟩
      · exact List.mem_map.mpr ⟨_, hmem, hnames d' d name (hentries _ hold) hdep⟩
    · exact List.map_subset _ (subset_insertSorted name dep entries) hd

/-- A dependency is recorded under its name, with the mark of its type if it is one. -/
theorem Recorded.insert (h : c.Recorded cx) (hnames : cx.NamesDistinct)
    (hdep : dep.stableName cx = .ok name) {types : List TypeId}
    (htypes : ∀ t, t ∈ types ↔ dep = .type t ∨ t ∈ c.types)
    (hplain : ∀ t, dep = .type t → ∀ decl, cx.schema.type t = .ok decl →
      decl.wellKnown = none) :
    Recorded cx { c with types, found := insertSorted name dep c.found } where
  names entry hentry := by
    rcases mem_insertSorted hentry with rfl | hentry
    · exact hdep
    · exact h.names entry hentry
  ascending := pairwise_insertSorted name dep h.ascending
  types t := by
    rw [mem_map_insertSorted hnames hdep h.names, htypes, h.types, eq_comm]
  plain t ht decl hdecl := by
    rcases (htypes t).mp ht with heq | ht
    · exact hplain t heq decl hdecl
    · exact h.plain t ht decl hdecl

end Collector

end GraphLowering
