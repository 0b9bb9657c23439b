import GraphLowering.Proofs.Lookup
import GraphLowering.Proofs.Totality.Ranges
import GraphLowering.World

/-!
# Rearrangement — stores

The fields of an object are set in some order, and its values stand in that order.  Two stores of
the same objects can differ in it, while what every object holds in a field is the same.

* `ObjectStore.Rearranged`: the same objects, the values of each in another order.
* `World.build_fieldsDistinct`: however a world is built, no field of an object has two values.
* `ObjectStore.setAll_object`: after fields are set in turn, a field holds what it was last given.
* `ObjectStore.setAll_rearranged`: so setting them in another order rearranges the store, if each
  field is last given the same.
* `ObjectStore.Rearranged.fieldValue`, `.pathName`, `.findSubobject?`: what is read of a store does
  not depend on the order.
-/

namespace GraphLowering

/-! ### Values -/

theorem lookup_cons_ite {α β : Type} [BEq α] [LawfulBEq α] [DecidableEq α] (key k : α) (b : β)
    (rest : List (α × β)) :
    ((k, b) :: rest).lookup key = if key = k then some b else rest.lookup key := by
  rw [List.lookup_cons]
  by_cases h : key = k
  · simp [h]
  · rw [beq_false_of_ne h, if_neg h]

section

variable {values values' : List (FieldId × Value)} {field : FieldId} {v : Value}

/-- Where no field has two values, the value of a field is the one it has an entry with. -/
theorem lookup_eq_some_iff_mem (h : (values.map (·.1)).Nodup) :
    values.lookup field = some v ↔ (field, v) ∈ values := by
  induction values with
  | nil => simp
  | cons entry rest ih =>
      obtain ⟨hnew, hrest⟩ := List.nodup_cons.mp h
      rw [lookup_cons_ite, List.mem_cons]
      by_cases hfield : field = entry.1
      · subst hfield
        have hnot : (entry.1, v) ∉ rest := fun hmem => hnew (List.mem_map.mpr ⟨_, hmem, rfl⟩)
        simp [hnot, Prod.ext_iff, eq_comm]
      · simp [ih hrest, Prod.ext_iff, hfield]

theorem lookup_eq_of_perm (hperm : values.Perm values') (h : (values.map (·.1)).Nodup)
    (field : FieldId) : values.lookup field = values'.lookup field := by
  have h' : (values'.map (·.1)).Nodup := (hperm.map _).nodup_iff.mp h
  refine Option.ext fun v => ?_
  rw [lookup_eq_some_iff_mem h, lookup_eq_some_iff_mem h', hperm.mem_iff]

theorem perm_of_lookup_eq (h : (values.map (·.1)).Nodup) (h' : (values'.map (·.1)).Nodup)
    (heq : ∀ field, values.lookup field = values'.lookup field) : values.Perm values' := by
  refine (List.perm_ext_iff_of_nodup (.of_map _ h) (.of_map _ h')).mpr fun (field, v) => ?_
  rw [← lookup_eq_some_iff_mem h, ← lookup_eq_some_iff_mem h', heq]

end

namespace ObjectRecord

/-- No field has two values. -/
def FieldsDistinct (o : ObjectRecord) : Prop := (o.values.map (·.1)).Nodup

theorem mem_keys_setIn {field f : FieldId} {v : Value} {values : List (FieldId × Value)} :
    f ∈ (setIn field v values).map (·.1) ↔ f = field ∨ f ∈ values.map (·.1) := by
  fun_induction setIn field v values with
  | case1 => simp
  | case2 => simp
  | case3 f' v' rest hne ih =>
      rw [List.map_cons, List.mem_cons, ih, List.map_cons, List.mem_cons]
      exact or_left_comm

theorem nodup_keys_setIn {field : FieldId} {v : Value} {values : List (FieldId × Value)}
    (h : (values.map (·.1)).Nodup) : ((setIn field v values).map (·.1)).Nodup := by
  fun_induction setIn field v values with
  | case1 => exact List.nodup_singleton _
  | case2 => exact h
  | case3 f' v' rest hne ih =>
      obtain ⟨hnew, hrest⟩ := List.nodup_cons.mp h
      refine List.nodup_cons.mpr ⟨fun hmem => ?_, ih hrest⟩
      exact (mem_keys_setIn.mp hmem).elim hne hnew

/-- A field that was just set holds its new value, and any other what it held before. -/
theorem lookup_setIn (field f : FieldId) (v : Value) (values : List (FieldId × Value)) :
    (setIn field v values).lookup f = if f = field then some v else values.lookup f := by
  fun_induction setIn field v values with
  | case1 => rw [lookup_cons_ite]
  | case2 v' rest =>
      rw [lookup_cons_ite, lookup_cons_ite]
      split <;> rfl
  | case3 f' v' rest hne ih =>
      rw [lookup_cons_ite, lookup_cons_ite, ih]
      by_cases h : f = f'
      · rw [if_pos h, if_pos h, if_neg (h ▸ hne)]
      · rw [if_neg h, if_neg h]

theorem FieldsDistinct.set {o : ObjectRecord} (h : o.FieldsDistinct) (field : FieldId)
    (v : Value) : (o.set field v).FieldsDistinct :=
  nodup_keys_setIn h

/-- The record without its values. -/
def bare (o : ObjectRecord) : ObjectRecord := { o with values := [] }

/-- The second record is the first with its values in another order; no field has two of them. -/
structure Rearranged (o o' : ObjectRecord) : Prop where
  same : o' = { o with values := o'.values }
  perm : o.values.Perm o'.values
  distinct : o.FieldsDistinct

theorem Rearranged.exists_values {o o' : ObjectRecord} (h : o.Rearranged o') :
    ∃ values, o' = { o with values } ∧ o.values.Perm values ∧ o.FieldsDistinct :=
  ⟨o'.values, h.same, h.perm, h.distinct⟩

theorem Rearranged.symm {o o' : ObjectRecord} (h : o.Rearranged o') : o'.Rearranged o where
  same := by rw [h.same]
  perm := h.perm.symm
  distinct := (h.perm.map _).nodup_iff.mp h.distinct

end ObjectRecord

/-! ### Stores -/

namespace ObjectStore

variable {s s' : ObjectStore}

def FieldsDistinct (s : ObjectStore) : Prop := ∀ o ∈ s.objects, o.FieldsDistinct

theorem FieldsDistinct.add (h : s.FieldsDistinct) (name : String) (cls : TypeId) (outer : Outer) :
    (s.add name cls outer).2.FieldsDistinct := by
  intro o ho
  rcases Array.mem_push.mp ho with ho | rfl
  · exact h o ho
  · exact List.nodup_nil

theorem FieldsDistinct.modify (h : s.FieldsDistinct) {id : ObjectId}
    {change : ObjectRecord → ObjectRecord}
    (hchange : ∀ o, o.FieldsDistinct → (change o).FieldsDistinct)
    (hmodify : s.modify id change = .ok s') : s'.FieldsDistinct := by
  obtain ⟨o, ho, hmodify⟩ := Lookup.of_bind_ok hmodify
  cases hmodify
  intro p hp
  rcases Array.mem_or_eq_of_mem_setIfInBounds hp with hp | rfl
  · exact h p hp
  · exact hchange o (h o (Array.mem_toList_iff.mp (mem_objects ho)))

/-- The same objects, the values of each in another order. -/
def Rearranged (s s' : ObjectStore) : Prop :=
  s.size = s'.size ∧ ∀ id o o', s.object id = .ok o → s'.object id = .ok o' → o.Rearranged o'

namespace Rearranged

theorem symm (h : s.Rearranged s') : s'.Rearranged s :=
  ⟨h.1.symm, fun id o o' ho ho' => (h.2 id o' o ho' ho).symm⟩

/-! ### What is read of a store -/

/-- An object of the store, with its values in either order. -/
theorem object (h : s.Rearranged s') (id : ObjectId) :
    (∃ o values, s.object id = .ok o ∧ s'.object id = .ok { o with values } ∧
      o.values.Perm values ∧ o.FieldsDistinct) ∨
      ∃ fault, s.object id = .error fault ∧ s'.object id = .error fault := by
  obtain ⟨hsize, hobjects⟩ := h
  rcases Nat.lt_or_ge id.index s.size with hlt | hge
  · have ho := object_eq_ok_iff.mpr (Array.getElem?_eq_getElem hlt)
    have ho' := object_eq_ok_iff.mpr (Array.getElem?_eq_getElem (hsize ▸ hlt))
    obtain ⟨values, heq, hperm, hdistinct⟩ := (hobjects id _ _ ho ho').exists_values
    rw [heq] at ho'
    exact .inl ⟨_, values, ho, ho', hperm, hdistinct⟩
  · refine .inr ⟨.noObject id, ?_, ?_⟩
    · rw [ObjectStore.object, Array.getElem?_eq_none hge]
    · rw [ObjectStore.object, Array.getElem?_eq_none (Nat.le_trans (Nat.le_of_eq hsize.symm) hge)]

/-- A look-up that goes on alike for either order of the values. -/
theorem object_bind (h : s.Rearranged s') (id : ObjectId) {α : Type}
    {f f' : ObjectRecord → Except Fault α}
    (hf : ∀ o values, o.values.Perm values → o.FieldsDistinct → f' { o with values } = f o) :
    (s'.object id >>= f') = (s.object id >>= f) := by
  rcases h.object id with ⟨o, values, ho, ho', hperm, hdistinct⟩ | ⟨fault, ho, ho'⟩
  · rw [ho, ho']
    exact hf o values hperm hdistinct
  · rw [ho, ho']
    rfl

theorem height (h : s.Rearranged s') : s'.height = s.height := congrArg (· + 1) h.1.symm

/-- Without their values, the objects are the same. -/
theorem map_bare (h : s.Rearranged s') :
    s'.objects.toList.map ObjectRecord.bare = s.objects.toList.map ObjectRecord.bare := by
  have hsize : s.objects.size = s'.objects.size := h.1
  refine List.ext_getElem (by simp [hsize]) fun i hi' hi => ?_
  simp only [List.length_map, Array.length_toList] at hi hi'
  have hR := h.2 ⟨i⟩ _ _ (object_eq_ok_iff.mpr (Array.getElem?_eq_getElem hi))
    (object_eq_ok_iff.mpr (Array.getElem?_eq_getElem hi'))
  rw [List.getElem_map, List.getElem_map, Array.getElem_toList, Array.getElem_toList, hR.same]
  rfl

theorem findSubobject? (h : s.Rearranged s') : s'.findSubobject? = s.findSubobject? := by
  funext outer name cls
  have hbare : ∀ s : ObjectStore, s.findSubobject? outer name cls =
      ((s.objects.toList.map ObjectRecord.bare).findIdx? fun o =>
        o.outer = .object outer ∧ o.name = name ∧ o.cls = cls).map ObjectId.mk := by
    intro s
    rw [List.findIdx?_map]
    rfl
  rw [hbare, hbare, h.map_bare]

theorem fieldValue (h : s.Rearranged s') : s'.fieldValue = s.fieldValue := by
  funext schema id field
  refine h.object_bind id fun o values hperm hdistinct => ?_
  dsimp only
  rw [lookup_eq_of_perm hperm hdistinct]

theorem pathNameFrom (h : s.Rearranged s') (schema : Schema) (n : Nat) (id : ObjectId) :
    s'.pathNameFrom schema n id = s.pathNameFrom schema n id := by
  induction n generalizing id with
  | zero => rfl
  | succ n ih =>
      refine h.object_bind id fun o values _ _ => ?_
      simp only [ih]

theorem pathName (h : s.Rearranged s') : s'.pathName = s.pathName := by
  funext schema id
  rw [ObjectStore.pathName, h.height, h.pathNameFrom]
  rfl

end Rearranged

/-! ### Fields set in turn -/

/-- Set fields in turn, each given by its object, the field and the value. -/
def setAll (s : ObjectStore) (sets : List ((ObjectId × FieldId) × Value)) :
    Except Fault ObjectStore :=
  sets.foldlM (fun s e => s.set e.1.1 e.1.2 e.2) s

section

variable {sets sets' : List ((ObjectId × FieldId) × Value)} {id : ObjectId} {o : ObjectRecord}

theorem set_ok {field : FieldId} {v : Value} (h : s.set id field v = .ok s') :
    id.index < s.size ∧ s'.size = s.size ∧ ∀ id' o, s.object id' = .ok o →
      s'.object id' = .ok (if id' = id then o.set field v else o) := by
  obtain ⟨p, hp, h⟩ := Lookup.of_bind_ok h
  cases h
  refine ⟨index_lt hp, Array.size_setIfInBounds, fun id' o ho => ?_⟩
  rw [object_eq_ok_iff, Array.getElem?_setIfInBounds]
  by_cases heq : id' = id
  · subst heq
    rw [hp] at ho
    cases ho
    simp [index_lt hp]
  · have hne : ¬ id.index = id'.index := fun h => heq (congrArg ObjectId.mk h.symm)
    simp [hne, heq, object_eq_ok_iff.mp ho]

/-- **After fields are set in turn, each holds what it was last given**, or what it held before. -/
theorem setAll_object (h : s.setAll sets = .ok s') (ho : s.object id = .ok o) :
    ∃ values, s'.object id = .ok { o with values } ∧
      (o.FieldsDistinct → (values.map (·.1)).Nodup) ∧
      ∀ field, values.lookup field =
        (sets.reverse.lookup (id, field)).or (o.values.lookup field) := by
  induction sets generalizing s o with
  | nil =>
      cases h
      exact ⟨o.values, ho, fun h => h, fun field => rfl⟩
  | cons entry rest ih =>
      obtain ⟨⟨id', field'⟩, v⟩ := entry
      obtain ⟨mid, hset, hrest⟩ := Lookup.of_bind_ok h
      obtain ⟨values, hvalues, hdistinct, hlookup⟩ := ih hrest ((set_ok hset).2.2 id o ho)
      refine ⟨values, ?_, fun h => hdistinct ?_, fun field => ?_⟩
      · rw [hvalues]
        split <;> rfl
      · split
        · exact h.set field' v
        · exact h
      · rw [hlookup, List.reverse_cons, List.lookup_append, lookup_cons_ite, Option.or_assoc]
        by_cases hid : id = id'
        · rw [if_pos hid, ObjectRecord.set, ObjectRecord.lookup_setIn]
          by_cases hfield : field = field' <;> simp [hid, hfield]
        · simp [hid]

theorem setAll_size (h : s.setAll sets = .ok s') : s'.size = s.size :=
  Lookup.foldlM_ok (P := fun t : ObjectStore => t.size = s.size)
    (fun _ _ _ ht hset => (set_ok hset).2.1.trans ht) rfl h

/-- Fields can be set in turn just when their objects are there. -/
theorem exists_setAll_iff :
    (∃ s', s.setAll sets = .ok s') ↔ ∀ entry ∈ sets, entry.1.1.index < s.size := by
  induction sets generalizing s with
  | nil => exact ⟨fun _ => nofun, fun _ => ⟨s, rfl⟩⟩
  | cons entry rest ih =>
      constructor
      · rintro ⟨s', h⟩
        obtain ⟨mid, hset, hrest⟩ := Lookup.of_bind_ok h
        obtain ⟨hlt, hsize, -⟩ := set_ok hset
        have hrest := ih.mp ⟨s', hrest⟩
        rw [hsize] at hrest
        exact List.forall_mem_cons.mpr ⟨hlt, hrest⟩
      · intro h
        obtain ⟨hlt, hrest⟩ := List.forall_mem_cons.mp h
        obtain ⟨mid, hset⟩ : ∃ mid, s.set entry.1.1 entry.1.2 entry.2 = .ok mid :=
          ⟨_, Lookup.bind_of_ok (object_eq_ok_iff.mpr (Array.getElem?_eq_getElem hlt)) _⟩
        rw [← (set_ok hset).2.1] at hrest
        obtain ⟨s', hs'⟩ := ih.mpr hrest
        exact ⟨s', (Lookup.bind_of_ok hset _).trans hs'⟩

/-- **Setting fields in another order rearranges the store**, if each field is last given the
same. -/
theorem setAll_rearranged {base : ObjectStore} (hbase : base.FieldsDistinct)
    (h : base.setAll sets = .ok s)
    (hsame : ∀ place, sets'.reverse.lookup place = sets.reverse.lookup place) :
    ∃ s', base.setAll sets' = .ok s' ∧ s.Rearranged s' := by
  have hindex : ∀ entry ∈ sets', entry.1.1.index < base.size := by
    intro entry hentry
    have hsome : (sets'.reverse.lookup entry.1).isSome = true :=
      List.lookup_isSome_iff.mpr ⟨entry, List.mem_reverse.mpr hentry, beq_self_eq_true _⟩
    rw [hsame] at hsome
    obtain ⟨entry', hentry', heq⟩ := List.lookup_isSome_iff.mp hsome
    rw [beq_iff_eq.mp heq]
    exact exists_setAll_iff.mp ⟨s, h⟩ entry' (List.mem_reverse.mp hentry')
  obtain ⟨s', h'⟩ := exists_setAll_iff.mpr hindex
  refine ⟨s', h', (setAll_size h).trans (setAll_size h').symm, fun id o o' ho ho' => ?_⟩
  obtain ⟨p, hp⟩ : ∃ p, base.object id = .ok p := by
    have hlt : id.index < base.size := setAll_size h ▸ index_lt ho
    exact ⟨_, object_eq_ok_iff.mpr (Array.getElem?_eq_getElem hlt)⟩
  have hdistinct := hbase p (Array.mem_toList_iff.mp (mem_objects hp))
  obtain ⟨values, hvalues, hnodup, hlookup⟩ := setAll_object h hp
  obtain ⟨values', hvalues', hnodup', hlookup'⟩ := setAll_object h' hp
  rw [hvalues] at ho
  rw [hvalues'] at ho'
  cases ho
  cases ho'
  refine ⟨rfl, perm_of_lookup_eq (hnodup hdistinct) (hnodup' hdistinct) fun field => ?_,
    hnodup hdistinct⟩
  rw [hlookup, hlookup', hsame]

end

end ObjectStore

/-! ### Worlds -/

/-- **However a world is built, no field of an object has two values.** -/
theorem World.build_fieldsDistinct {edits : List Edit} {w : World}
    (h : World.build edits = .ok w) : w.objects.FieldsDistinct := by
  refine Lookup.foldlM_ok (P := fun w : World => w.objects.FieldsDistinct)
    (fun w edit w' hw happly => ?_) (fun o ho => absurd ho (Array.not_mem_empty o)) h
  cases edit with
  | setPackage | addClass | addInterface | addStruct | addEnum | addType =>
      cases happly
      exact hw
  | addCore | changeType | addField | changeField | addFunction | changeFunction | addParam =>
      obtain ⟨_, -, happly⟩ := Lookup.of_bind_ok happly
      cases happly
      exact hw
  | addObject name cls outer =>
      cases happly
      exact hw.add name cls outer
  | setObjectFlags id flags =>
      obtain ⟨s, hs, happly⟩ := Lookup.of_bind_ok happly
      cases happly
      refine hw.modify ?_ hs
      exact fun _ ho => ho
  | setValue id field v =>
      obtain ⟨s, hs, happly⟩ := Lookup.of_bind_ok happly
      cases happly
      exact hw.modify (fun _ ho => ho.set field v) hs

end GraphLowering
