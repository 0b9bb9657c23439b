import GraphLowering.Proofs.Totality.Ranges

/-!
# Totality — walks through the schema

What a walk from type to type needs of a schema is less than that all of it is in range
(`Schema.Walkable`): super types, fields and structs held by value are there, and under `A` neither
super types nor structs held by value lead back.  Interfaces, functions and declared defaults may
name anything.

* `Walkable.climb`, `Walkable.allFields`: walks over super types.
* `Walkable.defaultValue`, `Walkable.structDefault`: defaults, through the structs held by value,
  with whatever passes from members to structs (`Schema.DefaultsHave`).
* `Walkable.cppType`: how types are spelled.
-/

namespace GraphLowering

theorem TypeId.index_injective : Function.Injective TypeId.index := by
  rintro ⟨i⟩ ⟨j⟩ h
  exact congrArg TypeId.mk h

theorem ValueType.InRange.heldStruct {t : ValueType} {e : Extent} (ht : t.InRange e) {p : TypeId}
    (hp : p ∈ t.heldStruct?) : p.InRange e := by
  unfold ValueType.heldStruct? at hp
  split at hp
  · exact ht.subType p hp
  · cases hp

namespace Schema

/-- What the walks visit is there, and under `A` they end. -/
structure Walkable (A : Prop) (s : Schema) : Prop where
  superType : ∀ t ∈ s.types.toList, ∀ p ∈ t.superType, p.index < s.types.size
  fields : ∀ t ∈ s.types.toList, ∀ f ∈ t.fields, f.index < s.fields.size
  held : ∀ f ∈ s.fields.toList, ∀ p ∈ f.type.heldStruct?, p.index < s.types.size
  supers : A → Acyclic s.supers
  parts : A → Acyclic s.parts

/-- Declared defaults and defaults without ids have `Q`, and so have structs of members with `Q`. -/
structure DefaultsHave (s : Schema) (Q : Value → Prop) : Prop where
  declared : ∀ t ∈ s.types.toList, ∀ v ∈ t.structDefaults, Q v.toValue
  plain : ∀ v : Value, (∀ e, v.inRange e = true) → Q v
  struct : ∀ id : TypeId, ∀ members, id.index < s.types.size → (∀ v ∈ members, Q v) →
    Q (.struct id members)

theorem DefaultsHave.trivial {s : Schema} : s.DefaultsHave fun _ => True :=
  ⟨fun _ _ _ _ => True.intro, fun _ _ => True.intro, fun _ _ _ _ => True.intro⟩

namespace Walkable

variable {A : Prop} {s : Schema} {objects : ObjectStore} {id : TypeId} {t : ValueType}

theorem type (_ : s.Walkable A) (hid : id.index < s.types.size) :
    Answers A (s.type id) fun t => s.type id = .ok t ∧ t ∈ s.types.toList :=
  .lookup (fun _ => type_eq_ok_iff) hid fun _ ht => ht

theorem field (_ : s.Walkable A) {f : FieldId} (hf : f.index < s.fields.size) :
    Answers A (s.field f) fun decl => s.field f = .ok decl ∧ decl ∈ s.fields.toList :=
  .lookup (fun _ => field_eq_ok_iff) hf fun _ hdecl => hdecl

/-! ### Super types -/

theorem mem_supers {decl : TypeDecl} (h : s.type id = .ok decl) {p : TypeId}
    (hp : p ∈ decl.superType) : p ∈ s.supers id := by
  simp only [Schema.supers, h]
  exact Option.mem_toList.mpr hp

theorem supers_lt (h : s.Walkable A) {p : TypeId} (hp : p ∈ s.supers id) :
    p.index < s.types.size := by
  unfold Schema.supers at hp
  split at hp
  · rename_i decl hdecl
    exact h.superType decl (mem_types hdecl) p (Option.mem_toList.mp hp)
  · cases hp

/-- Under `A`, no chain of super types is longer than the walks allow. -/
theorem within_supers (h : s.Walkable A) (hid : id.index < s.types.size) (a : A) :
    Within s.supers s.height id :=
  ((h.supers a).within TypeId.index_injective (fun _ _ hp => h.supers_lt hp) hid).succ

/-- A search up the super types visits only types that the first one leads to. -/
theorem climb {α : Type} {R : α → Prop} {visit : TypeId → Except Fault (Option α)}
    (h : s.Walkable A)
    (hvisit : ∀ u : TypeId, u.index < s.types.size → Reaches s.supers id u →
      Answers A (visit u) fun r => ∀ a ∈ r, R a) {n : Nat} {start : Option TypeId}
    (hstart : ∀ u ∈ start, u.index < s.types.size ∧ Reaches s.supers id u)
    (hfuel : ∀ u ∈ start, A → Within s.supers n u) :
    Answers A (s.climb visit n start) fun r => ∀ a ∈ r, R a := by
  induction n generalizing start with
  | zero =>
      cases start with
      | none => exact .pure fun _ hmem => by cases hmem
      | some u => exact .endless fun a => hfuel u rfl a
  | succ n ih =>
      cases start with
      | none => exact .pure fun _ hmem => by cases hmem
      | some u =>
          obtain ⟨hu, hreach⟩ := hstart u rfl
          refine .bind (hvisit u hu hreach) fun r hr => ?_
          cases r with
          | some a => exact .pure hr
          | none =>
              refine .bind (h.type hu) fun decl ⟨hdecl, hmem⟩ => ?_
              refine ih (fun p hp => ?_) fun p hp a => ?_
              · exact ⟨h.superType decl hmem p hp, hreach.tail (mem_supers hdecl hp)⟩
              · exact hfuel u rfl a p (mem_supers hdecl hp)

/-- A search up the super types from a type. -/
theorem climb_self {α : Type} {R : α → Prop} {visit : TypeId → Except Fault (Option α)}
    (h : s.Walkable A) (hid : id.index < s.types.size)
    (hvisit : ∀ u : TypeId, u.index < s.types.size → Reaches s.supers id u →
      Answers A (visit u) fun r => ∀ a ∈ r, R a) :
    Answers A (s.climb visit s.height (some id)) fun r => ∀ a ∈ r, R a := by
  refine h.climb hvisit (fun u hu => ?_) fun u hu a => ?_
  · cases hu
    exact ⟨hid, .refl⟩
  · cases hu
    exact h.within_supers hid a

theorem lineageFrom (h : s.Walkable A) (hid : id.index < s.types.size) {n : Nat}
    (hfuel : A → Within s.supers n id) :
    Answers A (s.lineageFrom n id) fun ts => ∀ t ∈ ts, t ∈ s.types.toList := by
  induction n generalizing id with
  | zero => exact .endless hfuel
  | succ n ih =>
      refine .bind (h.type hid) fun decl ⟨hdecl, hmem⟩ => ?_
      split
      · exact .pure (by simpa using hmem)
      · rename_i p hp
        refine .bind (ih (h.superType decl hmem p hp) fun a => ?_) fun ts hts => .pure ?_
        · exact hfuel a p (mem_supers hdecl hp)
        · exact List.forall_mem_cons.mpr ⟨hmem, hts⟩

theorem allFields (h : s.Walkable A) (hid : id.index < s.types.size) :
    Answers A (s.allFields id) fun fs => ∀ f ∈ fs, f.index < s.fields.size := by
  refine .bind (h.lineageFrom hid (h.within_supers hid)) fun ts hts => .pure fun f hf => ?_
  obtain ⟨decl, hdecl, hf⟩ := List.mem_flatMap.mp hf
  exact h.fields decl (hts decl (List.mem_reverse.mp hdecl)) f hf

theorem isChildOf (h : s.Walkable A) (hid : id.index < s.types.size) (base : TypeId) :
    Ends A (s.isChildOf id base) := by
  refine .bind (h.climb_self (R := fun _ => True) hid fun u _ _ => ?_) fun _ _ => .pure trivial
  exact .pure fun _ _ => trivial

theorem hasTypeFlag (h : s.Walkable A) (hid : id.index < s.types.size) (flags : List TypeFlag) :
    Ends A (s.hasTypeFlag id flags) := by
  refine .bind (h.climb_self (R := fun _ => True) hid fun u hu _ => ?_) fun _ _ => .pure trivial
  exact .bind (h.type hu) fun _ _ => .pure fun _ _ => trivial

/-! ### Defaults -/

theorem parts_lt (h : s.Walkable A) {p : TypeId} (hp : p ∈ s.parts id) :
    p.index < s.types.size := by
  unfold Schema.parts at hp
  split at hp
  · obtain ⟨f, -, hp⟩ := List.mem_filterMap.mp hp
    cases hf : s.field f with
    | error e =>
        rw [hf] at hp
        cases hp
    | ok decl =>
        rw [hf] at hp
        exact h.held decl (mem_fields hf) p hp
  · cases hp

/-- Under `A`, structs held by value are nested no deeper than the defaults allow. -/
theorem within_parts (h : s.Walkable A) (hid : id.index < s.types.size) (a : A) :
    Within s.parts s.height id :=
  ((h.parts a).within TypeId.index_injective (fun _ _ hp => h.parts_lt hp) hid).succ

theorem mem_parts {fields : List FieldId} (hfields : s.allFields id = .ok fields)
    {f : FieldId} (hf : f ∈ fields) {decl : FieldDecl} (hdecl : s.field f = .ok decl)
    {p : TypeId} (hp : p ∈ decl.type.heldStruct?) : p ∈ s.parts id := by
  simp only [Schema.parts, hfields]
  refine List.mem_filterMap.mpr ⟨f, hf, ?_⟩
  rw [hdecl]
  exact hp

section

variable {Q : Value → Prop}

/-- The default of a struct, if the defaults of what it holds are known. -/
theorem structDefaultWith (h : s.Walkable A) (hQ : s.DefaultsHave Q)
    (hid : id.index < s.types.size) {defaultOf : ValueType → Except Fault Value}
    (hdefault : ∀ t : ValueType, (∀ p ∈ t.heldStruct?, p.index < s.types.size ∧ p ∈ s.parts id) →
      Answers A (defaultOf t) Q) :
    Answers A (s.structDefaultWith defaultOf id) fun v => Q v.toValue := by
  refine .bind (h.type hid) fun decl ⟨_, hmem⟩ => ?_
  split
  · rename_i defaults hdefaults
    exact .pure (hQ.declared decl hmem defaults hdefaults)
  · refine .bind (h.allFields hid).and_eq fun fields ⟨hfields, hlt⟩ => ?_
    have hmembers : Answers A (fields.mapM fun f => do defaultOf (← s.field f).type)
        fun vs => ∀ v ∈ vs, Q v :=
      .mapM fun f hf => .bind (h.field (hlt f hf)) fun decl ⟨hdecl, hmem⟩ =>
        hdefault decl.type fun p hp => ⟨h.held decl hmem p hp, mem_parts hfields hf hdecl hp⟩
    exact .bind hmembers fun vs hvs => .pure (hQ.struct id vs hid hvs)

/-- The default of a type.  There is room for one more struct than are nested in each other. -/
theorem defaultValueFrom (h : s.Walkable A) (hQ : s.DefaultsHave Q)
    (ht : ∀ p ∈ t.heldStruct?, p.index < s.types.size) {n : Nat}
    (hfuel : A → ∃ m, n = m + 1 ∧ ∀ p ∈ t.heldStruct?, Within s.parts m p) :
    Answers A (s.defaultValueFrom n t) Q := by
  induction n generalizing t with
  | zero => exact .endless fun a => by obtain ⟨m, hm, -⟩ := hfuel a; cases hm
  | succ n ih =>
      unfold Schema.defaultValueFrom
      split
      · exact .pure (hQ.plain _ fun _ => rfl)
      · rename_i harray
        cases hcategory : t.category with
        | struct =>
            dsimp only
            split
            · rename_i id hid
              have hheld : id ∈ t.heldStruct? := by
                simp [ValueType.heldStruct?, ValueType.isValueType, hcategory, harray, hid]
              refine .bind (h.structDefaultWith hQ (ht id hheld) fun u hu => ?_)
                fun v hv => .pure hv
              -- The members of the struct hold its parts, one step further down.
              refine ih (fun p hp => (hu p hp).1) fun a => ?_
              obtain ⟨m, hm, hwithin⟩ := hfuel a
              cases hm
              have hid := hwithin id hheld
              cases n with
              | zero => exact hid.elim
              | succ n => exact ⟨n, rfl, fun p hp => hid p (hu p hp).2⟩
            · exact .pure (hQ.plain _ fun _ => rfl)
        | _ => exact .pure (hQ.plain _ fun _ => rfl)

theorem defaultValue (h : s.Walkable A) (hQ : s.DefaultsHave Q)
    (ht : ∀ p ∈ t.heldStruct?, p.index < s.types.size) : Answers A (s.defaultValue t) Q :=
  h.defaultValueFrom hQ ht fun a => ⟨s.height, rfl, fun p hp => h.within_parts (ht p hp) a⟩

theorem structDefault (h : s.Walkable A) (hQ : s.DefaultsHave Q) (hid : id.index < s.types.size) :
    Answers A (s.structDefault id) fun v => Q v.toValue :=
  h.structDefaultWith hQ hid fun _ hu => h.defaultValue hQ fun p hp => (hu p hp).1

end

/-! ### Spelling -/

theorem cppName (h : s.Walkable A) (hid : id.index < s.types.size) : Ends A (s.cppName id) := by
  refine .bind (h.type hid) fun decl _ => ?_
  split
  · exact .pure trivial
  · exact .pure trivial
  · exact .pure trivial
  · exact .bind (h.hasTypeFlag hid _) fun _ _ => .pure trivial

theorem typeName (h : s.Walkable A) (hid : id.index < s.types.size) : Ends A (s.typeName id) :=
  .bind (h.type hid) fun _ _ => .pure trivial

theorem interfaceCppName (h : s.Walkable A) (hid : id.index < s.types.size) :
    Ends A (s.interfaceCppName id) :=
  .bind (h.typeName hid) fun _ _ => .pure trivial

theorem cppNameOr (h : s.Walkable A) (fallback : String) {o : Option TypeId}
    (ho : ∀ id ∈ o, id.index < s.types.size) : Ends A (s.cppNameOr fallback o) := by
  cases o with
  | none => exact .pure trivial
  | some id => exact h.cppName (ho id rfl)

theorem functionName (_ : s.Walkable A) {f : FunctionId} (hf : f.index < s.functions.size) :
    Ends A (s.functionName f) :=
  .bind (.lookup (fun _ => function_eq_ok_iff) hf fun _ hdecl => hdecl) fun _ _ => .pure trivial

theorem delegateTypeName (h : s.Walkable A) (ht : t.InRange (.of s objects)) :
    Ends A (s.delegateTypeName t) := by
  unfold Schema.delegateTypeName
  split
  · rename_i f hf
    exact .bind (h.functionName (ht.signature f hf)) fun _ _ => .pure trivial
  · exact .pure trivial

theorem cppElementType (h : s.Walkable A) (ht : t.InRange (.of s objects)) :
    Ends A (s.cppElementType t) := by
  have hname : ∀ fallback, Ends A (s.cppNameOr fallback t.subType) := fun fallback =>
    h.cppNameOr fallback ht.subType
  unfold Schema.cppElementType
  cases t.category with
  | byte =>
      dsimp only
      split
      · rename_i id hid
        refine .bind (h.type (ht.subType id hid)) fun decl _ => ?_
        split
        · exact h.cppName (ht.subType id hid)
        · exact .pure trivial
      · exact .pure trivial
  | interface =>
      dsimp only
      split
      · rename_i id hid
        exact .bind (h.interfaceCppName (ht.subType id hid)) fun _ _ => .pure trivial
      · exact .pure trivial
  | struct => exact hname _
  | object => exact .bind (hname _) fun _ _ => .pure trivial
  | classRef => exact .bind (hname _) fun _ _ => .pure trivial
  | softObject => exact .bind (hname _) fun _ _ => .pure trivial
  | softClass => exact .bind (hname _) fun _ _ => .pure trivial
  | delegate => exact h.delegateTypeName ht
  | multicastDelegate => exact h.delegateTypeName ht
  | _ => exact .pure trivial

theorem cppType (h : s.Walkable A) (ht : t.InRange (.of s objects)) : Ends A (s.cppType t) :=
  .bind (h.cppElementType ht) fun _ _ => .pure trivial

end Walkable
end Schema
end GraphLowering
