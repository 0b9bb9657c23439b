import GraphLowering.Proofs.Totality.Walks

/-!
# Totality — the schema

The questions about the types, fields and functions of a package all have an answer.

* `Grounded.allFields`: walks over super types.
* `Grounded.structDefault`, `Grounded.fieldDefault`: defaults, through the structs held by value.
* `Grounded.cppType`, `Sound.signature`: how types and functions are spelled.
* `Sound.findFunction`, `Sound.baseFunction`: walks over super types and interfaces.  The base of a
  function is found because each step leads to a function of a type further up.
-/

namespace GraphLowering

namespace Grounded

variable {A : Prop} {cx : Context} {id : TypeId} {t : ValueType}

theorem walkable (h : Grounded A cx) : cx.schema.Walkable A where
  superType decl hdecl := (h.schema.types decl hdecl).superType
  fields decl hdecl := (h.schema.types decl hdecl).fields
  held decl hdecl _ hp := (h.schema.fields decl hdecl).type.heldStruct hp
  supers := h.supers
  parts := h.parts

/-! ### Super types -/

/-- A search up the super types from a type. -/
theorem climb_self {α : Type} {R : α → Prop} {visit : TypeId → Except Fault (Option α)}
    (h : Grounded A cx) (hid : id.InRange cx.extent)
    (hvisit : ∀ u, u.InRange cx.extent → Reaches cx.schema.supers id u →
      Answers A (visit u) fun r => ∀ a ∈ r, R a) :
    Answers A (cx.schema.climb visit cx.schema.height (some id)) fun r => ∀ a ∈ r, R a :=
  h.walkable.climb_self hid hvisit

theorem ownFields (h : Grounded A cx) (hid : id.InRange cx.extent) :
    Answers A (cx.schema.ownFields id) fun fs => ∀ f ∈ fs, f.InRange cx.extent :=
  .bind (h.type hid) fun _ ⟨_, hrange⟩ => .pure hrange.fields

theorem allFields (h : Grounded A cx) (hid : id.InRange cx.extent) :
    Answers A (cx.schema.allFields id) fun fs => ∀ f ∈ fs, f.InRange cx.extent :=
  h.walkable.allFields hid

theorem isStrictChildOf (h : Grounded A cx) (hid : id.InRange cx.extent) (base : TypeId) :
    Ends A (cx.schema.isStrictChildOf id base) := by
  unfold Schema.isStrictChildOf
  split
  · exact .pure trivial
  · exact h.walkable.isChildOf hid base

/-! ### Parameters -/

theorem returnFields (h : Grounded A cx) {f : FunctionId} (hf : f.InRange cx.extent) :
    Answers A (cx.schema.returnFields f) fun ps => ∀ p ∈ ps, p.InRange cx.extent := by
  refine .bind (h.function hf) fun decl ⟨_, hrange⟩ => ?_
  have hfilter : Answers A (decl.params.filterM fun p => return (← cx.schema.field p).isReturn)
      fun ps => ∀ p ∈ ps, p ∈ decl.params :=
    .filterM fun p hp => .bind (h.field (hrange.params p hp)) fun _ _ => .pure trivial
  exact hfilter.imp fun ps hps p hp => hrange.params p (hps p hp)

theorem returnField (h : Grounded A cx) {f : FunctionId} (hf : f.InRange cx.extent) :
    Answers A (cx.schema.returnField f) fun r => ∀ p ∈ r, p.InRange cx.extent :=
  .bind (h.returnFields hf) fun _ hps => .pure fun p hp => hps p (List.mem_of_mem_head? hp)

theorem inputFields (h : Grounded A cx) {f : FunctionId} (hf : f.InRange cx.extent) :
    Answers A (cx.schema.inputFields f) fun ps => ∀ p ∈ ps, p.InRange cx.extent := by
  refine .bind (h.function hf) fun decl ⟨_, hrange⟩ => ?_
  refine .bind (.mapM fun p hp => (h.field (hrange.params p hp)).imp fun _ hp => hp.2)
    fun ps hps => .pure fun p hp => hps p (List.mem_filter.mp hp).1

/-! ### Defaults -/

theorem defaultsHave (h : Grounded A cx) :
    cx.schema.DefaultsHave fun v => v.inRange cx.extent = true where
  declared decl hdecl := (h.schema.types decl hdecl).structDefaults
  plain _ hv := hv _
  struct _ _ hid hmembers := Value.inRange_struct.mpr ⟨hid, hmembers⟩

theorem defaultValue (h : Grounded A cx) (ht : t.InRange cx.extent) :
    Answers A (cx.schema.defaultValue t) fun v => v.inRange cx.extent = true :=
  h.walkable.defaultValue h.defaultsHave fun _ => ht.heldStruct

theorem structDefault (h : Grounded A cx) (hid : id.InRange cx.extent) :
    Answers A (cx.schema.structDefault id) fun v => v.toValue.inRange cx.extent = true :=
  h.walkable.structDefault h.defaultsHave hid

theorem fieldDefault (h : Grounded A cx) {f : FieldId} (hf : f.InRange cx.extent) :
    Answers A (cx.schema.fieldDefault f) fun v => v.inRange cx.extent = true := by
  refine .bind (h.field hf) fun decl ⟨_, hrange⟩ => ?_
  refine .bind (h.defaultValue hrange.type) fun v hv => .pure ?_
  split
  · refine Value.inRange_array.mpr fun x hx => ?_
    rw [List.eq_of_mem_replicate hx]
    exact hv
  · exact hv

/-! ### Spelling -/

theorem cppName (h : Grounded A cx) (hid : id.InRange cx.extent) : Ends A (cx.schema.cppName id) :=
  h.walkable.cppName hid

theorem typeName (h : Grounded A cx) (hid : id.InRange cx.extent) :
    Ends A (cx.schema.typeName id) :=
  h.walkable.typeName hid

theorem interfaceCppName (h : Grounded A cx) (hid : id.InRange cx.extent) :
    Ends A (cx.schema.interfaceCppName id) :=
  h.walkable.interfaceCppName hid

theorem cppNameOr (h : Grounded A cx) (fallback : String) {o : Option TypeId}
    (ho : ∀ id ∈ o, id.InRange cx.extent) : Ends A (cx.schema.cppNameOr fallback o) :=
  h.walkable.cppNameOr fallback ho

theorem functionName (h : Grounded A cx) {f : FunctionId} (hf : f.InRange cx.extent) :
    Ends A (cx.schema.functionName f) :=
  h.walkable.functionName hf

theorem cppType (h : Grounded A cx) (ht : t.InRange cx.extent) : Ends A (cx.schema.cppType t) :=
  h.walkable.cppType ht

theorem parameterText (h : Grounded A cx) {p : FieldDecl} (hp : p.InRange cx.extent) :
    Ends A (cx.schema.parameterText p) :=
  .bind (h.cppType hp.type) fun _ _ => .pure trivial

theorem returnTypeText (h : Grounded A cx) {f : FunctionId} (hf : f.InRange cx.extent) :
    Ends A (cx.schema.returnTypeText f) := by
  refine .bind (h.returnField hf) fun r hr => ?_
  split
  · rename_i ret
    exact .bind (h.field (hr ret rfl)) fun _ ⟨_, hrange⟩ => h.cppType hrange.type
  · exact .pure trivial

/-! ### Declarations -/

theorem propertyLine (h : Grounded A cx) {f : FieldId} (hf : f.InRange cx.extent) :
    Ends A (cx.schema.propertyLine f) :=
  .bind (h.field hf) fun _ _ => .pure trivial

theorem fieldLine (h : Grounded A cx) {f : FieldId} (hf : f.InRange cx.extent) :
    Ends A (cx.schema.fieldLine f) :=
  .bind (h.field hf) fun _ ⟨_, hrange⟩ => .bind (h.cppType hrange.type) fun _ _ => .pure trivial

theorem functionLine (h : Grounded A cx) {f : FunctionId} (hf : f.InRange cx.extent) :
    Ends A (cx.schema.functionLine f) :=
  .bind (h.function hf) fun _ ⟨_, hrange⟩ => .bind (h.type hrange.owner) fun _ _ => .pure trivial

theorem delegateParam (h : Grounded A cx) {p : FieldDecl} (hp : p.InRange cx.extent) :
    Ends A (cx.schema.delegateParam p) :=
  .bind (h.cppType hp.type) fun _ _ => .pure trivial

theorem delegateDeclaration? (h : Grounded A cx) {f : FieldId} (hf : f.InRange cx.extent) :
    Ends A (cx.schema.delegateDeclaration? f) := by
  refine .bind (h.field hf) fun decl ⟨_, hrange⟩ => ?_
  dsimp only
  split
  · rename_i signature _ hsignature _
    refine .bind (h.inputFields (hrange.type.signature signature hsignature)) fun ps hps => ?_
    exact .bind (.mapM fun p hp => h.delegateParam (hps p hp)) fun _ _ =>
      .bind (h.walkable.delegateTypeName hrange.type) fun _ _ => .pure trivial
  · exact .pure trivial

theorem delegateDeclarations (h : Grounded A cx) (hid : id.InRange cx.extent) :
    Ends A (cx.schema.delegateDeclarations id) :=
  .bind (h.ownFields hid) fun _ hfs =>
    .bind (.mapM fun f hf => h.delegateDeclaration? (hfs f hf)) fun _ _ => .pure trivial

theorem replicatedFields (h : Grounded A cx) (hid : id.InRange cx.extent) :
    Ends A (cx.schema.replicatedFields id) :=
  .bind (h.ownFields hid) fun _ hfs =>
    .bind (.mapM fun f hf => (h.field (hfs f hf)).ends) fun _ _ => .pure trivial

theorem replicationDeclaration? (h : Grounded A cx) (hid : id.InRange cx.extent) :
    Ends A (cx.schema.replicationDeclaration? id) := by
  refine .bind (h.replicatedFields hid) fun _ _ => ?_
  split
  · exact .pure trivial
  · exact .pure trivial

theorem replicationCode? (h : Grounded A cx) (hid : id.InRange cx.extent) :
    Ends A (cx.schema.replicationCode? id) := by
  refine .bind (h.replicatedFields hid) fun _ _ => ?_
  split
  · exact .pure trivial
  · exact .bind (h.cppName hid) fun _ _ => .pure trivial

end Grounded

/-- The function is listed by the type, or by one that the type leads to. -/
def Schema.Lists (s : Schema) (id : TypeId) (f : FunctionId) : Prop :=
  ∃ u decl, Reaches s.parents id u ∧ s.type u = .ok decl ∧ f ∈ decl.functions

namespace Schema.Lists

variable {s : Schema} {id u : TypeId} {f : FunctionId}

theorem of_reaches (h : s.Lists u f) (hreach : Reaches s.parents id u) : s.Lists id f := by
  obtain ⟨v, decl, hv, hdecl, hf⟩ := h
  exact ⟨v, decl, hreach.trans hv, hdecl, hf⟩

theorem of_parent (h : s.Lists u f) (hparent : u ∈ s.parents id) : s.Lists id f :=
  h.of_reaches (.single hparent)

end Schema.Lists

theorem Schema.reaches_parents {s : Schema} {id u : TypeId} (h : Reaches s.supers id u) :
    Reaches s.parents id u :=
  Relation.ReflTransGen.mono (fun id _ hp => s.supers_subset_parents id hp) id u h

namespace Sound

variable {A : Prop} {cx : Context} {id : TypeId} {t : ValueType}

/-! ### Parents -/

theorem mem_parents_of_superType {decl : TypeDecl} (h : cx.schema.type id = .ok decl) {p : TypeId}
    (hp : p ∈ decl.superType) : p ∈ cx.schema.parents id := by
  simp only [Schema.parents, h, List.mem_append]
  exact .inl (Option.mem_toList.mpr hp)

theorem mem_parents_of_interface {decl : TypeDecl} (h : cx.schema.type id = .ok decl) {p : TypeId}
    (hp : p ∈ decl.interfaces) : p ∈ cx.schema.parents id := by
  simp only [Schema.parents, h, List.mem_append]
  exact .inr hp

/-- Under `A`, no chain of super types and interfaces is longer than the walks allow. -/
theorem within_parents (h : Sound A cx) (hid : id.InRange cx.extent) (a : A) :
    Within cx.schema.parents cx.schema.height id :=
  ((h.parents a).within TypeId.index_injective (fun _ _ hp => h.schema.parents hp) hid).succ

/-! ### Functions -/

theorem findAmong (h : Sound A cx) {functions : List FunctionId}
    (hfunctions : ∀ f ∈ functions, f.InRange cx.extent) (name : String) :
    Answers A (cx.schema.findAmong functions name) fun r => ∀ f ∈ r, f ∈ functions :=
  .findM? fun f hf => .bind (h.function (hfunctions f hf)) fun _ _ => .pure trivial

/-- The nearest function of a name is listed by the type, or by one that it leads to. -/
theorem findFunctionFrom (h : Sound A cx) (hid : id.InRange cx.extent) (name : String) {n : Nat}
    (hfuel : A → Within cx.schema.parents n id) :
    Answers A (cx.schema.findFunctionFrom name n id) fun r => ∀ f ∈ r, cx.schema.Lists id f := by
  induction n generalizing id with
  | zero => exact .endless hfuel
  | succ n ih =>
      refine .bind (h.type hid) fun decl ⟨hdecl, hrange⟩ => ?_
      refine .bind (h.findAmong hrange.functions name) fun r hr => ?_
      cases r with
      | some f => exact .pure fun g hg => ⟨id, decl, .refl, hdecl, hr g hg⟩
      | none =>
          have hinterfaces : Answers A
              (decl.interfaces.findSomeM? (cx.schema.findFunctionFrom name n)) fun r =>
                ∀ f ∈ r, cx.schema.Lists id f := by
            refine .findSomeM? fun i hi => ?_
            have hparent := mem_parents_of_interface hdecl hi
            exact (ih (hrange.interfaces i hi) fun a => hfuel a i hparent).imp fun r hr f hf =>
              (hr f hf).of_parent hparent
          refine .bind hinterfaces fun r hr => ?_
          cases r with
          | some f => exact .pure hr
          | none =>
              dsimp only
              split
              · rename_i p hp
                have hparent := mem_parents_of_superType hdecl hp
                exact (ih (hrange.superType p hp) fun a => hfuel a p hparent).imp fun r hr f hf =>
                  (hr f hf).of_parent hparent
              · exact .pure fun _ hmem => by cases hmem

theorem findFunction (h : Sound A cx) (hid : id.InRange cx.extent) (name : String) :
    Answers A (cx.schema.findFunction id name) fun r => ∀ f ∈ r, cx.schema.Lists id f :=
  h.findFunctionFrom hid name (h.within_parents hid)

theorem lists_inRange (h : Sound A cx) {f : FunctionId} (hf : cx.schema.Lists id f) :
    f.InRange cx.extent := by
  obtain ⟨u, decl, -, hdecl, hf⟩ := hf
  exact (h.schema.types decl (Schema.mem_types hdecl)).functions f hf

/-- The base of a function.  Under `A` a function belongs to the type that lists it, so the owner of
the next one is further up. -/
theorem baseFunctionFrom (h : Sound A cx) {f : FunctionId} (hf : f.InRange cx.extent) {n : Nat}
    (hfuel : A → ∀ decl, cx.schema.function f = .ok decl →
      Within cx.schema.parents n decl.owner) :
    Answers A (cx.schema.baseFunctionFrom n f) fun f => f.InRange cx.extent := by
  induction n generalizing f with
  | zero =>
      refine .endless fun a => ?_
      obtain ⟨decl, hdecl, -⟩ := (h.function hf).exists_ok a
      exact hfuel a decl hdecl
  | succ n ih =>
      refine .bind (h.function hf) fun decl ⟨hdecl, hrange⟩ => ?_
      refine .bind (h.type hrange.owner) fun owner ⟨howner, hownerRange⟩ => ?_
      have hinterfaces : Answers A
          (owner.interfaces.findSomeM? (cx.schema.findFunction · decl.name)) fun r =>
            ∀ f ∈ r, f.InRange cx.extent :=
        .findSomeM? fun i hi => (h.findFunction (hownerRange.interfaces i hi) decl.name).imp
          fun r hr f hf => h.lists_inRange (hr f hf)
      refine .bind hinterfaces fun r hr => ?_
      cases r with
      | some found => exact .pure (hr found rfl)
      | none =>
          dsimp only
          cases hp : owner.superType with
          | none => exact .pure hf
          | some p =>
              have hparent := mem_parents_of_superType howner hp
              have hclimb := h.climb_self (hownerRange.superType p hp) fun u hu hreach =>
                (h.findFunction hu decl.name).imp fun r hr f hf =>
                  (hr f hf).of_reaches (Schema.reaches_parents hreach)
              refine .bind hclimb fun r hr => ?_
              cases r with
              | none => exact .pure hf
              | some found =>
                  refine ih (h.lists_inRange (hr found rfl)) fun a foundDecl hfound => ?_
                  -- What is found is owned by a type above the owner, so the chain gets shorter.
                  obtain ⟨u, uDecl, hreach, hu, hmem⟩ := hr found rfl
                  rw [(h.functionsOwned a).owner_eq hu hmem hfound]
                  exact (hfuel a decl hdecl p hparent).reaches hreach

theorem baseFunction (h : Sound A cx) {f : FunctionId} (hf : f.InRange cx.extent) :
    Answers A (cx.schema.baseFunction f) fun f => f.InRange cx.extent := by
  refine h.baseFunctionFrom hf fun a decl hdecl => h.within_parents ?_ a
  exact (h.schema.functions decl (Schema.mem_functions hdecl)).owner

/-! ### Signatures -/

theorem isNativeEvent (h : Sound A cx) {f : FunctionId} (hf : f.InRange cx.extent) :
    Ends A (cx.schema.isNativeEvent f) :=
  .bind (h.baseFunction hf) fun _ hbase => .bind (h.function hbase) fun _ ⟨_, hrange⟩ =>
    .bind (h.type hrange.owner) fun _ _ => .pure trivial

theorem emittedName (h : Sound A cx) {f : FunctionId} (hf : f.InRange cx.extent) :
    Ends A (cx.schema.emittedName f) :=
  .bind (h.functionName hf) fun _ _ => .bind (h.baseFunction hf) fun _ _ =>
    .bind (h.isNativeEvent hf) fun _ _ => .pure trivial

theorem signature (h : Sound A cx) {f : FunctionId} (hf : f.InRange cx.extent)
    (owner : Option String) : Ends A (cx.schema.signature f owner) :=
  .bind (h.returnTypeText hf) fun _ _ => .bind (h.inputFields hf) fun _ hps =>
    .bind (.mapM fun p hp => h.parameterText (hps p hp)) fun _ _ =>
      .bind (h.emittedName hf) fun _ _ => .pure trivial

end Sound

end GraphLowering
