import GraphLowering.Proofs.Schema.Growth
import GraphLowering.Proofs.Totality.Walks
import GraphLowering.Proofs.Values

/-!
# Literals — defaults

The types whose default has no literal: delegates, structs that name no struct, and enums without
entries (`LacksLiteral`).  Every other default has one.  That of a struct is identical to itself,
whatever it is nested from, and the engine's structs start with members of the right form.

* `run_of_lacksLiteral`, `written_default`: the two sides, in a schema grown from the engine's
  types.
* `defaultText_of_run`: the text of a default, from what rendering gives.
-/

namespace GraphLowering.Literal

variable {cx : Context} {t : ValueType} {v : Value}

/-- The type names an enum that has no entries. -/
def OfEmptyEnum (s : Schema) (t : ValueType) : Prop :=
  ∃ id decl, t.subType = some id ∧ s.type id = .ok decl ∧ decl.kind = .enumType ∧
    decl.enumEntries = []

/-- A single value of the type, other than the object itself, has a default without a literal. -/
def LacksLiteral (s : Schema) (t : ValueType) : Prop :=
  t.isSelf = false ∧ t.isArray = false ∧
    (t.category = .delegate ∨ t.category = .multicastDelegate ∨
      t.category = .struct ∧ t.subType = none ∨ t.category = .byte ∧ OfEmptyEnum s t)

/-! ### Rendering that succeeds -/

/-- Rendering gives a text. -/
def Written (x : Render String) : Prop := ∃ text, x.run = .ok (.ok text)

namespace Written

theorem pure (text : String) : Written (Pure.pure text) := ⟨text, rfl⟩

theorem lookUp {α : Type} {e : Except Fault α} {a : α} {f : α → Render String} (he : e = .ok a)
    (hf : Written (f a)) : Written (liftM e >>= f) := by
  subst he
  exact hf

theorem liftBind {α : Type} {e : Except Fault α} {Q : α → Prop} {f : α → Render String}
    (he : Answers True e Q) (hf : ∀ a, e = .ok a → Written (f a)) : Written (liftM e >>= f) := by
  obtain ⟨a, ha, -⟩ := he.exists_ok trivial
  exact .lookUp ha (hf a ha)

end Written

/-! ### Defaults without a literal -/

theorem run_unrenderable {α : Type} {name : String} (hname : cx.schema.cppType t = .ok name) :
    (unrenderable cx t : Render α).run = .ok (.error (.unrenderableLiteral name)) := by
  unfold unrenderable
  rw [hname]
  rfl

theorem run_renderByte_of_emptyEnum {name : String} (h : OfEmptyEnum cx.schema t)
    (hname : cx.schema.cppType t = .ok name) (n : UInt8) :
    (renderByte cx t n).run = .ok (.error (.unrenderableLiteral name)) := by
  obtain ⟨id, decl, hsub, hdecl, hkind, hnone⟩ := h
  have hentry : cx.schema.enumEntryName id n.toNat = .ok none := by
    rw [Schema.enumEntryName, Lookup.bind_of_ok hdecl, hnone]
    rfl
  rw [← run_unrenderable (α := String) hname]
  unfold renderByte
  rw [hsub]
  dsimp only
  rw [hdecl, hentry]
  exact congrArg ExceptT.run (if_pos hkind)

/-- The problem that is found names the type. -/
theorem run_of_lacksLiteral {name : String} (h : LacksLiteral cx.schema t)
    (hv : cx.schema.defaultValue t = .ok v) (hname : cx.schema.cppType t = .ok name) :
    (render cx t v).run = .ok (.error (.unrenderableLiteral name)) := by
  obtain ⟨hself, harray, h⟩ := h
  have hrender : render cx t v = renderElement cx t v := by simp [render, hself, harray]
  rw [hrender]
  unfold renderElement
  unfold Schema.defaultValue Schema.defaultValueFrom at hv
  rw [harray] at hv
  rcases h with hc | hc | ⟨hc, hsub⟩ | ⟨hc, hempty⟩
  · rw [hc] at hv ⊢
    cases hv
    exact run_unrenderable hname
  · rw [hc] at hv ⊢
    cases hv
    exact run_unrenderable hname
  · rw [hc, hsub] at hv
    rw [hc]
    cases hv
    exact run_unrenderable hname
  · rw [hc] at hv ⊢
    cases hv
    exact run_renderByte_of_emptyEnum hempty hname 0

/-! ### Defaults with a literal -/

/-- The default of a struct is written by its members or as the default that it is. -/
theorem written_structDefault (hgrown : cx.schema.Grown) (hwalk : cx.schema.Walkable True)
    {id : TypeId} (hid : id.index < cx.schema.types.size) {value : StructValue}
    (hvalue : cx.schema.structDefault id = .ok value) : Written (renderStruct cx value) := by
  have htype : value.type = id := hgrown.regular.structDefault_type hvalue
  unfold renderStruct
  rw [htype]
  refine .liftBind (hwalk.type hid) fun decl hdecl => ?_
  split
  · rename_i kind hkind
    obtain ⟨text, htext⟩ := hgrown.regular.structDefault_wellKnown hdecl hkind hvalue
    rw [htext]
    exact .pure text
  · have hsame : value.identical value = true := Value.identical_self value.toValue
    refine .lookUp hvalue ?_
    rw [if_pos hsame]
    exact .liftBind (hwalk.cppName hid) fun _ _ => .pure _

/-- The first value of an enum with entries has a name. -/
theorem written_renderByte (hwalk : cx.schema.Walkable True) (ht : t.InRange cx.extent)
    (h : ¬ OfEmptyEnum cx.schema t) : Written (renderByte cx t 0) := by
  unfold renderByte
  split
  · exact .pure _
  · rename_i id hsub
    have hid : id.index < cx.schema.types.size := ht.subType id hsub
    refine .liftBind (hwalk.type hid) fun decl hdecl => ?_
    split
    · rename_i hkind
      cases hentries : decl.enumEntries with
      | nil => exact absurd ⟨id, decl, hsub, hdecl, hkind, hentries⟩ h
      | cons entry entries =>
          have hentry : cx.schema.enumEntryName id (0 : UInt8).toNat = .ok (some entry.name) := by
            rw [Schema.enumEntryName, Lookup.bind_of_ok hdecl, hentries]
            rfl
          exact .lookUp hentry (.liftBind (hwalk.cppName hid) fun _ _ => .pure _)
    · exact .pure _

/-- Every other default has a literal. -/
theorem written_default (hgrown : cx.schema.Grown) (hwalk : cx.schema.Walkable True)
    (ht : t.InRange cx.extent) (hv : cx.schema.defaultValue t = .ok v)
    (h : ¬ LacksLiteral cx.schema t) : Written (render cx t v) := by
  unfold render
  split
  · exact .pure _
  · rename_i hself
    split
    · rename_i harray
      unfold Schema.defaultValue Schema.defaultValueFrom at hv
      rw [harray] at hv
      cases hv
      exact .liftBind (hwalk.cppType ht) fun _ _ => .pure _
    · rename_i harray
      rw [Bool.not_eq_true] at hself harray
      -- What is left of `h` is that the category is none of the four.
      have hlacks : ¬ _ := fun hcase => h ⟨hself, harray, hcase⟩
      unfold renderElement
      cases hc : t.category with
      | struct =>
          cases hsub : t.subType with
          | none => exact absurd (.inr (.inr (.inl ⟨hc, hsub⟩))) hlacks
          | some id =>
              have hstruct : t.structType? = some id := by
                rw [ValueType.structType?, if_pos hc, hsub]
              obtain ⟨value, hvalue, rfl⟩ := Schema.defaultValue_eq_structDefault harray hstruct hv
              exact written_structDefault hgrown hwalk (ht.subType id hsub) hvalue
      | byte =>
          unfold Schema.defaultValue Schema.defaultValueFrom at hv
          rw [harray, hc] at hv
          cases hv
          exact written_renderByte hwalk ht fun hempty => hlacks (.inr (.inr (.inr ⟨hc, hempty⟩)))
      | delegate => exact absurd (.inl hc) hlacks
      | multicastDelegate => exact absurd (.inr (.inl hc)) hlacks
      | _ =>
          unfold Schema.defaultValue Schema.defaultValueFrom at hv
          rw [harray, hc] at hv
          cases hv
          exact .pure _

/-! ### The text of a default -/

/-- The text of a default is its literal, or the constructor of its type. -/
theorem defaultText_of_run {r : Except Problem String} (hv : cx.schema.defaultValue t = .ok v)
    (hr : (render cx t v).run = .ok r) :
    defaultText cx t = match r with
      | .ok text => .ok text
      | .error _ => do return (← cx.schema.cppType t) ++ "()" := by
  unfold defaultText
  split
  · rename_i hself
    unfold render at hr
    rw [if_pos hself] at hr
    cases hr
    rfl
  · rw [Lookup.bind_of_ok hv, Lookup.bind_of_ok hr]
    cases r <;> rfl

/-- **The defaults without a literal** are those of the types in `LacksLiteral`, in every schema
grown from the engine's types whose walks end. -/
theorem render_default_fails_iff (hgrown : cx.schema.Grown) (hwalk : cx.schema.Walkable True)
    (ht : t.InRange cx.extent) :
    ∃ v name, cx.schema.defaultValue t = .ok v ∧ cx.schema.cppType t = .ok name ∧
      ((∃ problem, (render cx t v).run = .ok (.error problem)) ↔ LacksLiteral cx.schema t) ∧
      (LacksLiteral cx.schema t → defaultText cx t = .ok (name ++ "()")) ∧
      (¬ LacksLiteral cx.schema t →
        ∃ text, (render cx t v).run = .ok (.ok text) ∧ defaultText cx t = .ok text) := by
  obtain ⟨v, hv, -⟩ := (hwalk.defaultValue .trivial fun _ => ht.heldStruct).exists_ok trivial
  obtain ⟨name, hname, -⟩ := (hwalk.cppType ht).exists_ok trivial
  refine ⟨v, name, hv, hname, ⟨?_, fun h => ?_⟩, fun h => ?_, fun h => ?_⟩
  · rintro ⟨problem, hproblem⟩
    by_contra h
    obtain ⟨text, htext⟩ := written_default hgrown hwalk ht hv h
    cases hproblem.symm.trans htext
  · exact ⟨_, run_of_lacksLiteral h hv hname⟩
  · rw [defaultText_of_run hv (run_of_lacksLiteral h hv hname)]
    exact Lookup.bind_of_ok hname _
  · obtain ⟨text, htext⟩ := written_default hgrown hwalk ht hv h
    exact ⟨text, htext, defaultText_of_run hv htext⟩

/-- On top of the engine's types: an enum without entries, a struct whose declared default is not a
number, and a struct that holds it. -/
def scales : Except Fault Schema := do
  let s ← Schema.addCore {}
  let (_, s) := s.addEnum "Unit" []
  let (weight, s) := s.addType
    { name := "Weight", package := s.package, kind := .structType, flags := .single .userDefined
      structDefaults := some ⟨⟨s.types.size⟩, [.float ⟨0x7FC00000⟩]⟩ }
  let (_, s) ← s.addField weight "Grams" .float
  let (scale, s) := s.addStruct "Scale"
  let (_, s) ← s.addField scale "Reading" (.struct weight)
  return s

def scalesSchema : Schema := scales.toOption.getD {}

theorem scales_eq : scales = .ok scalesSchema := by
  have hok : scales.isOk = true := by decide +kernel
  unfold scalesSchema
  cases h : scales with
  | error e => rw [h] at hok; cases hok
  | ok s => rfl

theorem grown_scalesSchema : scalesSchema.Grown := by
  obtain ⟨core, hcore, h⟩ := Lookup.of_bind_ok scales_eq
  obtain ⟨⟨grams, s₁⟩, hgrams, h⟩ := Lookup.of_bind_ok h
  obtain ⟨⟨reading, s₂⟩, hreading, h⟩ := Lookup.of_bind_ok h
  cases h
  have hs₁ : s₁.Grown := by
    refine .addField (.addType (.addType (.core hcore) ?_) ?_) Schema.type_added rfl hgrams
    · exact ⟨rfl, fun _ hv => by cases hv⟩
    · exact ⟨rfl, fun _ hv => by cases hv; rfl⟩
  refine .addField (.addType hs₁ ?_) Schema.type_added rfl hreading
  exact ⟨rfl, fun _ hv => by cases hv⟩

theorem walkable_scalesSchema : scalesSchema.Walkable True where
  superType := by decide +kernel
  fields := by decide +kernel
  held := by decide +kernel
  supers _ := Schema.acyclic_supers (n := 2) (by decide +kernel)
  parts _ := Schema.acyclic_parts (n := 3) (by decide +kernel)

/-- A struct around a number that is no number is written as its default; the enum without entries
is not. -/
theorem render_default_fails_iff_scales :
    let cx : Context := ⟨scalesSchema, {}, ⟨15⟩⟩
    let scale := ValueType.struct ⟨15⟩
    let unit : ValueType := { category := .byte, subType := some ⟨13⟩ }
    (cx.schema.Grown ∧ cx.schema.Walkable True ∧ scale.InRange cx.extent ∧
      unit.InRange cx.extent) ∧
    (∃ v text, cx.schema.defaultValue scale = .ok v ∧ (render cx scale v).run = .ok (.ok text) ∧
      defaultText cx scale = .ok text) ∧
    ∃ v problem, cx.schema.defaultValue unit = .ok v ∧
      (render cx unit v).run = .ok (.error problem) ∧ defaultText cx unit = .ok "Unit()" := by
  intro cx scale unit
  have hscale : scale.InRange cx.extent := by decide +kernel
  have hunit : unit.InRange cx.extent := by decide +kernel
  refine ⟨⟨grown_scalesSchema, walkable_scalesSchema, hscale, hunit⟩, ?_, ?_⟩
  · obtain ⟨v, -, hv, -, -, -, htext⟩ :=
      render_default_fails_iff grown_scalesSchema walkable_scalesSchema hscale
    have hwritten : ¬ LacksLiteral cx.schema scale := by
      simp [LacksLiteral, scale, ValueType.struct]
    obtain ⟨text, hrender, hdefault⟩ := htext hwritten
    exact ⟨v, text, hv, hrender, hdefault⟩
  · obtain ⟨v, name, hv, hname, hfails, hdefault, -⟩ :=
      render_default_fails_iff grown_scalesSchema walkable_scalesSchema hunit
    have hempty : OfEmptyEnum cx.schema unit := by
      have hfound := walkable_scalesSchema.type (hunit.subType _ rfl)
      obtain ⟨decl, hdecl, -⟩ := hfound.exists_ok trivial
      have hkind : ∀ d ∈ scalesSchema.types[13]?, d.kind = .enumType ∧ d.enumEntries = [] := by
        decide +kernel
      exact ⟨_, decl, rfl, hdecl, hkind decl (Schema.type_eq_ok_iff.mp hdecl)⟩
    have hlacks : LacksLiteral cx.schema unit := ⟨rfl, rfl, .inr (.inr (.inr ⟨rfl, hempty⟩))⟩
    obtain ⟨problem, hproblem⟩ := hfails.mpr hlacks
    have hspelled : cx.schema.cppType unit = .ok "Unit" := by decide +kernel
    cases hname.symm.trans hspelled
    exact ⟨v, problem, hv, hproblem, hdefault hlacks⟩

end GraphLowering.Literal
