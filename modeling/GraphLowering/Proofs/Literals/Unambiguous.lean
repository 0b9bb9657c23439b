import GraphLowering.Literal
import GraphLowering.Proofs.Lookup
import GraphLowering.Proofs.Text.Codes
import GraphLowering.Proofs.Values

/-!
# Literals — unambiguous ones

A literal that writes its value out gives the value back: no two values of one type share it.  The
types in question are `WrittenOut`.  The others have literals that name something (an object, an
entry of an enum, the default of a struct) or round (numbers of single precision).

* `separable_literal`: literals of a type that is no array, in front of a comma or a bracket.
* `render_eq_iff_identical`: whole literals, arrays included.
-/

namespace GraphLowering.Literal

open Text (Separable isStop)

variable {cx : Context} {t : ValueType}

/-- The literals of the type write out its values. -/
def WrittenOut (s : Schema) (t : ValueType) : Prop :=
  t.isSelf = false ∧
    match t.category with
    | .bool | .int | .string | .text => True
    | .byte => t.subType = none
    | .struct => ∃ id decl, t.subType = some id ∧ s.type id = .ok decl ∧
        (decl.wellKnown = some .guid ∨ decl.wellKnown = some .color)
    | _ => False

/-- The value, if it is a struct, is of the struct that the type names. -/
def OfStruct (t : ValueType) : Value → Prop
  | .struct type _ => t.subType = some type
  | _ => True

/-- So is each item of an array. -/
def CarriesStruct (t : ValueType) : Value → Prop
  | .array items => ∀ item ∈ items, OfStruct t item
  | v => OfStruct t v

theorem CarriesStruct.ofStruct {v : Value} (h : CarriesStruct t v) : OfStruct t v := by
  cases v with
  | array items => trivial
  | _ => exact h

/-- The characters are the literal of the value at a type that is no array. -/
def IsLiteral (cx : Context) (t : ValueType) (v : Value) (cs : List Char) : Prop :=
  OfStruct t v ∧ ∃ text, (renderElement cx t v).run = .ok (.ok text) ∧ cs = text.toList

/-! ### Rendering that succeeds -/

theorem run_unrenderable_ne {α : Type} {a : α} :
    (unrenderable cx t : Render α).run ≠ .ok (.ok a) := by
  intro h
  rw [unrenderable, ExceptT.run_bind] at h
  cases hname : cx.schema.cppType t with
  | error fault => rw [hname] at h; cases h
  | ok name => rw [hname] at h; cases h

theorem of_run_bind_ok {α β : Type} {x : Render α} {f : α → Render β} {b : β}
    (h : (x >>= f).run = .ok (.ok b)) : ∃ a, x.run = .ok (.ok a) ∧ (f a).run = .ok (.ok b) := by
  rw [ExceptT.run_bind] at h
  obtain ⟨r, hr, h⟩ := Lookup.of_bind_ok h
  cases r with
  | error problem => cases h
  | ok a => exact ⟨a, hr, h⟩

theorem of_run_lookUp_ok {α β : Type} {e : Except Fault α} {f : α → Render β} {b : β}
    (h : (liftM e >>= f).run = .ok (.ok b)) : ∃ a, e = .ok a ∧ (f a).run = .ok (.ok b) := by
  cases e with
  | error fault => cases h
  | ok a => exact ⟨a, rfl, h⟩

theorem of_run_mapM_ok {α β : Type} {f : α → Render β} {xs : List α} {ys : List β}
    (h : (xs.mapM f).run = .ok (.ok ys)) :
    List.Forall₂ (fun x y => (f x).run = .ok (.ok y)) xs ys := by
  induction xs generalizing ys with
  | nil => cases h; exact .nil
  | cons x xs ih =>
      rw [List.mapM_cons] at h
      obtain ⟨y, hy, h⟩ := of_run_bind_ok h
      obtain ⟨zs, hzs, h⟩ := of_run_bind_ok h
      cases h
      exact .cons hy (ih hzs)

theorem of_run_renderStruct_ok {id : TypeId} {decl : TypeDecl} {kind : WellKnown}
    {members : List Value} {text : String} (hid : cx.schema.type id = .ok decl)
    (hkind : decl.wellKnown = some kind)
    (h : (renderStruct cx ⟨id, members⟩).run = .ok (.ok text)) :
    wellKnownText? kind members = some text := by
  unfold renderStruct at h
  obtain ⟨found, hfound, h⟩ := of_run_lookUp_ok h
  cases hid.symm.trans hfound
  simp only [hkind] at h
  split at h
  · cases h
    assumption
  · exact absurd h run_unrenderable_ne

/-! ### The parts of a literal -/

theorem separable_truth : Separable fun (b : Bool) cs =>
    cs = (if b then "true" else "false").toList := by
  refine .of_plain ?_ ?_
  · rintro b _ rfl
    cases b <;> simp [isStop]
  · rintro a b _ rfl h
    cases a <;> cases b <;> simp_all

theorem separable_byte : Separable fun (n : UInt8) cs => cs = (toString n.toNat).toList := by
  rintro m n _ _ x y rfl rfl hx hy heq
  obtain ⟨hnat, hxy⟩ := Text.separable_decimal rfl rfl hx hy heq
  exact ⟨UInt8.toNat_inj.mp hnat, hxy⟩

theorem separable_int : Separable fun (n : Int32) cs => cs = (toString n.toInt).toList := by
  rintro m n _ _ x y rfl rfl hx hy heq
  obtain ⟨hint, hxy⟩ := Text.separable_signedDecimal rfl rfl hx hy heq
  exact ⟨Int32.toInt_inj.mp hint, hxy⟩

theorem separable_hexWord : Separable fun (n : Int32) cs => cs = (hexWord n).toList := by
  refine .of_plain ?_ ?_
  · rintro n _ rfl c hc
    have hc : c = '0' ∨ c = 'x' ∨ c ∈ Text.hexDigits 8 n.toUInt32.toNat := by
      simpa [hexWord] using hc
    rcases hc with rfl | rfl | hc
    · rfl
    · rfl
    · exact Text.isStop_of_mem_hexDigits hc
  · rintro m n _ rfl h
    have hdigits : Text.hexDigits 8 m.toUInt32.toNat = Text.hexDigits 8 n.toUInt32.toNat := by
      simpa [hexWord] using h
    have hword : m.toUInt32 = n.toUInt32 := UInt32.toNat_inj.mp
      (Text.hexDigits_inj (UInt32.toNat_lt _) (UInt32.toNat_lt _) hdigits)
    cases m
    cases n
    exact congrArg Int32.ofUInt32 hword

theorem separable_engineText : Separable fun s cs => cs = (engineText s).toList := by
  refine (Text.separable_quote.between "TEXT(".toList ')' rfl).of_code id ?_
  rintro s _ rfl
  exact ⟨s, rfl, _, rfl, by simp [engineText]⟩

theorem separable_textLiteral :
    Separable fun s cs => cs = ("FText::FromString(" ++ engineText s ++ ")").toList := by
  refine (separable_engineText.between "FText::FromString(".toList ')' rfl).of_code
    id ?_
  rintro s _ rfl
  exact ⟨s, rfl, _, rfl, by simp⟩

theorem of_color {members : List Value} {text : String}
    (h : wellKnownText? .color members = some text) :
    ∃ channels : List UInt8, members = channels.map .byte ∧ channels ≠ [] ∧
      text = "FColor" ++ "(" ++
        ",".intercalate (channels.map fun n => toString n.toNat) ++ ")" := by
  simp only [wellKnownText?] at h
  split at h
  · rename_i r g b a
    cases h
    exact ⟨[r, g, b, a], rfl, by simp, rfl⟩
  · cases h

theorem of_guid {members : List Value} {text : String}
    (h : wellKnownText? .guid members = some text) :
    ∃ words : List Int32, members = words.map .int ∧ words ≠ [] ∧
      text = "FGuid" ++ "(" ++ ", ".intercalate (words.map hexWord) ++ ")" := by
  simp only [wellKnownText?] at h
  split at h
  · rename_i a b c d
    cases h
    exact ⟨[a, b, c, d], rfl, by simp, rfl⟩
  · cases h

/-! ### Whole literals -/

theorem IsLiteral.of_struct {v : Value} {cs : List Char} {id : TypeId} {decl : TypeDecl}
    {kind : WellKnown} (hcategory : t.category = .struct) (hsub : t.subType = some id)
    (hid : cx.schema.type id = .ok decl) (hkind : decl.wellKnown = some kind)
    (h : IsLiteral cx t v cs) : ∃ members text, v = .struct id members ∧
      wellKnownText? kind members = some text ∧ cs = text.toList := by
  obtain ⟨hstruct, text, h, rfl⟩ := h
  simp only [renderElement, hcategory] at h
  cases v with
  | struct type members =>
      cases hsub.symm.trans hstruct
      exact ⟨members, text, rfl, of_run_renderStruct_ok hid hkind h, rfl⟩
  | _ => exact absurd h run_unrenderable_ne

/-- **Literals are told apart** in front of a comma or a bracket. -/
theorem separable_literal (ht : WrittenOut cx.schema t) : Separable (IsLiteral cx t) := by
  obtain ⟨-, ht⟩ := ht
  cases hcategory : t.category with
  | bool =>
      refine separable_truth.of_code .bool ?_
      rintro v _ ⟨-, text, h, rfl⟩
      simp only [renderElement, hcategory] at h
      cases v with
      | bool b => cases h; exact ⟨b, rfl, rfl⟩
      | _ => exact absurd h run_unrenderable_ne
  | int =>
      refine separable_int.of_code .int ?_
      rintro v _ ⟨-, text, h, rfl⟩
      simp only [renderElement, hcategory] at h
      cases v with
      | int n => cases h; exact ⟨n, rfl, rfl⟩
      | _ => exact absurd h run_unrenderable_ne
  | byte =>
      rw [hcategory] at ht
      refine separable_byte.of_code .byte ?_
      rintro v _ ⟨-, text, h, rfl⟩
      simp only [renderElement, hcategory] at h
      cases v with
      | byte n =>
          have hplain : renderByte cx t n = pure (toString n.toNat) := by
            unfold renderByte
            rw [ht]
          simp only [hplain] at h
          cases h
          exact ⟨n, rfl, rfl⟩
      | _ => exact absurd h run_unrenderable_ne
  | string =>
      refine separable_engineText.of_code .string ?_
      rintro v _ ⟨-, text, h, rfl⟩
      simp only [renderElement, hcategory] at h
      cases v with
      | string s => cases h; exact ⟨s, rfl, rfl⟩
      | _ => exact absurd h run_unrenderable_ne
  | text =>
      refine separable_textLiteral.of_code .text ?_
      rintro v _ ⟨-, text, h, rfl⟩
      simp only [renderElement, hcategory] at h
      cases v with
      | text s => cases h; exact ⟨s, rfl, rfl⟩
      | _ => exact absurd h run_unrenderable_ne
  | struct =>
      rw [hcategory] at ht
      obtain ⟨id, decl, hsub, hid, hkind⟩ := ht
      rcases hkind with hkind | hkind
      · refine (separable_hexWord.arguments "FGuid" ", " (by simp)).of_code
          (.struct id <| ·.map .int) ?_
        intro v cs h
        obtain ⟨_, text, rfl, htext, rfl⟩ := h.of_struct hcategory hsub hid hkind
        obtain ⟨words, rfl, hne, rfl⟩ := of_guid htext
        exact ⟨words, rfl, hne, rfl⟩
      · refine (separable_byte.arguments "FColor" "," (by simp)).of_code
          (.struct id <| ·.map .byte) ?_
        intro v cs h
        obtain ⟨_, text, rfl, htext, rfl⟩ := h.of_struct hcategory hsub hid hkind
        obtain ⟨channels, rfl, hne, rfl⟩ := of_color htext
        exact ⟨channels, rfl, hne, rfl⟩
  | _ => rw [hcategory] at ht; exact ht.elim

theorem of_run_render_array {v : Value} {a : String} (hself : t.isSelf = false)
    (harray : t.isArray = true) (h : (render cx t v).run = .ok (.ok a)) :
    ∃ name items, cx.schema.cppType t = .ok name ∧ v = .array items ∧
      (items = [] ∧ a = name ++ "()" ∨
        items ≠ [] ∧ ∃ texts, List.Forall₂
          (fun item text => (renderElement cx t.element item).run = .ok (.ok text)) items texts ∧
          a = name ++ "\x7b" ++ ", ".intercalate texts ++ "\x7d") := by
  simp only [render, hself, harray, if_true, Bool.false_eq_true, if_false] at h
  split at h
  · obtain ⟨name, hname, h⟩ := of_run_lookUp_ok h
    cases h
    exact ⟨name, [], hname, rfl, .inl ⟨rfl, rfl⟩⟩
  · rename_i items hitems
    obtain ⟨texts, htexts, h⟩ := of_run_bind_ok h
    obtain ⟨name, hname, h⟩ := of_run_lookUp_ok h
    cases h
    exact ⟨name, items, hname, rfl, .inr ⟨hitems, texts, of_run_mapM_ok htexts, rfl⟩⟩
  · exact absurd h run_unrenderable_ne

/-- The row of an array's items. -/
def IsRow (cx : Context) (t : ValueType) (name : String) (items : List Value) (cs : List Char) :
    Prop :=
  items ≠ [] ∧ ∃ codes, List.Forall₂ (IsLiteral cx t.element) items codes ∧
    cs = (name ++ "\x7b").toList ++ ", ".toList.intercalate codes ++ ['\x7d']

theorem separable_row (ht : WrittenOut cx.schema t) (name : String) :
    Separable (IsRow cx t name) :=
  (separable_literal (t := t.element) ht).bracketed _ (by simp) '\x7d' rfl (by decide)

theorem isRow_of_run (name : String) {items : List Value} {texts : List String}
    (hne : items ≠ []) (hstruct : ∀ item ∈ items, OfStruct t item)
    (h : List.Forall₂ (fun item text => (renderElement cx t.element item).run = .ok (.ok text))
      items texts) :
    IsRow cx t name items (name ++ "\x7b" ++ ", ".intercalate texts ++ "\x7d").toList := by
  refine ⟨hne, texts.map String.toList, ?_, by simp⟩
  rw [List.forall₂_map_right_iff]
  exact ((List.forall₂_and_left _ _).mpr ⟨hstruct, h⟩).imp fun _ text h => ⟨h.1, text, h.2, rfl⟩

/-- **A literal gives its value back.**  Where literals write values out, two values that have the
same one are identical, and identical values have the same one. -/
theorem render_eq_iff_identical (ht : WrittenOut cx.schema t) {v w : Value} {a b : String}
    (hv : CarriesStruct t v) (hw : CarriesStruct t w) (ha : (render cx t v).run = .ok (.ok a))
    (hb : (render cx t w).run = .ok (.ok b)) : a = b ↔ v.identical w = true := by
  rw [Value.identical_iff]
  constructor
  · rintro rfl
    cases harray : t.isArray with
    | false =>
        simp only [render, ht.1, harray, Bool.false_eq_true, if_false] at ha hb
        exact (separable_literal ht).injective ⟨hv.ofStruct, a, ha, rfl⟩
          ⟨hw.ofStruct, a, hb, rfl⟩
    | true =>
        obtain ⟨name, items, hname, rfl, hitems⟩ := of_run_render_array ht.1 harray ha
        obtain ⟨_, items', hname', rfl, hitems'⟩ := of_run_render_array ht.1 harray hb
        cases hname.symm.trans hname'
        rcases hitems with ⟨rfl, rfl⟩ | ⟨hne, texts, htexts, rfl⟩ <;>
          rcases hitems' with ⟨rfl, ha'⟩ | ⟨hne', texts', htexts', ha'⟩
        · rfl
        · simp [String.ext_iff] at ha'
        · simp [String.ext_iff] at ha'
        · have hrow' := isRow_of_run name hne' hw htexts'
          rw [← ha'] at hrow'
          rw [(separable_row ht name).injective (isRow_of_run name hne hv htexts) hrow']
  · rintro rfl
    cases ha.symm.trans hb
    rfl

/-- A schema whose only type is the struct of identifiers. -/
def guidSchema : Schema :=
  { types := #[{ name := "Guid", package := "/Script", kind := .structType
                 wellKnown := some .guid }] }

/-- A text that imitates the end of a literal is not taken for two texts, and a row of equal
identifiers not for one of them. -/
theorem render_ne_of_imitation :
    let cx : Context := ⟨guidSchema, {}, ⟨0⟩⟩
    let guid : Value := .struct ⟨0⟩ [.int 1, .int (-2), .int 3, .int 4]
    let texts := ValueType.string.array
    let guids := (ValueType.struct ⟨0⟩).array
    (∃ a b, (render cx texts (.array [.string "a\"), TEXT(\"b"])).run = .ok (.ok a) ∧
      (render cx texts (.array [.string "a", .string "b"])).run = .ok (.ok b) ∧ a ≠ b) ∧
    ∃ a b, (render cx guids (.array [guid, guid])).run = .ok (.ok a) ∧
      (render cx guids (.array [guid])).run = .ok (.ok b) ∧ a ≠ b := by
  intro cx guid texts guids
  refine ⟨⟨_, _, rfl, rfl, fun heq => ?_⟩, _, _, rfl, rfl, fun heq => ?_⟩
  · have hwritten : WrittenOut cx.schema texts := ⟨rfl, trivial⟩
    have hone : CarriesStruct texts (.array [.string "a\"), TEXT(\"b"]) := by
      simp [CarriesStruct, OfStruct]
    have htwo : CarriesStruct texts (.array [.string "a", .string "b"]) := by
      simp [CarriesStruct, OfStruct]
    have hidentical := (render_eq_iff_identical hwritten hone htwo rfl rfl).mp heq
    simp [Value.identical, Value.allIdentical] at hidentical
  · have hwritten : WrittenOut cx.schema guids :=
      ⟨rfl, ⟨0⟩, _, rfl, rfl, .inl rfl⟩
    have htwo : CarriesStruct guids (.array [guid, guid]) := by
      simp [CarriesStruct, OfStruct, guid, guids, ValueType.struct, ValueType.array]
    have hone : CarriesStruct guids (.array [guid]) := by
      simp [CarriesStruct, OfStruct, guid, guids, ValueType.struct, ValueType.array]
    have hidentical := (render_eq_iff_identical hwritten htwo hone rfl rfl).mp heq
    simp [Value.identical, Value.allIdentical] at hidentical

end GraphLowering.Literal
