import GraphLowering.Proofs.Indentation
import GraphLowering.Proofs.Markers

/-!
# User text — inside its comment or its quotes

The comments of a graph, the documentation of a type and the values of metadata are written as the
user gave them: behind `//`, between `/**` and `*/`, and between quotes.  Line feeds are taken out
of documentation and of values; nothing is done about the other ends of a comment or a literal.  So
it depends on the text whether it stays inside.

* `Row.isComment_ofLine_iff`: a comment, line by line.
* `behindComment_doc_iff`: documentation, up to the first end of a comment.
* `ScriptUnit.user_text_enclosed_iff`: what this means for the source of a unit.
-/

namespace GraphLowering

/-! ### Steps among steps -/

namespace Mark

theorem rowsAll_append (depth : Nat) (ms ns : List Mark) :
    rowsAll depth (ms ++ ns) = rowsAll depth ms ++ rowsAll (depthAfter depth ms) ns := by
  induction ms generalizing depth with
  | nil => rfl
  | cons m ms ih =>
      have hdepth : depthAfter depth (m :: ms) = depthAfter (depthAfter depth [m]) ms :=
        depthAfter_append depth [m] ms
      rw [List.cons_append, rowsAll, rowsAll, ih, hdepth, List.append_assoc]

/-- The rows of a step stand among those of all steps. -/
theorem rows_infix_of_mem {m : Mark} {ms : List Mark} (h : m ∈ ms) (depth : Nat) :
    ∃ d, rows d m <:+: rowsAll depth ms := by
  obtain ⟨before, after, rfl⟩ := List.append_of_mem h
  refine ⟨depthAfter depth before, rowsAll depth before,
    rowsAll (depthAfter (depthAfter depth before) [m]) after, ?_⟩
  rw [rowsAll_append, rowsAll, List.append_assoc]

/-- So does a line in the text. -/
theorem infix_textAt_of_mem {text : String} {ms : List Mark} (h : .line text ∈ ms) (unit : String)
    (depth : Nat) : text.toList <:+: (textAt unit depth ms).toList := by
  obtain ⟨front, back, rfl⟩ := List.append_of_mem h
  have hline : text.toList <:+:
      (CodeWriter.lineText unit (depthAfter depth front) text).toList := by
    unfold CodeWriter.lineText
    split
    · rename_i hempty
      rw [String.isEmpty_iff.mp hempty]
      exact List.nil_infix
    · exact ⟨(CodeWriter.copies unit (depthAfter depth front)).toList, ['\n'], by simp⟩
  rw [textAt_append, ← List.singleton_append, textAt_append, textAt_line, String.toList_append,
    String.toList_append, ← List.append_assoc]
  exact hline.trans (List.infix_append _ _ _)

end Mark

theorem Code.mem_marksAll {m : Mark} {c : Code} {cs : List Code} (hc : c ∈ cs)
    (hm : m ∈ c.marks) : m ∈ Code.marksAll cs := by
  induction cs with
  | nil => cases hc
  | cons d cs ih =>
      rw [marksAll, List.mem_append]
      rcases List.mem_cons.mp hc with rfl | hc
      · exact .inl hm
      · exact .inr (ih hc)

theorem Code.mem_marksAll_of_nested {m : Mark} {body cs : List Code} (hbody : .nested body ∈ cs)
    (hm : m ∈ Code.marksAll body) : m ∈ Code.marksAll cs := by
  refine mem_marksAll hbody ?_
  rw [marks]
  exact List.mem_append_left _ (List.mem_cons_of_mem _ hm)

theorem Code.line_mem_marksAll {text : String} {cs : List Code} (h : .line text ∈ cs) :
    .line text ∈ Code.marksAll cs :=
  mem_marksAll h (by simp [marks])

theorem Code.relined_mem_marksAll {body : List Mark} {cs : List Code} (h : .relined body ∈ cs) :
    .relined body ∈ Code.marksAll cs :=
  mem_marksAll h (by simp [marks])

/-! ### Comments -/

namespace Row

/-- The row starts with `//`, behind its indentation. -/
def IsComment (r : Row) : Prop := ['/', '/'] <+: r.text.toList

@[simp] theorem text_relined (depth : Nat) (r : Row) :
    (r.relined depth).text = uncarried r.text := by
  unfold relined
  split
  · rename_i hempty
    exact hempty.2.symm
  · rfl

/-- A row that is written again inside another text is a comment if it was one. -/
theorem isComment_relined_iff {depth : Nat} {r : Row} :
    (r.relined depth).IsComment ↔ r.IsComment := by
  unfold IsComment
  rw [text_relined, uncarried, String.toList_ofList]
  constructor
  · intro h
    refine h.trans ?_
    unfold Text.closeLine
    split
    · rename_i rest hrest
      refine ⟨['\r'], ?_⟩
      rw [← List.reverse_cons, ← hrest, List.reverse_reverse]
    · rw [List.reverse_reverse]
  · rintro ⟨rest, hrest⟩
    rw [← hrest, List.reverse_append, closeLine_append (by decide)]
    exact List.prefix_append _ _

theorem splitOn_comment (text : String) : ∃ first rest, text.toList.splitOn '\n' = first :: rest ∧
    ("// " ++ text).toList.splitOn '\n' = ('/' :: '/' :: ' ' :: first) :: rest := by
  obtain ⟨first, rest, hparts, hblank⟩ := splitOn_cons_ne (c := ' ') (by decide) text.toList
  obtain ⟨_, _, hparts', hslash⟩ := splitOn_cons_ne (c := '/') (by decide) (' ' :: text.toList)
  cases hblank.symm.trans hparts'
  obtain ⟨_, _, hparts', hslashes⟩ :=
    splitOn_cons_ne (c := '/') (by decide) ('/' :: ' ' :: text.toList)
  cases hslash.symm.trans hparts'
  exact ⟨first, rest, hparts, by simpa using hslashes⟩

/-- The rows of a line hold its text, cut at line feeds. -/
theorem text_ofLine (depth : Nat) (text : String) :
    (ofLine depth text).map (·.text) = (text.toList.splitOn '\n').map String.ofList := by
  unfold ofLine
  split
  · rename_i hempty
    simp [String.isEmpty_iff.mp hempty]
  · cases text.toList.splitOn '\n' with
    | nil => rfl
    | cons first rest => simp

/-- **A comment stays one** exactly when each line of its text behind the first starts with `//`
itself. -/
theorem isComment_ofLine_iff {depth : Nat} {text : String} :
    (∀ r ∈ ofLine depth ("// " ++ text), r.IsComment) ↔
      ∀ part ∈ (text.toList.splitOn '\n').tail, ['/', '/'] <+: part := by
  obtain ⟨first, rest, hparts, hcomment⟩ := splitOn_comment text
  have hmap : (∀ r ∈ ofLine depth ("// " ++ text), r.IsComment) ↔
      ∀ s ∈ (ofLine depth ("// " ++ text)).map (·.text), ['/', '/'] <+: s.toList := by
    simp [IsComment]
  rw [hmap, text_ofLine, hcomment, hparts]
  simp

/-- The rows of a comment in a text that is put inside another, which is put inside a third. -/
def ofComment (depth depth' depth'' : Nat) (text : String) : List Row :=
  ((ofLine depth ("// " ++ text)).map (relined depth')).map (relined depth'')

variable {depth depth' depth'' : Nat} {text : String}

theorem text_ofComment : (ofComment depth depth' depth'' text).map (·.text) =
    (("// " ++ text).toList.splitOn '\n').map
      fun part => uncarried (uncarried (String.ofList part)) := by
  have htexts := congrArg (List.map fun s => uncarried (uncarried s))
    (text_ofLine depth ("// " ++ text))
  simpa [ofComment, Function.comp_def] using htexts

theorem isComment_ofComment_iff : (∀ r ∈ ofComment depth depth' depth'' text, r.IsComment) ↔
    ∀ part ∈ (text.toList.splitOn '\n').tail, ['/', '/'] <+: part := by
  rw [← @isComment_ofLine_iff depth]
  simp [ofComment, isComment_relined_iff]

end Row

/-! ### Documentation -/

/-- What stands behind the end of a comment, for characters behind its opening. -/
def behindComment : List Char → Option (List Char)
  | [] => none
  | '*' :: '/' :: rest => some rest
  | _ :: cs => behindComment cs

theorem behindComment_of_not_infix {body : List Char} (h : ¬ ['*', '/'] <:+: body)
    (rest : List Char) : behindComment (body ++ ' ' :: '*' :: '/' :: rest) = some rest := by
  induction body with
  | nil => rfl
  | cons c body ih =>
      rw [List.infix_cons_iff, not_or] at h
      rw [List.cons_append, behindComment, ih h.2]
      rintro tail rfl htail
      cases body with
      | nil => cases htail
      | cons d body =>
          cases htail
          exact h.1 ⟨body, rfl⟩

/-- A comment that ends too early leaves the rest of its text behind. -/
theorem behindComment_of_infix {body : List Char} (h : ['*', '/'] <:+: body) (rest : List Char) :
    ∃ tail, behindComment (body ++ rest) = some (tail ++ rest) := by
  induction body with
  | nil => simp at h
  | cons c body ih =>
      by_cases hend : ['*', '/'] <+: c :: body
      · obtain ⟨tail, htail⟩ := hend
        rw [← htail]
        exact ⟨tail, rfl⟩
      · have hbody := (List.infix_cons_iff.mp h).resolve_left hend
        rw [List.cons_append, behindComment]
        · exact ih hbody
        · rintro tail rfl htail
          cases body with
          | nil => simp at hbody
          | cons d body =>
              cases htail
              exact hend ⟨body, rfl⟩

/-- Line feeds are no part of such an end. -/
theorem infix_flattened_iff {doc : String} :
    ['*', '/'] <:+: (Text.replaceChar '\n' [' '] doc).toList ↔ ['*', '/'] <:+: doc.toList := by
  have hmap : (Text.replaceChar '\n' [' '] doc).toList =
      doc.toList.map fun c => if c = '\n' then ' ' else c := by
    rw [Text.replaceChar, String.toList_ofList, List.map_eq_flatMap]
    congr
    funext c
    split <;> rfl
  have hkept : ∀ {c d : Char}, d ≠ ' ' → d = (if c = '\n' then ' ' else c) → d = c := by
    intro c d hd h
    split at h
    · exact absurd h hd
    · exact h
  rw [hmap, List.infix_map_iff]
  constructor
  · rintro ⟨part, hpart, heq⟩
    obtain ⟨star, part, rfl, hstar, heq⟩ := List.map_eq_cons_iff.mp heq.symm
    obtain ⟨slash, part, rfl, hslash, heq⟩ := List.map_eq_cons_iff.mp heq
    obtain rfl := List.map_eq_nil_iff.mp heq
    rwa [← hkept (by decide) hstar.symm, ← hkept (by decide) hslash.symm] at hpart
  · intro h
    exact ⟨_, h, rfl⟩

/-- **Documentation ends its comment** exactly when it holds no end of a comment itself. -/
theorem behindComment_doc_iff {doc : String} {rest : List Char} :
    behindComment ("* ".toList ++ (Text.replaceChar '\n' [' '] doc).toList ++ [' '] ++
      '*' :: '/' :: rest) = some rest ↔ ¬ ['*', '/'] <:+: doc.toList := by
  rw [← infix_flattened_iff]
  generalize (Text.replaceChar '\n' [' '] doc).toList = body
  have hopening : behindComment ("* ".toList ++ body ++ [' '] ++ '*' :: '/' :: rest) =
      behindComment (body ++ ' ' :: '*' :: '/' :: rest) := by
    simp [behindComment]
  rw [hopening]
  refine ⟨fun h hinfix => ?_, fun h => behindComment_of_not_infix h rest⟩
  obtain ⟨tail, htail⟩ := behindComment_of_infix hinfix (' ' :: '*' :: '/' :: rest)
  have hlength := congrArg List.length (Option.some.inj (htail.symm.trans h))
  simp only [List.length_append, List.length_cons] at hlength
  omega

/-! ### Metadata -/

theorem infix_intercalate_of_mem {s : String} {ss : List String} (h : s ∈ ss) (sep : String) :
    s.toList <:+: (sep.intercalate ss).toList := by
  induction ss with
  | nil => cases h
  | cons t ss ih =>
      cases ss with
      | nil =>
          obtain rfl := List.mem_singleton.mp h
          rw [String.intercalate_singleton]
      | cons u ss =>
          rw [String.intercalate_cons_cons, String.toList_append, String.toList_append]
          rcases List.mem_cons.mp h with rfl | h
          · exact ⟨[], sep.toList ++ (sep.intercalate (u :: ss)).toList, by simp⟩
          · exact (ih h).trans (List.suffix_append _ _).isInfix

theorem infix_metadataTag?_of_mem {m : Metadata} {e : String × String} (he : e ∈ m.entries)
    (hkey : isEditorOnlyKey e.1 = false) (addCategory : Bool) :
    ∃ tag, metadataTag? m addCategory = some tag ∧
      (metadataEntry e.1 e.2).toList <:+: tag.toList := by
  have hentry : metadataEntry e.1 e.2 ∈
      (m.entries.filter fun e => !isEditorOnlyKey e.1).map fun e => metadataEntry e.1 e.2 :=
    List.mem_map.mpr ⟨e, List.mem_filter.mpr ⟨he, by simp [hkey]⟩, rfl⟩
  unfold metadataTag?
  dsimp only
  split
  · rename_i hnone
    rw [(List.append_eq_nil_iff.mp hnone).1] at hentry
    cases hentry
  · refine ⟨_, rfl, ?_⟩
    rw [String.toList_append, String.toList_append]
    exact (infix_intercalate_of_mem (List.mem_append_left _ hentry) ", ").trans
      (List.infix_append _ _ _)

/-- An entry of metadata stands in the decoration that the metadata is written in. -/
theorem infix_decoration_of_mem {m : Metadata} {e : String × String} (he : e ∈ m.entries)
    (hkey : isEditorOnlyKey e.1 = false) (name : String) (tags : List String)
    (addCategory : Bool) : (metadataEntry e.1 e.2).toList <:+:
      (decoration name (tags ++ (metadataTag? m addCategory).toList)).toList := by
  obtain ⟨tag, htag, hentry⟩ := infix_metadataTag?_of_mem he hkey addCategory
  have hrow : tag.toList <:+: (", ".intercalate (tags ++ [tag])).toList :=
    infix_intercalate_of_mem (by simp) ", "
  rw [htag, decoration, String.toList_append, Option.toList_some, String.toList_append]
  exact (hentry.trans hrow).trans (List.infix_append _ _ _)

/-! ### Declarations -/

namespace ScriptUnit

variable {comments : CommentOptions} {cx : Context} {u : ScriptUnit} {t : TypeDecl}
  {sink sink' : Sink} {source : UnitSource}

/-- What the declaration of a unit holds. -/
structure Declares (cx : Context) (u : ScriptUnit) (t : TypeDecl) (declaration : List Code) :
    Prop where
  type : ∃ before name tags rest,
    declaration = before ++ docComment t ++ typeLine name tags t :: rest
  fields : t.kind = .classType ∨ t.kind = .structType → ∃ fields body,
    fieldDeclarations cx = .ok fields ∧ fields ⊆ body ∧ .nested body ∈ declaration
  methods : t.kind = .classType → ∃ functions body,
    u.functions.mapM (fun g => functionDeclaration cx g.function) = .ok functions ∧
      functions.flatten ⊆ body ∧ .nested body ∈ declaration
  events : t.kind = .interfaceType → ∃ functions,
    interfaceFunctions cx t.functions = .ok functions ∧ .nested functions ∈ declaration

theorem classDeclaration_declares {deps : Dependencies} {declaration : List Code}
    (ht : cx.schema.type cx.unit = .ok t) (hk : t.kind = .classType)
    (h : classDeclaration cx u deps = .ok declaration) : Declares cx u t declaration := by
  unfold classDeclaration at h
  rw [Lookup.bind_of_ok ht] at h
  obtain ⟨cls, -, h⟩ := Lookup.of_bind_ok h
  obtain ⟨includes, -, h⟩ := Lookup.of_bind_ok h
  obtain ⟨prologue, -, h⟩ := Lookup.of_bind_ok h
  obtain ⟨delegates, -, h⟩ := Lookup.of_bind_ok h
  obtain ⟨bases, -, h⟩ := Lookup.of_bind_ok h
  obtain ⟨fields, hfields, h⟩ := Lookup.of_bind_ok h
  obtain ⟨replication, -, h⟩ := Lookup.of_bind_ok h
  obtain ⟨functions, hfunctions, h⟩ := Lookup.of_bind_ok h
  cases h
  refine ⟨⟨_, _, _, _, rfl⟩, fun _ => ?_, fun _ => ?_, by simp [hk]⟩
  · exact ⟨fields, _, hfields, fun c hc => by simp [hc],
      List.mem_append_right _ (List.mem_of_getElem? (i := 5) rfl)⟩
  · exact ⟨functions, _, hfunctions, List.subset_append_right _ _,
      List.mem_append_right _ (List.mem_of_getElem? (i := 5) rfl)⟩

theorem structDeclaration_declares {deps : Dependencies} {declaration : List Code}
    (ht : cx.schema.type cx.unit = .ok t) (hk : t.kind = .structType)
    (h : structDeclaration cx deps sink = .ok (declaration, sink')) :
    Declares cx u t declaration := by
  unfold structDeclaration at h
  rw [Lookup.bind_of_ok ht] at h
  obtain ⟨header, -, h⟩ := Lookup.of_bind_ok h
  obtain ⟨includes, -, h⟩ := Lookup.of_bind_ok h
  obtain ⟨prologue, -, h⟩ := Lookup.of_bind_ok h
  obtain ⟨name, -, h⟩ := Lookup.of_bind_ok h
  obtain ⟨fields, hfields, h⟩ := Lookup.of_bind_ok h
  obtain ⟨factory, -, h⟩ := Lookup.of_bind_ok h
  cases h
  refine ⟨⟨_, _, _, _, rfl⟩, fun _ => ?_, by simp [hk], by simp [hk]⟩
  exact ⟨fields, _, hfields, fun c hc => by simp [hc],
    List.mem_append_right _ (List.mem_of_getElem? (i := 4) rfl)⟩

theorem enumDeclaration_declares {deps : Dependencies} {declaration : List Code}
    (ht : cx.schema.type cx.unit = .ok t) (hk : t.kind = .enumType)
    (h : enumDeclaration cx deps = .ok declaration) : Declares cx u t declaration := by
  unfold enumDeclaration at h
  rw [Lookup.bind_of_ok ht] at h
  obtain ⟨includes, -, h⟩ := Lookup.of_bind_ok h
  obtain ⟨prologue, -, h⟩ := Lookup.of_bind_ok h
  obtain ⟨name, -, h⟩ := Lookup.of_bind_ok h
  cases h
  exact ⟨⟨_, _, _, _, rfl⟩, by simp [hk], by simp [hk], by simp [hk]⟩

theorem interfaceDeclaration_declares {deps : Dependencies} {declaration : List Code}
    (ht : cx.schema.type cx.unit = .ok t) (hk : t.kind = .interfaceType)
    (h : interfaceDeclaration cx deps = .ok declaration) : Declares cx u t declaration := by
  unfold interfaceDeclaration at h
  rw [Lookup.bind_of_ok ht] at h
  obtain ⟨includes, -, h⟩ := Lookup.of_bind_ok h
  obtain ⟨prologue, -, h⟩ := Lookup.of_bind_ok h
  obtain ⟨name, -, h⟩ := Lookup.of_bind_ok h
  obtain ⟨nativeSide, -, h⟩ := Lookup.of_bind_ok h
  obtain ⟨functions, hfunctions, h⟩ := Lookup.of_bind_ok h
  cases h
  refine ⟨⟨_, _, _, _, rfl⟩, by simp [hk], by simp [hk], fun _ => ?_⟩
  exact ⟨functions, hfunctions, List.mem_append_right _ (List.mem_of_getElem? (i := 10) rfl)⟩

theorem emit_declares (h : u.emit comments cx sink = .ok (source, sink'))
    (hunit : cx.unit = u.type) (ht : cx.schema.type u.type = .ok t) :
    Declares cx u t source.declaration := by
  obtain ⟨t', ht', h⟩ := Lookup.of_bind_ok h
  obtain rfl : t' = t := Except.ok.inj (ht'.symm.trans ht)
  obtain ⟨deps, -, h⟩ := Lookup.of_bind_ok h
  obtain ⟨⟨declaration, implementation, sink₁⟩, hsource, h⟩ := Lookup.of_bind_ok h
  cases h
  rw [← hunit] at ht
  unfold sourceCode at hsource
  cases hk : t'.kind with
  | classType =>
      rw [hk] at hsource
      obtain ⟨_, -, hsource⟩ := Lookup.of_bind_ok hsource
      obtain ⟨_, hdeclaration, hsource⟩ := Lookup.of_bind_ok hsource
      obtain ⟨_, -, hsource⟩ := Lookup.of_bind_ok hsource
      cases hsource
      exact classDeclaration_declares ht hk hdeclaration
  | structType =>
      rw [hk] at hsource
      obtain ⟨_, hdeclaration, hsource⟩ := Lookup.of_bind_ok hsource
      cases hsource
      exact structDeclaration_declares ht hk hdeclaration
  | enumType =>
      rw [hk] at hsource
      obtain ⟨_, hdeclaration, hsource⟩ := Lookup.of_bind_ok hsource
      cases hsource
      exact enumDeclaration_declares ht hk hdeclaration
  | interfaceType =>
      rw [hk] at hsource
      obtain ⟨_, hdeclaration, hsource⟩ := Lookup.of_bind_ok hsource
      cases hsource
      exact interfaceDeclaration_declares ht hk hdeclaration

/-- The metadata is written in the declaration of the unit: that of the type itself, of a field, or
of a function with a decoration. -/
inductive Decorates (cx : Context) (u : ScriptUnit) (t : TypeDecl) : Metadata → Prop
  | type : Decorates cx u t t.metadata
  | field {f : FieldId} {decl : FieldDecl} (hk : t.kind = .classType ∨ t.kind = .structType)
      (hf : f ∈ t.fields) (hdecl : cx.schema.field f = .ok decl) : Decorates cx u t decl.metadata
  | method {g : FunctionGraph} {decl : FunctionDecl} {name : String} (hk : t.kind = .classType)
      (hg : g ∈ u.functions) (hdecl : cx.schema.function g.function = .ok decl)
      (hname : cx.schema.functionName g.function = .ok name)
      (hplain : cx.schema.emittedName g.function = .ok name) : Decorates cx u t decl.metadata
  | event {f : FunctionId} {decl : FunctionDecl} (hk : t.kind = .interfaceType)
      (hf : f ∈ t.functions) (hdecl : cx.schema.function f = .ok decl)
      (hplain : decl.flags.has .delegate = false) : Decorates cx u t decl.metadata

theorem functionLine_ok {f : FunctionId} {decl : FunctionDecl} {line : String}
    (hdecl : cx.schema.function f = .ok decl) (h : cx.schema.functionLine f = .ok line) :
    ∃ tags addCategory,
      line = decoration "UFUNCTION" (tags ++ (metadataTag? decl.metadata addCategory).toList) := by
  rw [Schema.functionLine, Lookup.bind_of_ok hdecl] at h
  obtain ⟨owner, -, h⟩ := Lookup.of_bind_ok h
  cases h
  exact ⟨_, _, rfl⟩

/-- **Metadata that is written is written in a decoration.** -/
theorem Decorates.line_mem {m : Metadata} {declaration : List Code}
    (hd : Decorates cx u t m) (h : Declares cx u t declaration)
    (ht : cx.schema.type cx.unit = .ok t) : ∃ name tags addCategory,
      .line (decoration name (tags ++ (metadataTag? m addCategory).toList)) ∈
        Code.marksAll declaration := by
  cases hd with
  | type =>
      obtain ⟨before, name, tags, rest, rfl⟩ := h.type
      exact ⟨name, tags, false, Code.line_mem_marksAll
        (List.mem_append_right _ (List.mem_cons_self (a := typeLine name tags t)))⟩
  | @field f decl hk hf hdecl =>
      obtain ⟨fields, body, hfields, hsub, hbody⟩ := h.fields hk
      obtain ⟨own, hown, hfields⟩ := Lookup.of_bind_ok hfields
      obtain ⟨lines, hlines, hfields⟩ := Lookup.of_bind_ok hfields
      cases hfields
      rw [Schema.ownFields, Lookup.bind_of_ok ht] at hown
      cases hown
      obtain ⟨pair, hpair, hline⟩ := Lookup.exists_of_mapM_ok hlines hf
      obtain ⟨property, hproperty, hline⟩ := Lookup.of_bind_ok hline
      obtain ⟨field, -, hline⟩ := Lookup.of_bind_ok hline
      cases hline
      rw [Schema.propertyLine, Lookup.bind_of_ok hdecl] at hproperty
      cases hproperty
      exact ⟨_, _, _, Code.mem_marksAll_of_nested hbody (Code.line_mem_marksAll
        (hsub (List.mem_flatten.mpr ⟨_, hpair, List.mem_cons_self⟩)))⟩
  | @method g decl name hk hg hdecl hname hplain =>
      obtain ⟨functions, body, hfunctions, hsub, hbody⟩ := h.methods hk
      obtain ⟨lines, hlines, hline⟩ := Lookup.exists_of_mapM_ok hfunctions hg
      obtain ⟨signature, -, hline⟩ := Lookup.of_bind_ok hline
      rw [Lookup.bind_of_ok hplain, Lookup.bind_of_ok hname, if_neg (not_not_intro rfl)] at hline
      obtain ⟨function, hfunction, hline⟩ := Lookup.of_bind_ok hline
      cases hline
      obtain ⟨tags, addCategory, rfl⟩ := functionLine_ok hdecl hfunction
      exact ⟨_, _, _, Code.mem_marksAll_of_nested hbody (Code.line_mem_marksAll
        (hsub (List.mem_flatten.mpr ⟨_, hlines, List.mem_cons_self⟩)))⟩
  | @event f decl hk hf hdecl hplain =>
      obtain ⟨functions, hfunctions, hbody⟩ := h.events hk
      obtain ⟨lines, hlines, hfunctions⟩ := Lookup.of_bind_ok hfunctions
      cases hfunctions
      obtain ⟨pair, hpair, hline⟩ := Lookup.exists_of_mapM_ok hlines hf
      rw [Lookup.bind_of_ok hdecl, if_neg (by simp [hplain])] at hline
      obtain ⟨function, hfunction, hline⟩ := Lookup.of_bind_ok hline
      obtain ⟨signature, -, hline⟩ := Lookup.of_bind_ok hline
      cases hline
      obtain ⟨tags, addCategory, rfl⟩ := functionLine_ok hdecl hfunction
      exact ⟨_, _, _, Code.mem_marksAll_of_nested hbody (Code.line_mem_marksAll
        (List.mem_flatten.mpr ⟨_, hpair, List.mem_cons_self⟩))⟩

theorem doc_line_mem {declaration : List Code} {doc : String} (h : Declares cx u t declaration)
    (hdoc : t.doc = some doc) : .line ("/** " ++ Text.replaceChar '\n' [' '] doc ++ " */") ∈
      Code.marksAll declaration := by
  obtain ⟨before, name, tags, rest, rfl⟩ := h.type
  have hline : .line ("/** " ++ Text.replaceChar '\n' [' '] doc ++ " */") ∈ docComment t := by
    simp [docComment, hdoc]
  exact Code.line_mem_marksAll (List.mem_append_left _ (List.mem_append_right _ hline))

/-! ### Implementations -/

/-- The comment of a scheduled statement is a line of the body. -/
theorem comment_line_mem {env : Lowering.Env} {f : LoweredFunction} {id : StmtId}
    {stmt : Statement} {text : String} (h : IsLowered comments env f)
    (hwanted : comments.emitComments = true) (hid : id ∈ env.graph.order)
    (hstmt : env.graph.statement id = .ok stmt) (hk : stmt.kind = .comment text) :
    .line ("// " ++ text) ∈ f.body.marks := by
  obtain ⟨c, hc, hchunk⟩ := Lookup.exists_mem_zip h.chunks hid
  obtain ⟨s, s', hrun⟩ := hchunk.code
  have haction : Dispatch.Action.plain [.line ("// " ++ text)] = c.action := by
    unfold Lowering.lowerStatement Lowering.Env.statement at hrun
    rw [hstmt, liftBind_ok, hk, hwanted] at hrun
    exact Except.ok.inj (Prod.mk.inj hrun).1
  have hmarks : .line ("// " ++ text) ∈ c.marks := by
    simp [Dispatch.Chunk.marks, ← haction, Dispatch.Action.code, Code.marksAll, Code.marks]
  rw [Dispatch.Body.marks_eq]
  exact List.mem_append_left _ (List.mem_append_right _
    (List.mem_flatMap.mpr ⟨c, (List.of_mem_zip hc).2, hmarks⟩))

/-- A body is a text of its own in the definition of its function. -/
theorem body_mem {g : FunctionGraph} {lowered : LoweredFunction} {code : List Code}
    (h : definitionCode cx g lowered = .ok code) :
    .relined lowered.body.marks ∈ Code.marksAll code := by
  obtain ⟨cls, -, h⟩ := Lookup.of_bind_ok h
  obtain ⟨signature, -, h⟩ := Lookup.of_bind_ok h
  obtain ⟨field, -, h⟩ := Lookup.of_bind_ok h
  obtain ⟨returned, -, h⟩ := Lookup.of_bind_ok h
  obtain ⟨results, -, h⟩ := Lookup.of_bind_ok h
  obtain ⟨locals, -, h⟩ := Lookup.of_bind_ok h
  cases h
  have hbody : Code.relined lowered.body.marks ∈
      results ++ locals ++ [.relined lowered.body.marks] ++
        returned.map fun f => .line ("return " ++ f.name ++ ";") := by
    simp
  exact Code.mem_marksAll_of_nested (List.mem_of_getElem? (i := 2) rfl)
    (Code.relined_mem_marksAll hbody)

/-- The definition of a function is a text of its own in the implementation of its class. -/
theorem definition_mem {g : FunctionGraph} {bodies : List LoweredFunction} {code : List Code}
    {lowered : LoweredFunction} (hg : (g, lowered) ∈ u.functions.zip bodies)
    (h : definitions cx (u.functions.zip bodies) = .ok code) : ∃ definition,
      definitionCode cx g lowered = .ok definition ∧
        .relined (Code.marksAll definition) ∈ Code.marksAll code := by
  obtain ⟨texts, htexts, h⟩ := Lookup.of_bind_ok h
  cases h
  obtain ⟨text, htext, h⟩ := Lookup.exists_of_mapM_ok htexts hg
  obtain ⟨definition, hdefinition, h⟩ := Lookup.of_bind_ok h
  cases h
  exact ⟨definition, hdefinition, Code.relined_mem_marksAll
    (List.mem_flatten.mpr ⟨_, htext, List.mem_cons_of_mem _ List.mem_cons_self⟩)⟩

/-- **The rows of a comment** in the implementation of a class: it is written in a body, which is
put inside a definition, which is put inside the implementation. -/
theorem exists_comment_rows (h : u.emit comments cx sink = .ok (source, sink'))
    (ht : cx.schema.type u.type = .ok t) (hk : t.kind = .classType)
    (hwanted : comments.emitComments = true) {g : FunctionGraph} (hg : g ∈ u.functions)
    {id : StmtId} (hid : id ∈ g.order) {stmt : Statement} {text : String}
    (hstmt : g.statement id = .ok stmt) (hcomment : stmt.kind = .comment text) :
    ∃ implementation d d₁ d₂, source.layout.implementation = some implementation ∧
      Row.ofComment d d₁ d₂ text <:+: implementation := by
  obtain ⟨_, bodies, _, _, before, functions, hbodies, -, hfunctions, himplementation⟩ :=
    emit_class h ht hk
  obtain ⟨lowered, hlowered, f, hf, hbody⟩ :=
    Lookup.exists_mem_zip (lowerBodies_isLowered hbodies) hg
  obtain ⟨definition, hdefinition, hmem⟩ := definition_mem hlowered hfunctions
  have hline : .line ("// " ++ text) ∈ lowered.body.marks :=
    hbody ▸ comment_line_mem hf hwanted hid hstmt hcomment
  have hcode : .relined (Code.marksAll definition) ∈ Code.marksAll (before ++ functions) := by
    rw [Code.marksAll_append]
    exact List.mem_append_right _ hmem
  obtain ⟨d, hd⟩ := Mark.rows_infix_of_mem hline 0
  obtain ⟨d₁, hd₁⟩ := Mark.rows_infix_of_mem (body_mem hdefinition) 0
  obtain ⟨d₂, hd₂⟩ := Mark.rows_infix_of_mem hcode 0
  refine ⟨Code.rows (before ++ functions), d, d₁, d₂, by simp [UnitSource.layout, himplementation],
    ?_⟩
  simp only [Mark.rows] at hd hd₁ hd₂
  exact (((hd.map _).trans hd₁).map _).trans hd₂

/-! ### Whole units -/

theorem infix_declaration {text : String} (h : .line text ∈ Code.marksAll source.declaration)
    (indent : String) : text.toList <:+: (source.render indent).declaration.toList :=
  Mark.infix_textAt_of_mem h indent 0

/-- **User text stays inside its comment or its quotes, if it keeps to them.**  In the source of a
unit, whatever the unit of indentation:

* the rows of a comment are the lines of its text, the first behind `//`; all of them start with
  `//` exactly when the other lines of the text do;
* the comment around the documentation of a type ends where it is meant to exactly when the
  documentation holds no `*/`;
* the literal of a metadata value ends where it is meant to exactly when the value, without its line
  feeds, has no quote that is not escaped and does not end inside an escape. -/
theorem user_text_enclosed_iff (h : u.emit comments cx sink = .ok (source, sink'))
    (hunit : cx.unit = u.type) (ht : cx.schema.type u.type = .ok t) {indent : String}
    (hindent : Text.Inline indent) :
    (t.kind = .classType → comments.emitComments = true → ∀ g ∈ u.functions, ∀ id ∈ g.order,
      ∀ stmt text, g.statement id = .ok stmt → stmt.kind = .comment text →
        ∃ before rows after, (source.render indent).implementation =
            some (before ++ Row.render indent rows ++ after) ∧
          rows.map (·.text) = (("// " ++ text).toList.splitOn '\n').map
            (fun part => Row.uncarried (Row.uncarried (String.ofList part))) ∧
          ((∀ r ∈ rows, r.IsComment) ↔
            ∀ part ∈ (text.toList.splitOn '\n').tail, ['/', '/'] <+: part)) ∧
    (∀ doc, t.doc = some doc → ∃ before body rest,
      (source.render indent).declaration.toList =
        before ++ '/' :: '*' :: body ++ '*' :: '/' :: rest ∧
      body = "* ".toList ++ (Text.replaceChar '\n' [' '] doc).toList ++ [' '] ∧
      (behindComment (body ++ '*' :: '/' :: rest) = some rest ↔ ¬ ['*', '/'] <:+: doc.toList)) ∧
    ∀ m, Decorates cx u t m → ∀ e ∈ m.entries, isEditorOnlyKey e.1 = false → e.2 ≠ "" →
      ∃ before value rest,
        (source.render indent).declaration.toList =
          before ++ e.1.toList ++ '=' :: '"' :: value ++ '"' :: rest ∧
        value = (Text.replaceChar '\n' [] e.2).toList ∧
        (Text.closing? (value ++ '"' :: rest) = some (value, rest) ↔ Text.Contained value) := by
  have hdeclares := emit_declares h hunit ht
  refine ⟨?_, ?_, ?_⟩
  · intro hk hwanted g hg id hid stmt text hstmt hcomment
    obtain ⟨implementation, d, d₁, d₂, himplementation, front, back, hrows⟩ :=
      exists_comment_rows h ht hk hwanted hg hid hstmt hcomment
    refine ⟨Row.render indent front, Row.ofComment d d₁ d₂ text, Row.render indent back, ?_,
      Row.text_ofComment, Row.isComment_ofComment_iff⟩
    rw [source.render_eq hindent, himplementation, ← Row.render_append, ← Row.render_append, hrows]
    rfl
  · intro doc hdoc
    obtain ⟨before, rest, hline⟩ := infix_declaration (doc_line_mem hdeclares hdoc) indent
    refine ⟨before, _, rest, ?_, rfl, behindComment_doc_iff⟩
    simp [← hline]
  · intro m hm e he hkey hvalue
    obtain ⟨name, tags, addCategory, hline⟩ := hm.line_mem hdeclares (hunit ▸ ht)
    obtain ⟨before, rest, hentry⟩ := (infix_decoration_of_mem he hkey name tags addCategory).trans
      (infix_declaration hline indent)
    refine ⟨before, _, rest, ?_, rfl, Text.closing?_append_iff⟩
    simp [← hentry, metadataEntry, hvalue]

/-! ### A sign -/

/-- A class with documentation and a tool tip. -/
def signContext (doc tip : String) : Context :=
  ⟨{ types := #[{ name := "Sign", package := "/Game", kind := .classType, functions := [⟨0⟩]
                  metadata := ⟨[("ToolTip", tip)]⟩, doc := some doc }]
     functions := #[{ owner := ⟨0⟩, name := "Read" }] }, {}, ⟨0⟩⟩

/-- Its only function is a comment. -/
def signUnit (comment : String) : ScriptUnit :=
  ⟨⟨0⟩, [{ name := "Read", function := ⟨0⟩, statements := #[{ kind := .comment comment }]
           nodes := [[⟨0⟩]] }]⟩

/-- A sign whose texts keep to their places, though they have line feeds, stars, slashes and
quotes. -/
theorem user_text_enclosed_iff_sign : ∃ source sink,
    (signUnit "on\n// and off").emit {} (signContext "Lights *\n/ ways" "say \\\"hi\\\"") {} =
      .ok (source, sink) ∧
    (∃ before rows after, (source.render "\t").implementation =
        some (before ++ Row.render "\t" rows ++ after) ∧
      rows.map (·.text) = ["// on", "// and off"] ∧ ∀ r ∈ rows, r.IsComment) ∧
    (∃ before rest, (source.render "\t").declaration.toList =
        before ++ "/** Lights * / ways */".toList ++ rest ∧
      behindComment ("* Lights * / ways */".toList ++ rest) = some rest) ∧
    ∃ before rest, (source.render "\t").declaration.toList =
        before ++ "ToolTip=\"say \\\"hi\\\"\"".toList ++ rest ∧
      Text.closing? ("say \\\"hi\\\"\"".toList ++ rest) =
        some ("say \\\"hi\\\"".toList, rest) := by
  have hindent : Text.Inline "\t" := ⟨by decide, by decide⟩
  obtain ⟨source, sink, hemit⟩ : ∃ source sink, (signUnit "on\n// and off").emit {}
      (signContext "Lights *\n/ ways" "say \\\"hi\\\"") {} = .ok (source, sink) := ⟨_, _, rfl⟩
  obtain ⟨hcomment, hdoc, hmetadata⟩ := user_text_enclosed_iff hemit rfl rfl hindent
  obtain ⟨before, rows, after, himplementation, htexts, hrows⟩ :=
    hcomment rfl rfl _ List.mem_cons_self ⟨0⟩ (by decide) _ _ rfl rfl
  obtain ⟨before', body, rest, hdeclaration, rfl, hend⟩ := hdoc _ rfl
  obtain ⟨before'', value, rest', hdeclaration', rfl, hclose⟩ :=
    hmetadata _ .type _ List.mem_cons_self (by decide) (by decide)
  have hflat : (Text.replaceChar '\n' [' '] "Lights *\n/ ways").toList =
      "Lights * / ways".toList := by decide +kernel
  have hvalue : (Text.replaceChar '\n' [] "say \\\"hi\\\"").toList = "say \\\"hi\\\"".toList := by
    decide +kernel
  have hcontained : Text.Contained "say \\\"hi\\\"".toList :=
    (@Text.closing?_append_iff _ []).mp (by decide +kernel)
  rw [hflat] at hdeclaration hend
  rw [hvalue] at hdeclaration' hclose
  refine ⟨source, sink, hemit, ⟨before, rows, after, himplementation, ?_, ?_⟩,
    ⟨before', rest, ?_, ?_⟩, before'', rest', ?_, ?_⟩
  · rw [htexts]
    decide +kernel
  · exact hrows.mpr (by decide +kernel)
  · simpa using hdeclaration
  · simpa using hend.mpr (by decide +kernel)
  · simpa using hdeclaration'
  · simpa using hclose.mpr hcontained

/-- **User text does get out.**  The second line of the comment is code, what follows `*/` in the
documentation is no comment, and the tool tip ends at its own quote. -/
theorem user_text_gets_out : ∃ source sink rows,
    (signUnit "on\noff").emit {} (signContext "On */ or off." "say \"hi\"") {} =
      .ok (source, sink) ∧
    source.layout.implementation = some rows ∧
    ⟨1, "// on"⟩ ∈ rows ∧ ⟨1, "off"⟩ ∈ rows ∧
    ⟨0, "/** On */ or off. */"⟩ ∈ source.layout.declaration ∧
    behindComment "* On */ or off. */".toList = some " or off. */".toList ∧
    ⟨0, "UCLASS(Blueprintable, BlueprintType, meta=(ToolTip=\"say \"hi\"\"))"⟩ ∈
      source.layout.declaration ∧
    Text.closing? "say \"hi\"\"))".toList = some ("say ".toList, "hi\"\"))".toList) := by
  refine ⟨_, _, _, rfl, rfl, ?_, ?_, ?_, ?_, ?_, ?_⟩ <;> decide +kernel

end ScriptUnit

end GraphLowering
