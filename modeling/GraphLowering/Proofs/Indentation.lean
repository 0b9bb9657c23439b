import GraphLowering.Package
import GraphLowering.Proofs.Code.Lines
import GraphLowering.Proofs.Lookup
import GraphLowering.World

/-!
# Indentation is presentation

The unit of indentation decides nothing about a text but what stands in front of its lines.  The
steps of a writer have rows, lines with their depths, that are known before a unit is chosen; the
text with a unit is that of the rows, each behind as many units as it is deep.  A text that is cut
into lines and written again inside another has its rows moved deeper (`Row.relined`).

* `Mark.rowsAll`: the rows of steps.
* `Mark.textAt_eq_render`: the text of steps is the text of their rows.
* `Package.indentation_presented`: units and packages, compiled with any unit of indentation.
-/

namespace GraphLowering

/-- The text neither ends a line nor is part of a line end. -/
structure Text.Inline (text : String) : Prop where
  newline : '\n' ∉ text.toList
  carriage : '\r' ∉ text.toList

/-- A line of a text, and how deep it stands. -/
structure Row where
  depth : Nat
  text : String
  deriving DecidableEq, Repr, Inhabited

namespace Row

/-- A row behind its indentation, with its line end. -/
def line (unit : String) (r : Row) : String :=
  String.join (List.replicate r.depth unit) ++ r.text ++ "\n"

/-- The text of rows, with a unit of indentation. -/
def render (unit : String) (rows : List Row) : String := String.join (rows.map (line unit))

/-- No row goes over the end of its line. -/
def Unbroken (rows : List Row) : Prop := ∀ r ∈ rows, '\n' ∉ r.text.toList

/-- The rows of a line that is written at a depth.  Line feeds inside it start rows without
indentation, and an empty line has no indentation either. -/
def ofLine (depth : Nat) (text : String) : List Row :=
  if text.isEmpty then [⟨0, ""⟩]
  else
    match text.toList.splitOn '\n' with
    | [] => []
    | first :: rest => ⟨depth, String.ofList first⟩ :: rest.map fun part => ⟨0, String.ofList part⟩

/-- A line without the carriage return of its line end. -/
def uncarried (text : String) : String := String.ofList (Text.closeLine text.toList.reverse)

/-- A row that is read from a finished text and written again at a depth.  An empty line stays
empty. -/
def relined (depth : Nat) (r : Row) : Row :=
  if r.depth = 0 ∧ uncarried r.text = "" then ⟨0, ""⟩ else ⟨depth + r.depth, uncarried r.text⟩

variable {unit : String} {rows rows' : List Row}

theorem render_append (unit : String) (rows rows' : List Row) :
    render unit (rows ++ rows') = render unit rows ++ render unit rows' := by
  simp [render]

theorem render_cons (unit : String) (r : Row) (rows : List Row) :
    render unit (r :: rows) = r.line unit ++ render unit rows := by
  simp [render]

theorem Unbroken.append (h : Unbroken rows) (h' : Unbroken rows') : Unbroken (rows ++ rows') := by
  intro r hr
  rcases List.mem_append.mp hr with hr | hr
  · exact h r hr
  · exact h' r hr

/-! ### Lines as they are written -/

theorem copies_eq_join (unit : String) (n : Nat) :
    CodeWriter.copies unit n = String.join (List.replicate n unit) := by
  induction n with
  | zero => rfl
  | succ n ih => simp [CodeWriter.copies, ih, List.replicate_succ']

theorem copies_add (unit : String) (m n : Nat) :
    CodeWriter.copies unit (m + n) = CodeWriter.copies unit m ++ CodeWriter.copies unit n := by
  induction n with
  | zero => simp [CodeWriter.copies]
  | succ n ih => simp [CodeWriter.copies, ih, String.append_assoc]

/-- Copies are empty if there are none, or if the unit is. -/
theorem copies_eq_empty_iff {unit : String} {n : Nat} :
    CodeWriter.copies unit n = "" ↔ n = 0 ∨ unit = "" := by
  induction n with
  | zero => simp [CodeWriter.copies]
  | succ n ih => simp +contextual [CodeWriter.copies, ih]

theorem not_mem_copies {c : Char} {unit : String} (hc : c ∉ unit.toList) (n : Nat) :
    c ∉ (CodeWriter.copies unit n).toList := by
  induction n with
  | zero => simp [CodeWriter.copies]
  | succ n ih => simp [CodeWriter.copies, ih, hc]

theorem line_eq (unit : String) (r : Row) :
    r.line unit = CodeWriter.copies unit r.depth ++ r.text ++ "\n" := by
  rw [copies_eq_join, line]

theorem splitOn_cons_ne {c : Char} (hc : c ≠ '\n') (cs : List Char) : ∃ first rest,
    cs.splitOn '\n' = first :: rest ∧ (c :: cs).splitOn '\n' = (c :: first) :: rest := by
  cases hparts : cs.splitOn '\n' with
  | nil => exact absurd hparts (List.splitOn_ne_nil _ _)
  | cons first rest =>
      refine ⟨first, rest, rfl, ?_⟩
      rw [List.splitOn_cons_eq_if_modifyHead, if_neg (by simpa using hc), hparts]
      rfl

theorem splitOn_cons_newline (cs : List Char) :
    ('\n' :: cs).splitOn '\n' = [] :: cs.splitOn '\n' := by
  rw [List.splitOn_cons_eq_if_modifyHead, if_pos (by simp)]

/-- The parts between line feeds, each with a line end, give the text with a line end. -/
theorem join_splitOn (cs : List Char) :
    String.join ((cs.splitOn '\n').map fun part => String.ofList part ++ "\n") =
      String.ofList cs ++ "\n" := by
  induction cs with
  | nil => rfl
  | cons c cs ih =>
      by_cases hc : c = '\n'
      · subst hc
        simp [splitOn_cons_newline, ih, String.ofList_cons, String.append_assoc]
      · obtain ⟨first, rest, hparts, hcons⟩ := splitOn_cons_ne hc cs
        rw [hparts, List.map_cons, String.join_cons, String.append_assoc] at ih
        rw [hcons, List.map_cons, String.join_cons, String.ofList_cons, String.ofList_cons,
          String.append_assoc, String.append_assoc, ih, String.append_assoc]

theorem newline_not_mem_splitOn {cs part : List Char} (h : part ∈ cs.splitOn '\n') :
    '\n' ∉ part := by
  induction cs generalizing part with
  | nil => simp_all
  | cons c cs ih =>
      by_cases hc : c = '\n'
      · subst hc
        rw [splitOn_cons_newline] at h
        rcases List.mem_cons.mp h with rfl | h
        · exact List.not_mem_nil
        · exact ih h
      · obtain ⟨first, rest, hparts, hcons⟩ := splitOn_cons_ne hc cs
        rw [hcons] at h
        rw [hparts] at ih
        rcases List.mem_cons.mp h with rfl | h
        · have hfirst := ih List.mem_cons_self
          simp [hfirst, Ne.symm hc]
        · exact ih (List.mem_cons_of_mem _ h)

/-- A line is written as its rows. -/
theorem render_ofLine (unit : String) (depth : Nat) (text : String) :
    render unit (ofLine depth text) = CodeWriter.lineText unit depth text := by
  unfold ofLine CodeWriter.lineText
  split
  · simp [render, line]
  · have hjoin := join_splitOn text.toList
    cases hparts : text.toList.splitOn '\n' with
    | nil => exact absurd hparts (List.splitOn_ne_nil _ _)
    | cons first rest =>
        have hrest : (rest.map fun part => Row.mk 0 (String.ofList part)).map (line unit) =
            rest.map fun part => String.ofList part ++ "\n" := by
          simp [line]
        rw [hparts, List.map_cons, String.join_cons, String.ofList_toList, String.append_assoc]
          at hjoin
        rw [render_cons, render, hrest, line, copies_eq_join, String.append_assoc,
          String.append_assoc, hjoin, String.append_assoc]

theorem unbroken_ofLine (depth : Nat) (text : String) : Unbroken (ofLine depth text) := by
  unfold ofLine
  split
  · simp [Unbroken]
  · cases hparts : text.toList.splitOn '\n' with
    | nil => exact fun _ hr => by cases hr
    | cons first rest =>
        have hpart : ∀ part ∈ first :: rest, '\n' ∉ part := fun part hmem =>
          newline_not_mem_splitOn (hparts ▸ hmem)
        intro r hr
        rcases List.mem_cons.mp hr with rfl | hr
        · simpa using hpart first List.mem_cons_self
        · obtain ⟨part, hmem, rfl⟩ := List.mem_map.mp hr
          simpa using hpart part (List.mem_cons_of_mem _ hmem)

/-! ### Lines as they are read again -/

theorem closeLine_append {before : List Char} (hcarriage : '\r' ∉ before) (cs : List Char) :
    Text.closeLine (cs.reverse ++ before.reverse) = before ++ Text.closeLine cs.reverse := by
  cases hcs : cs.reverse with
  | nil =>
      cases hbefore : before.reverse with
      | nil => simp_all [Text.closeLine]
      | cons c rest =>
          have hc : c ≠ '\r' := by
            rintro rfl
            exact hcarriage (List.mem_reverse.mp (hbefore ▸ List.mem_cons_self))
          have hbefore : before = (c :: rest).reverse := by simp [← hbefore]
          simp [Text.closeLine, hc, hbefore]
  | cons c rest => by_cases hc : c = '\r' <;> simp [Text.closeLine, hc]

theorem lines_line (hunit : Text.Inline unit) {r : Row} (hr : '\n' ∉ r.text.toList) :
    Text.lines (r.line unit) = [CodeWriter.copies unit r.depth ++ uncarried r.text] := by
  have htext : (r.line unit).toList =
      ((CodeWriter.copies unit r.depth).toList ++ r.text.toList) ++ ['\n'] := by
    simp [line_eq]
  have hnewline : '\n' ∉ (CodeWriter.copies unit r.depth).toList ++ r.text.toList := by
    simp [not_mem_copies hunit.newline, hr]
  rw [Text.lines, htext, Text.linesFrom_of_oneLine hnewline, List.append_nil, List.reverse_append,
    closeLine_append (not_mem_copies hunit.carriage _)]
  simp [uncarried]

/-- The lines of a text are its rows behind their indentation. -/
theorem lines_render (hunit : Text.Inline unit) (h : Unbroken rows) :
    Text.lines (render unit rows) =
      rows.map fun r => CodeWriter.copies unit r.depth ++ uncarried r.text := by
  induction rows with
  | nil => rfl
  | cons r rows ih =>
      have hrest := ih fun r' hr' => h r' (List.mem_cons_of_mem _ hr')
      have hcomplete : Text.Complete (r.line unit) := Text.complete_line _
      rw [render_cons, Text.lines_append hcomplete, lines_line hunit (h r List.mem_cons_self), hrest]
      rfl

/-- A line that is read again and written at a depth is its row moved deeper.  With an empty unit an
empty row has nothing in front of it, however deep it is. -/
theorem lineText_eq_relined (unit : String) (depth : Nat) (r : Row) :
    CodeWriter.lineText unit depth (CodeWriter.copies unit r.depth ++ uncarried r.text) =
      (r.relined depth).line unit := by
  unfold relined CodeWriter.lineText
  by_cases hempty : r.depth = 0 ∧ uncarried r.text = ""
  · simp [hempty, line_eq, CodeWriter.copies]
  · rw [if_neg hempty, line_eq, copies_add]
    split
    · rename_i hnone
      obtain ⟨hcopies, htext⟩ := String.append_eq_empty_iff.mp (String.isEmpty_iff.mp hnone)
      have hdepth : r.depth ≠ 0 := fun h => hempty ⟨h, htext⟩
      have hunit : unit = "" := (copies_eq_empty_iff.mp hcopies).resolve_left hdepth
      have hnothing : CodeWriter.copies unit depth = "" := copies_eq_empty_iff.mpr (.inr hunit)
      simp [hcopies, htext, hnothing]
    · simp [String.append_assoc]

theorem mem_of_mem_closeLine {c : Char} {pending : List Char} (h : c ∈ Text.closeLine pending) :
    c ∈ pending := by
  unfold Text.closeLine at h
  split at h
  · exact List.mem_cons_of_mem _ (List.mem_reverse.mp h)
  · exact List.mem_reverse.mp h

theorem unbroken_relined (depth : Nat) (h : Unbroken rows) :
    Unbroken (rows.map (relined depth)) := by
  intro r hr hnewline
  obtain ⟨r, hmem, rfl⟩ := List.mem_map.mp hr
  unfold relined at hnewline
  split at hnewline
  · simp at hnewline
  · rw [uncarried, String.toList_ofList] at hnewline
    exact h r hmem (List.mem_reverse.mp (mem_of_mem_closeLine hnewline))

end Row

/-! ### Steps and trees -/

namespace Mark

mutual

/-- The rows of one step at a depth. -/
def rows (depth : Nat) : Mark → List Row
  | .line text => Row.ofLine depth text
  | .indent | .dedent => []
  | .relined body => (rowsAll 0 body).map (Row.relined depth)

/-- The rows of steps in turn, from a depth on. -/
def rowsAll (depth : Nat) : List Mark → List Row
  | [] => []
  | m :: ms => rows depth m ++ rowsAll (depthAfter depth [m]) ms

end

mutual

theorem unbroken_rows (depth : Nat) : (m : Mark) → Row.Unbroken (rows depth m)
  | .line text => Row.unbroken_ofLine depth text
  | .indent | .dedent => fun _ hr => by cases hr
  | .relined body => Row.unbroken_relined depth (unbroken_rowsAll 0 body)

theorem unbroken_rowsAll (depth : Nat) : (ms : List Mark) → Row.Unbroken (rowsAll depth ms)
  | [] => fun _ hr => by cases hr
  | m :: ms => (unbroken_rows depth m).append (unbroken_rowsAll _ ms)

end

variable {unit : String}

mutual

theorem textAt_singleton_eq_render (hunit : Text.Inline unit) (depth : Nat) :
    (m : Mark) → textAt unit depth [m] = Row.render unit (rows depth m)
  | .line text => by rw [textAt_line, rows, Row.render_ofLine]
  | .indent | .dedent => rfl
  | .relined body => by
      -- The inner text is that of its own rows, and its lines are read off them.
      have hbody : render unit body = Row.render unit (rowsAll 0 body) :=
        textAt_eq_render hunit 0 body
      have hlines := Row.lines_render hunit (unbroken_rowsAll 0 body)
      rw [textAt_relined, hbody, hlines, rows, Row.render, List.map_map, List.map_map]
      congr 2
      funext r
      exact Row.lineText_eq_relined unit depth r

/-- **The text of steps is the text of their rows**, whatever the unit of indentation. -/
theorem textAt_eq_render (hunit : Text.Inline unit) (depth : Nat) :
    (ms : List Mark) → textAt unit depth ms = Row.render unit (rowsAll depth ms)
  | [] => rfl
  | m :: ms => by
      rw [← List.singleton_append, textAt_append, textAt_singleton_eq_render hunit depth m,
        textAt_eq_render hunit _ ms, List.singleton_append, rowsAll, Row.render_append]

end

end Mark

/-- The rows of pieces of source. -/
def Code.rows (body : List Code) : List Row := Mark.rowsAll 0 (Code.marksAll body)

theorem Code.render_eq {unit : String} (hunit : Text.Inline unit) (body : List Code) :
    Code.render unit body = Row.render unit (Code.rows body) :=
  Mark.textAt_eq_render hunit 0 _

/-! ### Units and packages -/

/-- The rows of a unit's declaration and, for a class, of its implementation. -/
structure UnitLayout where
  declaration : List Row
  implementation : Option (List Row)
  deriving DecidableEq, Repr, Inhabited

/-- No row goes over the end of its line. -/
structure UnitLayout.Unbroken (l : UnitLayout) : Prop where
  declaration : Row.Unbroken l.declaration
  implementation : ∀ rows ∈ l.implementation, Row.Unbroken rows

/-- The unit with its texts set in a layout, and all else as it is. -/
def CompiledUnit.setIn (l : UnitLayout) (unit : String) (c : CompiledUnit) : CompiledUnit :=
  { output :=
      { name := c.output.name
        declaration := Row.render unit l.declaration
        implementation := l.implementation.map (Row.render unit)
        dependencies := c.output.dependencies }
    diagnostics := c.diagnostics }

/-- The rows of a unit's source. -/
def UnitSource.layout (s : UnitSource) : UnitLayout :=
  ⟨Code.rows s.declaration, s.implementation.map Code.rows⟩

theorem UnitSource.unbroken_layout (s : UnitSource) : s.layout.Unbroken where
  declaration := Mark.unbroken_rowsAll 0 _
  implementation := by
    intro rows hrows
    obtain ⟨body, -, rfl⟩ := Option.map_eq_some_iff.mp hrows
    exact Mark.unbroken_rowsAll 0 _

theorem UnitSource.render_eq (s : UnitSource) {unit : String} (hunit : Text.Inline unit) :
    s.render unit =
      { name := s.name
        declaration := Row.render unit s.layout.declaration
        implementation := s.layout.implementation.map (Row.render unit)
        dependencies := s.dependencies } := by
  have hcode : Code.render unit = Row.render unit ∘ Code.rows := funext (Code.render_eq hunit)
  simp [UnitSource.render, layout, hcode]

namespace Package

variable {p : Package} {options : CompileOptions}

/-- A unit that compiles has a layout, in which it is set with every unit of indentation. -/
theorem exists_layout {u : ScriptUnit} {c : CompiledUnit} (h : p.compileScript options u = .ok c) :
    ∃ l : UnitLayout, l.Unbroken ∧ ∀ unit, Text.Inline unit →
      p.compileScript { options with indent := unit } u = .ok (c.setIn l unit) := by
  obtain ⟨name, hname, h⟩ := Lookup.of_bind_ok h
  obtain ⟨⟨source, sink⟩, hemit, h⟩ := Lookup.of_bind_ok h
  refine ⟨source.layout, source.unbroken_layout, fun unit hunit => ?_⟩
  rw [compileScript, Lookup.bind_of_ok hname, Lookup.bind_of_ok hemit]
  dsimp only at h ⊢
  rw [source.render_eq hunit]
  -- Whether the run stops at a fatal diagnostic is not decided by the unit of indentation.
  cases hfatal : sink.diagnostics.find? (·.isFatal) with
  | none =>
      rw [hfatal] at h
      cases h
      rfl
  | some d =>
      rw [hfatal] at h
      cases hasked : options.failOnFatal with
      | true =>
          simp only [hasked] at h
          cases h
      | false =>
          simp only [hasked] at h
          cases h
          rfl

/-- Units that compile in turn have their layouts. -/
theorem exists_layouts {units : List ScriptUnit} {errors : Nat} {cs : List CompiledUnit}
    (h : p.compileFrom options errors units = .ok cs) :
    ∃ ls : List UnitLayout, ls.length = cs.length ∧ (∀ l ∈ ls, l.Unbroken) ∧
      ∀ unit, Text.Inline unit → p.compileFrom { options with indent := unit } errors units =
        .ok (List.zipWith (fun l c => c.setIn l unit) ls cs) := by
  induction units generalizing errors cs with
  | nil =>
      cases h
      exact ⟨[], rfl, List.forall_mem_nil _, fun _ _ => rfl⟩
  | cons u units ih =>
      rw [compileFrom] at h
      obtain ⟨c, hc, h⟩ := Lookup.of_bind_ok h
      obtain ⟨⟨⟩, hlimit, h⟩ := Lookup.of_bind_ok h
      obtain ⟨rest, hrest, h⟩ := Lookup.of_bind_ok h
      cases h
      obtain ⟨l, hl, hset⟩ := exists_layout hc
      obtain ⟨ls, hlength, hls, hsets⟩ := ih hrest
      refine ⟨l :: ls, by simp [hlength], by simpa using ⟨hl, hls⟩, fun unit hunit => ?_⟩
      rw [compileFrom, Lookup.bind_of_ok (hset unit hunit)]
      refine (Lookup.bind_of_ok hlimit _).trans ?_
      refine (Lookup.bind_of_ok (hsets unit hunit) _).trans ?_
      rfl

/-- **Indentation is presentation.**  A unit that compiles has rows for its declaration and its
implementation, and with every unit of indentation that holds no line end it compiles to the text of
these rows; its name, its dependencies and what is reported stay the same.  So it is with all the
units of a package that compiles. -/
theorem indentation_presented (p : Package) (options : CompileOptions) :
    (∀ name c, p.compileUnit name options = .ok c →
      ∃ l : UnitLayout, l.Unbroken ∧ ∀ unit, Text.Inline unit →
        p.compileUnit name { options with indent := unit } = .ok (c.setIn l unit)) ∧
    ∀ c, p.compile options = .ok c →
      ∃ ls : List UnitLayout, ls.length = c.units.length ∧ (∀ l ∈ ls, l.Unbroken) ∧
        ∀ unit, Text.Inline unit → p.compile { options with indent := unit } =
          .ok ⟨List.zipWith (fun l c => c.setIn l unit) ls c.units⟩ := by
  constructor
  · intro name c h
    obtain ⟨found, hfound, h⟩ := Lookup.of_bind_ok h
    cases found with
    | none => cases h
    | some u =>
        obtain ⟨l, hl, hset⟩ := exists_layout h
        refine ⟨l, hl, fun unit hunit => ?_⟩
        rw [compileUnit, Lookup.bind_of_ok hfound]
        exact hset unit hunit
  · intro c h
    obtain ⟨cs, hcs, h⟩ := Lookup.of_bind_ok h
    cases h
    obtain ⟨ls, hlength, hls, hsets⟩ := exists_layouts hcs
    refine ⟨ls, hlength, hls, fun unit hunit => ?_⟩
    rw [compile, hsets unit hunit]
    rfl

/-! ### A lamp -/

/-- A class with a function whose only statement is a comment of three lines, the second empty, in a
case of its own. -/
def lampPackage : Package :=
  let world := (World.build [.addClass "Lamp" none, .addFunction ⟨0⟩ "Blink"]).toOption.getD {}
  ⟨world.schema, world.objects, [⟨⟨0⟩, [{
    name := "Blink"
    function := ⟨0⟩
    statements := #[{ kind := .comment "on\r\n\r\noff", isJumpTarget := true }]
    nodes := [[⟨0⟩]] }]⟩]⟩

/-- The lamp, with no indentation at all and with one that can be seen. -/
theorem indentation_presented_lamp : Text.Inline "" ∧ Text.Inline "> " ∧ ∃ c l ls,
    lampPackage.compileUnit "Lamp" {} = .ok c ∧ l.Unbroken ∧
    lampPackage.compileUnit "Lamp" { indent := "" } = .ok (c.setIn l "") ∧
    lampPackage.compileUnit "Lamp" { indent := "> " } = .ok (c.setIn l "> ") ∧
    lampPackage.compile {} = .ok ⟨[c]⟩ ∧
    lampPackage.compile { indent := "> " } =
      .ok ⟨List.zipWith (fun l c => c.setIn l "> ") ls [c]⟩ := by
  have hnone : Text.Inline "" := ⟨by decide, by decide⟩
  have hseen : Text.Inline "> " := ⟨by decide, by decide⟩
  have hunit : lampPackage.compileUnit "Lamp" {} = .ok _ := rfl
  have hpackage : lampPackage.compile {} = .ok ⟨[_]⟩ := rfl
  obtain ⟨l, hl, hset⟩ := (indentation_presented lampPackage {}).1 _ _ hunit
  obtain ⟨ls, -, -, hsets⟩ := (indentation_presented lampPackage {}).2 _ hpackage
  exact ⟨hnone, hseen, _, l, ls, hunit, hl, hset "" hnone, hset "> " hseen, hpackage,
    hsets "> " hseen⟩

/-- The rows of its comment in the definition. -/
example : Mark.rowsAll 1 [.relined [.indent, .indent, .indent, .line "// on\r\n\r\noff"]] =
    [⟨4, "// on"⟩, ⟨0, ""⟩, ⟨1, "off"⟩] := by decide +kernel

end Package

end GraphLowering
