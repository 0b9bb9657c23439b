import GraphLowering.Dispatch.Body

/-!
# Code — the text of steps

What steps add to the text of a writer depends on the unit of indentation and on the depth they
start from alone (`Mark.textAt`), so the text of steps in turn is a concatenation
(`Mark.textAt_append`).  A tree of source comes back to the depth it started from
(`Code.depthAfter_marksAll`), and so does the beginning of a case; hence every chunk of a body is
written at one depth.

* `Body.render_eq`: the text of a body is its opening, the texts of its chunks and its closing.
-/

namespace GraphLowering

namespace CodeWriter

/-- A line behind the indentation of a depth. -/
def lineText (unit : String) (depth : Nat) (text : String) : String :=
  if text.isEmpty then "\n" else copies unit depth ++ text ++ "\n"

theorem line_eq (w : CodeWriter) (text : String) :
    w.line text = { w with output := w.output ++ lineText w.indentUnit w.depth text } := by
  unfold line lineText
  split <;> simp [String.append_assoc]

theorem foldl_line (ls : List String) (w : CodeWriter) : ls.foldl line w =
    { w with output := w.output ++ String.join (ls.map (lineText w.indentUnit w.depth)) } := by
  induction ls generalizing w with
  | nil => simp
  | cons l ls ih =>
      rw [List.foldl_cons, ih, line_eq]
      simp [String.append_assoc]

end CodeWriter

namespace Mark

/-- The depth behind steps. -/
def depthAfter : Nat → List Mark → Nat
  | depth, [] => depth
  | depth, .indent :: ms => depthAfter (depth + 1) ms
  | depth, .dedent :: ms => depthAfter (depth - 1) ms
  | depth, .line _ :: ms | depth, .relined _ :: ms => depthAfter depth ms

/-- The text that steps write from a depth on. -/
def textAt (unit : String) (depth : Nat) (ms : List Mark) : String :=
  (writeAll { indentUnit := unit, depth } ms).output

theorem depthAfter_append (depth : Nat) (ms ns : List Mark) :
    depthAfter depth (ms ++ ns) = depthAfter (depthAfter depth ms) ns := by
  induction ms generalizing depth with
  | nil => rfl
  | cons m ms ih => cases m <;> exact ih _

/-- One step adds a text of its own. -/
theorem write_eq (w : CodeWriter) (m : Mark) : write w m =
    { w with
      depth := depthAfter w.depth [m]
      output := w.output ++ textAt w.indentUnit w.depth [m] } := by
  cases m with
  | line text =>
      simp only [textAt, writeAll, write, CodeWriter.line_eq]
      simp [depthAfter]
  | relined body =>
      simp only [textAt, writeAll, write, CodeWriter.lines, CodeWriter.foldl_line]
      simp [depthAfter]
  | indent | dedent =>
      simp [textAt, writeAll, write, CodeWriter.indent, CodeWriter.dedent, depthAfter]

theorem writeAll_eq (w : CodeWriter) (ms : List Mark) : writeAll w ms =
    { w with
      depth := depthAfter w.depth ms
      output := w.output ++ textAt w.indentUnit w.depth ms } := by
  induction ms generalizing w with
  | nil => simp [writeAll, textAt, depthAfter]
  | cons m ms ih =>
      have hdepth : depthAfter w.depth (m :: ms) = depthAfter (depthAfter w.depth [m]) ms :=
        depthAfter_append w.depth [m] ms
      rw [writeAll, ih, write_eq, hdepth]
      simp only [textAt, writeAll]
      rw [ih (write _ m), write_eq]
      simp [textAt, writeAll, String.append_assoc]

@[simp] theorem textAt_nil (unit : String) (depth : Nat) : textAt unit depth [] = "" := rfl

theorem writeAll_append (w : CodeWriter) (ms ns : List Mark) :
    writeAll w (ms ++ ns) = writeAll (writeAll w ms) ns := by
  induction ms generalizing w with
  | nil => rfl
  | cons m ms ih => exact ih _

/-- **The text of steps in turn is a concatenation.** -/
theorem textAt_append (unit : String) (depth : Nat) (ms ns : List Mark) :
    textAt unit depth (ms ++ ns) =
      textAt unit depth ms ++ textAt unit (depthAfter depth ms) ns := by
  change (writeAll { indentUnit := unit, depth } (ms ++ ns)).output = _
  rw [writeAll_append, writeAll_eq _ ms, writeAll_eq]
  simp

/-- The text of parts that leave the depth as it is. -/
theorem textAt_flatMap {α : Type} {f : α → List Mark} (unit : String) {depth : Nat} {xs : List α}
    (hf : ∀ a ∈ xs, depthAfter depth (f a) = depth) :
    depthAfter depth (xs.flatMap f) = depth ∧
      textAt unit depth (xs.flatMap f) = String.join (xs.map fun a => textAt unit depth (f a)) := by
  induction xs with
  | nil => exact ⟨rfl, rfl⟩
  | cons a xs ih =>
      obtain ⟨hdepth, htext⟩ := ih fun b hb => hf b (List.mem_cons_of_mem _ hb)
      rw [List.flatMap_cons, depthAfter_append, textAt_append, hf a List.mem_cons_self]
      exact ⟨hdepth, by rw [htext, List.map_cons, String.join_cons]⟩

end Mark

namespace Code

open Mark

mutual

/-- A piece of source comes back to the depth it started from. -/
theorem depthAfter_marks (depth : Nat) : (c : Code) → depthAfter depth c.marks = depth
  | .line _ | .relined _ => rfl
  | .nested body => by
      have hbody := depthAfter_marksAll (depth + 1) body
      simp [marks, depthAfter, depthAfter_append, hbody]
  | .guarded checks body => by
      have hbody := depthAfter_marksAll (depth + 1) body
      simp [marks, depthAfter, depthAfter_append, hbody]

theorem depthAfter_marksAll (depth : Nat) :
    (cs : List Code) → depthAfter depth (marksAll cs) = depth
  | [] => rfl
  | c :: cs => by
      rw [marksAll, depthAfter_append, depthAfter_marks depth c, depthAfter_marksAll depth cs]

end

/-- The text of pieces of source at a depth. -/
def textAt (unit : String) (depth : Nat) (cs : List Code) : String :=
  Mark.textAt unit depth (marksAll cs)

end Code

namespace Dispatch

/-- What opens the case of a chunk. -/
def Chunk.opening (c : Chunk) : List Mark :=
  match c.label with
  | some state => beginCase state
  | none => []

namespace Body

/-- The steps before the first chunk. -/
def opening (b : Body) : List Mark := if b.isLoop then openLoop b.usesFlowStack else []

/-- The steps behind the last chunk. -/
def closing (b : Body) : List Mark := if b.isLoop then closeLoop b.usesFlowStack else []

/-- The depth that the chunks are written at. -/
def depth (b : Body) : Nat := Mark.depthAfter 0 b.opening

/-- What stands before the chunks of a body, with a given unit of indentation. -/
def openingText (unit : String) (b : Body) : String := Mark.textAt unit 0 b.opening

/-- What stands behind the chunks of a body. -/
def closingText (unit : String) (b : Body) : String := Mark.textAt unit b.depth b.closing

/-- The text between the code of the chunk before and that of this one. -/
def caseText (unit : String) (b : Body) (c : Chunk) : String := Mark.textAt unit b.depth c.opening

/-- The text of a chunk's own code. -/
def codeText (unit : String) (b : Body) (c : Chunk) : String :=
  Code.textAt unit b.depth c.action.code

theorem marks_eq (b : Body) : b.marks = b.opening ++ b.chunks.flatMap Chunk.marks ++ b.closing := by
  unfold marks opening closing
  split <;> simp

theorem depth_eq (b : Body) : b.depth = if b.isLoop then 3 else 0 := by
  unfold depth opening
  split
  · cases b.usesFlowStack <;> rfl
  · rfl

/-- The beginning of a case ends at the depth of the case before. -/
theorem depthAfter_opening {b : Body} {c : Chunk} (hc : b.isLoop = false → c.label = none) :
    Mark.depthAfter b.depth c.opening = b.depth := by
  unfold Chunk.opening
  cases hl : c.label with
  | none => rfl
  | some state =>
      cases hloop : b.isLoop with
      | false => rw [hc hloop] at hl; cases hl
      | true => rw [depth_eq, if_pos hloop]; rfl

/-- **The text of a body** is its opening, the texts of its chunks, each behind what opens its
case, and its closing. -/
theorem render_eq (unit : String) {b : Body}
    (hb : b.isLoop = false → ∀ c ∈ b.chunks, c.label = none) : b.render unit =
      b.openingText unit ++
        String.join (b.chunks.map fun c => b.caseText unit c ++ b.codeText unit c) ++
        b.closingText unit := by
  have hchunk : ∀ c ∈ b.chunks, Mark.depthAfter b.depth c.marks = b.depth ∧
      Mark.textAt unit b.depth c.marks = b.caseText unit c ++ b.codeText unit c := by
    intro c hc
    have hopening := depthAfter_opening fun h => hb h c hc
    change Mark.depthAfter _ (c.opening ++ _) = _ ∧ Mark.textAt _ _ (c.opening ++ _) = _
    rw [Mark.depthAfter_append, Mark.textAt_append, hopening]
    exact ⟨Code.depthAfter_marksAll _ _, rfl⟩
  obtain ⟨hdepth, htext⟩ := Mark.textAt_flatMap unit fun c hc => (hchunk c hc).1
  change Mark.textAt unit 0 b.marks = _
  rw [marks_eq, Mark.textAt_append, Mark.textAt_append, Mark.depthAfter_append]
  change _ ++ Mark.textAt unit b.depth _ ++ Mark.textAt unit (Mark.depthAfter b.depth _) _ = _
  rw [hdepth, htext, List.map_congr_left fun c hc => (hchunk c hc).2]
  rfl

end Body
end Dispatch
end GraphLowering
