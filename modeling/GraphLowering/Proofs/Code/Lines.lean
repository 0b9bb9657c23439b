import GraphLowering.Proofs.Code.Texts
import Mathlib.Data.List.Forall2

/-!
# Code — lines in the text

A line that is written stands in the text behind its indentation.  It stays at the end of a line
whatever the unit of indentation holds, and when a finished text is cut into lines and written
again inside another (`Mark.relined`).

* `Text.EndsLines`: given texts stand at the ends of lines of a text, in order.
* `Text.lines_append`: the lines of a concatenation, behind a complete line.
* `Mark.Shows`, `Code.Shows`: what steps and trees of source show, at any depth.
-/

namespace GraphLowering

namespace Text

/-! ### Lines -/

/-- The text ends where a line ends. -/
def Complete (text : String) : Prop := text = "" ∨ ∃ init, text = init ++ "\n"

theorem complete_empty : Complete "" := .inl rfl

theorem complete_line (text : String) : Complete (text ++ "\n") := .inr ⟨text, rfl⟩

theorem Complete.append {a b : String} (ha : Complete a) (hb : Complete b) :
    Complete (a ++ b) := by
  rcases hb with rfl | ⟨init, rfl⟩
  · simpa using ha
  · exact .inr ⟨a ++ init, by rw [String.append_assoc]⟩

theorem complete_join {ts : List String} (h : ∀ t ∈ ts, Complete t) :
    Complete (String.join ts) := by
  induction ts with
  | nil => exact complete_empty
  | cons t ts ih =>
      rw [String.join_cons]
      exact (h t List.mem_cons_self).append (ih fun u hu => h u (List.mem_cons_of_mem _ hu))

theorem complete_lineText (unit : String) (depth : Nat) (text : String) :
    Complete (CodeWriter.lineText unit depth text) := by
  unfold CodeWriter.lineText
  split
  · exact complete_line ""
  · exact complete_line _

/-- Behind a line feed the lines start anew. -/
theorem linesFrom_newline (pending cs ds : List Char) : linesFrom pending (cs ++ '\n' :: ds) =
    linesFrom pending (cs ++ ['\n']) ++ linesFrom [] ds := by
  induction cs generalizing pending with
  | nil => simp [linesFrom]
  | cons c cs ih =>
      by_cases hc : c = '\n'
      · subst hc
        simp [linesFrom, ih]
      · simp [linesFrom, ih]

/-- **The lines of a concatenation**, if a line ends between the parts. -/
theorem lines_append {a : String} (ha : Complete a) (b : String) :
    lines (a ++ b) = lines a ++ lines b := by
  rcases ha with rfl | ⟨init, rfl⟩
  · simp [lines, linesFrom]
  · unfold lines
    rw [String.toList_append, String.toList_append, ← List.map_append]
    congr 1
    simpa using linesFrom_newline [] init.toList b.toList

/-- The characters before a line give whole lines and the beginning of that line. -/
theorem linesFrom_append (pending cs ds : List Char) :
    ∃ whole start, linesFrom pending (cs ++ ds) = whole ++ linesFrom start ds := by
  induction cs generalizing pending with
  | nil => exact ⟨[], pending, rfl⟩
  | cons c cs ih =>
      by_cases hc : c = '\n'
      · subst hc
        obtain ⟨whole, start, h⟩ := ih []
        exact ⟨closeLine pending :: whole, start, by simp [linesFrom, h]⟩
      · obtain ⟨whole, start, h⟩ := ih (c :: pending)
        exact ⟨whole, start, by simp [linesFrom, h]⟩

/-- Nothing in the text ends a line, and nothing at its end is part of a line end. -/
structure OneLine (text : String) : Prop where
  newline : '\n' ∉ text.toList
  carriage : text.toList.getLast? ≠ some '\r'

theorem linesFrom_of_oneLine {cs : List Char} (hn : '\n' ∉ cs) (pending : List Char) :
    linesFrom pending (cs ++ ['\n']) = [closeLine (cs.reverse ++ pending)] := by
  induction cs generalizing pending with
  | nil => simp [linesFrom]
  | cons c cs ih =>
      have hc : c ≠ '\n' := fun h => hn (h ▸ List.mem_cons_self)
      have hcs : '\n' ∉ cs := fun h => hn (List.mem_cons_of_mem _ h)
      simp [linesFrom, ih hcs]

theorem suffix_closeLine {cs : List Char} (hr : cs.getLast? ≠ some '\r') (pending : List Char) :
    cs <:+ closeLine (cs.reverse ++ pending) := by
  cases hcs : cs.reverse with
  | nil =>
      rw [List.reverse_eq_nil_iff.mp hcs]
      exact List.nil_suffix
  | cons c rest =>
      have hlast : c ≠ '\r' := by
        rintro rfl
        rw [← List.head?_reverse, hcs] at hr
        exact hr rfl
      have hcs : cs = (c :: rest).reverse := by rw [← hcs, List.reverse_reverse]
      have hclose : closeLine (c :: rest ++ pending) = (c :: rest ++ pending).reverse := by
        unfold closeLine
        split
        · rename_i heq
          exact absurd (List.cons.inj heq).1 hlast
        · rfl
      rw [hclose, hcs, List.reverse_append]
      exact List.suffix_append _ _

/-! ### Ends of lines -/

/-- Lines of the text end in the given texts, in order. -/
def EndsLines (ends : List String) (text : String) : Prop :=
  List.SublistForall₂ (fun e line => e.toList <:+ line.toList) ends (lines text)

namespace EndsLines

variable {es fs : List String} {a b : String}

theorem nil (text : String) : EndsLines [] text := List.SublistForall₂.nil

theorem append (h : EndsLines es a) (ha : Complete a) (h' : EndsLines fs b) :
    EndsLines (es ++ fs) (a ++ b) := by
  obtain ⟨ls, hls, hsub⟩ := List.sublistForall₂_iff.mp h
  obtain ⟨ms, hms, hsub'⟩ := List.sublistForall₂_iff.mp h'
  refine List.sublistForall₂_iff.mpr ⟨ls ++ ms, List.rel_append hls hms, ?_⟩
  rw [lines_append ha]
  exact hsub.append hsub'

/-- A line ends in what stands at its end, whatever comes before. -/
theorem line {e : String} (he : OneLine e) (start : String) :
    EndsLines [e] (start ++ e ++ "\n") := by
  obtain ⟨whole, pending, hlines⟩ :=
    linesFrom_append [] start.toList (e.toList ++ ['\n'])
  rw [linesFrom_of_oneLine he.newline] at hlines
  have hends := suffix_closeLine he.carriage pending
  refine List.sublistForall₂_iff.mpr
    ⟨[String.ofList (closeLine (e.toList.reverse ++ pending))], .cons ?_ .nil, ?_⟩
  · rwa [String.toList_ofList]
  · have htext : (start ++ e ++ "\n").toList = start.toList ++ (e.toList ++ ['\n']) := by simp
    rw [lines, htext, hlines, List.map_append]
    exact List.sublist_append_right _ _

/-- Lines that are written again keep their ends. -/
theorem relined (hes : ∀ e ∈ es, OneLine e) (h : EndsLines es a) (unit : String) (depth : Nat) :
    EndsLines es (String.join ((lines a).map (CodeWriter.lineText unit depth))) := by
  unfold EndsLines at h
  generalize lines a = ls at h
  induction h with
  | nil => exact .nil _
  | @cons e l es ls hel _ ih =>
      have hline : EndsLines [e] (CodeWriter.lineText unit depth l) := by
        obtain ⟨start, hstart⟩ := hel
        have hl : l = String.ofList start ++ e := by
          rw [← String.toList_inj, ← hstart]
          simp
        unfold CodeWriter.lineText
        split
        · rename_i hempty
          have he : e = "" := by
            rw [String.isEmpty_iff.mp hempty] at hstart
            rw [← String.toList_inj]
            exact (List.append_eq_nil_iff.mp hstart).2
          have hline := line (hes e List.mem_cons_self) ""
          simpa [he] using hline
        · rw [hl, ← String.append_assoc]
          exact line (hes e List.mem_cons_self) _
      rw [List.map_cons, String.join_cons]
      have hrest := ih fun f hf => hes f (List.mem_cons_of_mem _ hf)
      exact hline.append (complete_lineText unit depth l) hrest
  | cons_right _ ih =>
      rw [List.map_cons, String.join_cons]
      exact (EndsLines.nil _).append (complete_lineText unit depth _) (ih hes)

end EndsLines
end Text

open Text

/-! ### Steps -/

namespace Mark

variable {unit : String} {es fs : List String} {ms ns : List Mark}

theorem textAt_line (unit : String) (depth : Nat) (text : String) :
    textAt unit depth [.line text] = CodeWriter.lineText unit depth text := by
  simp [textAt, writeAll, write, CodeWriter.line_eq]

theorem textAt_relined (unit : String) (depth : Nat) (body : List Mark) :
    textAt unit depth [.relined body] =
      String.join ((lines (render unit body)).map (CodeWriter.lineText unit depth)) := by
  simp [textAt, writeAll, write, CodeWriter.lines, CodeWriter.foldl_line, render]

/-- Every text that is written ends where a line ends. -/
theorem complete_textAt (unit : String) (depth : Nat) (ms : List Mark) :
    Complete (textAt unit depth ms) := by
  induction ms generalizing depth with
  | nil => exact complete_empty
  | cons m ms ih =>
      have hone : Complete (textAt unit depth [m]) := by
        cases m with
        | line text => rw [textAt_line]; exact complete_lineText unit depth text
        | relined body =>
            rw [textAt_relined]
            refine complete_join fun t ht => ?_
            obtain ⟨l, -, rfl⟩ := List.mem_map.mp ht
            exact complete_lineText unit depth l
        | indent | dedent => exact complete_empty
      rw [← List.singleton_append, textAt_append]
      exact hone.append (ih _)

/-- At any depth, lines of what the steps write end in the given texts, in order. -/
def Shows (unit : String) (es : List String) (ms : List Mark) : Prop :=
  ∀ depth, EndsLines es (textAt unit depth ms)

namespace Shows

theorem nil (ms : List Mark) : Shows unit [] ms := fun _ => .nil _

theorem append (h : Shows unit es ms) (h' : Shows unit fs ns) :
    Shows unit (es ++ fs) (ms ++ ns) := by
  intro depth
  rw [textAt_append]
  exact (h depth).append (complete_textAt unit depth ms) (h' _)

/-- What other steps come before and after does not matter. -/
theorem between (h : Shows unit es ms) (before after : List Mark) :
    Shows unit es (before ++ ms ++ after) := by
  simpa using ((nil before).append h).append (nil after)

theorem line {e : String} (he : OneLine e) : Shows unit [e] [.line e] := by
  intro depth
  rw [textAt_line]
  unfold CodeWriter.lineText
  split
  · rename_i hempty
    have hline := EndsLines.line he ""
    simpa [String.isEmpty_iff.mp hempty] using hline
  · exact .line he _

theorem relined (hes : ∀ e ∈ es, OneLine e) (h : Shows unit es ms) :
    Shows unit es [.relined ms] := by
  intro depth
  rw [textAt_relined]
  exact (h 0).relined hes unit depth

theorem flatMap {α : Type} {f : α → List String} {g : α → List Mark} {xs : List α}
    (h : ∀ x ∈ xs, Shows unit (f x) (g x)) : Shows unit (xs.flatMap f) (xs.flatMap g) := by
  induction xs with
  | nil => exact nil _
  | cons x xs ih =>
      rw [List.flatMap_cons, List.flatMap_cons]
      exact (h x List.mem_cons_self).append (ih fun y hy => h y (List.mem_cons_of_mem _ hy))

end Shows
end Mark

/-! ### Trees -/

namespace Code

variable {unit : String} {es fs : List String} {cs ds : List Code}

theorem marksAll_append (cs ds : List Code) : marksAll (cs ++ ds) = marksAll cs ++ marksAll ds := by
  induction cs with
  | nil => rfl
  | cons c cs ih => rw [List.cons_append, marksAll, marksAll, ih, List.append_assoc]

/-- At any depth, lines of the pieces of source end in the given texts, in order. -/
def Shows (unit : String) (es : List String) (cs : List Code) : Prop :=
  Mark.Shows unit es (marksAll cs)

namespace Shows

theorem nil (cs : List Code) : Shows unit [] cs := Mark.Shows.nil _

theorem append (h : Shows unit es cs) (h' : Shows unit fs ds) :
    Shows unit (es ++ fs) (cs ++ ds) := by
  unfold Shows
  rw [marksAll_append]
  exact Mark.Shows.append h h'

/-- What other pieces come before and after does not matter. -/
theorem between (h : Shows unit es cs) (before after : List Code) :
    Shows unit es (before ++ cs ++ after) := by
  simpa using ((nil before).append h).append (nil after)

theorem braces (h : Shows unit es cs) : Shows unit es (Code.braces cs) := by
  have hinside := Mark.Shows.between h [.line "\x7b", .indent] [.dedent, .line "\x7d"]
  simpa [Shows, Code.braces, marksAll, marks] using hinside

/-- A text of its own shows what its steps show. -/
theorem relined {ms : List Mark} (hes : ∀ e ∈ es, OneLine e) (h : Mark.Shows unit es ms) :
    Shows unit es [.relined ms] :=
  Mark.Shows.relined hes h

/-- The text of pieces of source has what they show. -/
theorem render (h : Shows unit es cs) : EndsLines es (Code.render unit cs) := h 0

end Shows
end Code
end GraphLowering
