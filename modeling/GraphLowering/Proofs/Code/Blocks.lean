import GraphLowering.Proofs.Code.Lines

/-!
# Code — closed blocks

Steps are balanced when a writer ends at the depth it started from and was never below it.  A text
of its own is written by a writer of its own, which starts at depth 0; blocks are closed when all
these writers take balanced steps.

* `Mark.BlocksClosed`: the property, said of what writers do.
* `Mark.Closed`: the grammar of such steps (`Mark.Closed.blocksClosed`).
* `Code.Closed`: trees whose texts of their own keep to the grammar.
* `Body.closed_marks`: so does a body, although each of its cases closes the one before.
-/

namespace GraphLowering

namespace Mark

/-! ### Balance -/

/-- A writer ends at the depth it started from, and comes back only to depths from there on. -/
structure Balanced (ms : List Mark) : Prop where
  depth_eq : ∀ w : CodeWriter, (writeAll w ms).depth = w.depth
  lt_depth : ∀ (w : CodeWriter) (before after : List Mark), ms = before ++ .dedent :: after →
    w.depth < (writeAll w before).depth

mutual

/-- The steps of the texts of their own inside a step, at any distance. -/
def inner : Mark → List (List Mark)
  | .line _ | .indent | .dedent => []
  | .relined body => body :: innerAll body

/-- The steps of the texts of their own inside steps. -/
def innerAll : List Mark → List (List Mark)
  | [] => []
  | m :: ms => inner m ++ innerAll ms

end

/-- Every writer that is at work takes balanced steps. -/
def BlocksClosed (ms : List Mark) : Prop := ∀ steps ∈ ms :: innerAll ms, Balanced steps

/-! ### The grammar -/

/-- Steps in which what goes deeper comes back. -/
inductive Closed : List Mark → Prop
  | nil : Closed []
  | line (text : String) : Closed [.line text]
  | relined {body : List Mark} (h : Closed body) : Closed [.relined body]
  | block {body : List Mark} (h : Closed body) : Closed (.indent :: body ++ [.dedent])
  | append {ms ns : List Mark} (h : Closed ms) (h' : Closed ns) : Closed (ms ++ ns)

variable {ms ns body : List Mark}

/-- A step that leaves the depth as it is. -/
theorem Balanced.single {m : Mark} (hdepth : ∀ w, (write w m).depth = w.depth)
    (hm : m ≠ .dedent) : Balanced [m] where
  depth_eq w := hdepth w
  lt_depth w before after h := by
    cases before with
    | nil => exact absurd (List.cons.inj h).1 hm
    | cons b before => simp at h

theorem Balanced.append (h : Balanced ms) (h' : Balanced ns) : Balanced (ms ++ ns) where
  depth_eq w := by rw [writeAll_append, h'.depth_eq, h.depth_eq]
  lt_depth w before after heq := by
    rcases List.append_eq_append_iff.mp heq with ⟨rest, rfl, hns⟩ | ⟨rest, rfl, hafter⟩
    · -- The way back is one of the second steps.
      rw [writeAll_append]
      have hlt := h'.lt_depth (writeAll w ms) rest after hns
      rwa [h.depth_eq] at hlt
    · cases rest with
      | nil =>
          have hlt := h'.lt_depth (writeAll w before) [] after (by simpa using hafter.symm)
          exact absurd hlt (Nat.lt_irrefl _)
      | cons m rest =>
          obtain ⟨rfl, rfl⟩ := List.cons.inj hafter
          exact h.lt_depth w before rest rfl

theorem Balanced.block (h : Balanced body) : Balanced (.indent :: body ++ [.dedent]) where
  depth_eq w := by
    rw [List.cons_append, writeAll, writeAll_append]
    simp [writeAll, write, CodeWriter.dedent, CodeWriter.indent, h.depth_eq]
  lt_depth w before after heq := by
    cases before with
    | nil => cases heq
    | cons m before =>
        obtain ⟨rfl, hrest⟩ : m = .indent ∧ body ++ [.dedent] = before ++ .dedent :: after := by
          simpa [eq_comm] using heq
        have hdepth : w.depth < (writeAll w.indent body).depth := by
          rw [h.depth_eq]
          exact Nat.lt_succ_self w.depth
        rcases List.append_eq_append_iff.mp hrest with ⟨rest, rfl, hlast⟩ | ⟨rest, rfl, hlast⟩
        · obtain rfl : rest = [] := by cases rest with
            | nil => rfl
            | cons m rest => simp at hlast
          simpa [writeAll, write] using hdepth
        · cases rest with
          | nil => simpa [writeAll, write] using hdepth
          | cons m rest =>
              obtain ⟨rfl, -⟩ := List.cons.inj hlast
              exact Nat.lt_of_succ_lt (h.lt_depth w.indent before rest rfl)

theorem innerAll_append (ms ns : List Mark) : innerAll (ms ++ ns) = innerAll ms ++ innerAll ns := by
  induction ms with
  | nil => rfl
  | cons m ms ih => rw [List.cons_append, innerAll, innerAll, ih, List.append_assoc]

theorem blocksClosed_iff :
    BlocksClosed ms ↔ Balanced ms ∧ ∀ steps ∈ innerAll ms, Balanced steps := by
  rw [BlocksClosed, List.forall_mem_cons]

/-- **Steps of the grammar are balanced**, and so are those of the texts inside them. -/
theorem Closed.blocksClosed (h : Closed ms) : BlocksClosed ms := by
  induction h with
  | nil =>
      refine blocksClosed_iff.mpr ⟨⟨fun _ => rfl, fun _ before _ h => ?_⟩, fun _ hmem => ?_⟩
      · simp at h
      · cases hmem
  | line text =>
      have hline : Balanced [.line text] :=
        .single (fun w => by rw [write_eq]; rfl) Mark.noConfusion
      exact blocksClosed_iff.mpr ⟨hline, fun _ hmem => by cases hmem⟩
  | @relined body _ ih =>
      have hrelined : Balanced [.relined body] :=
        .single (fun w => by rw [write_eq]; rfl) Mark.noConfusion
      refine blocksClosed_iff.mpr ⟨hrelined, fun steps hmem => ih steps ?_⟩
      simpa [innerAll, inner] using hmem
  | block _ ih =>
      obtain ⟨hbody, hinner⟩ := blocksClosed_iff.mp ih
      refine blocksClosed_iff.mpr ⟨hbody.block, fun steps hmem => hinner steps ?_⟩
      simpa [innerAll, inner, innerAll_append] using hmem
  | append _ _ ih ih' =>
      obtain ⟨hms, hinner⟩ := blocksClosed_iff.mp ih
      obtain ⟨hns, hinner'⟩ := blocksClosed_iff.mp ih'
      refine blocksClosed_iff.mpr ⟨hms.append hns, fun steps hmem => ?_⟩
      rw [innerAll_append] at hmem
      rcases List.mem_append.mp hmem with hmem | hmem
      · exact hinner steps hmem
      · exact hinner' steps hmem

theorem Closed.cons_line (text : String) (h : Closed ms) : Closed (.line text :: ms) :=
  .append (.line text) h

theorem Closed.lines : (texts : List String) → Closed (texts.map .line)
  | [] => .nil
  | text :: texts => (lines texts).cons_line text

end Mark

/-! ### Trees -/

namespace Code

/-- The texts of their own inside the pieces keep to the grammar. -/
def Closed (cs : List Code) : Prop := Mark.Closed (marksAll cs)

namespace Closed

variable {cs ds : List Code}

theorem nil : Closed [] := Mark.Closed.nil

theorem append (h : Closed cs) (h' : Closed ds) : Closed (cs ++ ds) := by
  rw [Closed, marksAll_append]
  exact Mark.Closed.append h h'

theorem cons_line (text : String) (h : Closed cs) : Closed (.line text :: cs) :=
  Mark.Closed.cons_line text h

theorem line (text : String) : Closed [.line text] := cons_line text nil

theorem nested (h : Closed cs) : Closed [.nested cs] := by
  have hblock := Mark.Closed.block h
  simpa [Closed, marksAll, marks] using hblock

theorem braces (h : Closed cs) : Closed (Code.braces cs) :=
  cons_line _ (h.nested.append (line _))

theorem guarded (checks : List String) (h : Closed cs) : Closed [.guarded checks cs] := by
  have hbraces := cons_line (ifLine (conjunction checks)) h.braces
  simpa [Closed, Code.braces, marksAll, marks] using hbraces

theorem relined {ms : List Mark} (h : Mark.Closed ms) : Closed [.relined ms] :=
  Mark.Closed.relined h

theorem flatten {css : List (List Code)} (h : ∀ cs ∈ css, Closed cs) : Closed css.flatten := by
  induction css with
  | nil => exact nil
  | cons cs css ih =>
      exact (h cs List.mem_cons_self).append (ih fun ds hds => h ds (List.mem_cons_of_mem _ hds))

/-- A block between other pieces. -/
theorem cons_nested (h : Closed cs) (h' : Closed ds) : Closed (.nested cs :: ds) :=
  h.nested.append h'

end Closed

/-- Nothing but lines. -/
def Flat (cs : List Code) : Prop := ∀ c ∈ cs, ∃ text, c = .line text

namespace Flat

variable {cs ds : List Code}

theorem nil : Flat [] := fun _ hc => by cases hc

theorem cons_line (text : String) (h : Flat cs) : Flat (.line text :: cs) :=
  List.forall_mem_cons.mpr ⟨⟨text, rfl⟩, h⟩

theorem line (text : String) : Flat [.line text] := cons_line text nil

theorem closed (h : Flat cs) : Closed cs := by
  induction cs with
  | nil => exact .nil
  | cons c cs ih =>
      obtain ⟨text, rfl⟩ := h c List.mem_cons_self
      exact .cons_line text (ih fun d hd => h d (List.mem_cons_of_mem _ hd))

theorem append (h : Flat cs) (h' : Flat ds) : Flat (cs ++ ds) := by
  intro c hc
  rcases List.mem_append.mp hc with hc | hc
  · exact h c hc
  · exact h' c hc

theorem map {α : Type} (xs : List α) {f : α → Code} (h : ∀ x, ∃ text, f x = .line text) :
    Flat (xs.map f) := by
  intro c hc
  obtain ⟨x, -, rfl⟩ := List.mem_map.mp hc
  exact h x

theorem flatten {css : List (List Code)} (h : ∀ cs ∈ css, Flat cs) : Flat css.flatten := by
  intro c hc
  obtain ⟨cs, hcs, hc⟩ := List.mem_flatten.mp hc
  exact h cs hcs c hc

end Flat
end Code

/-! ### Bodies -/

namespace Dispatch

open Mark (Closed)

/-- The beginning of a case comes back from the one before, if there is one, and goes as deep
again. -/
theorem depth_beginCase (state : Int) (w : CodeWriter) :
    (Mark.writeAll w (beginCase state)).depth = w.depth ↔ 2 ≤ w.depth := by
  rw [Mark.writeAll_eq]
  simp only [beginCase, closeCase, openCase, List.cons_append, List.nil_append, Mark.depthAfter]
  omega

/-- A case around closed steps. -/
theorem closed_case (state : Int) {ms : List Mark} (h : Closed ms) :
    Closed (openCase state ++ ms ++ closeCase) := by
  have hbody : Closed (.line "\x7b" :: (.indent :: ms ++ [.dedent]) ++ [.line "\x7d"]) :=
    .append (.cons_line _ h.block) (.line _)
  have hcase := hbody.block.cons_line ("case " ++ toString state ++ ":")
  simpa [openCase, closeCase] using hcase

/-- Chunks inside a case, where each label closes the case and opens the next one. -/
theorem closed_chunks (state : Int) {ms : List Mark} (h : Closed ms) {chunks : List Chunk}
    (hchunks : ∀ c ∈ chunks, Code.Closed c.action.code) :
    Closed (openCase state ++ (ms ++ chunks.flatMap Chunk.marks) ++ closeCase) := by
  induction chunks generalizing state ms with
  | nil => simpa using closed_case state h
  | cons c chunks ih =>
      have hcode := hchunks c List.mem_cons_self
      have hrest : ∀ d ∈ chunks, Code.Closed d.action.code :=
        fun d hd => hchunks d (List.mem_cons_of_mem _ hd)
      rw [List.flatMap_cons, Chunk.marks]
      cases c.label with
      | none => simpa using ih state (h.append hcode) hrest
      | some next => simpa [beginCase] using (closed_case state h).append (ih next hcode hrest)

/-- A loop around its cases. -/
theorem closed_loop (usesFlowStack : Bool) {ms : List Mark}
    (h : Closed (openCase entryState ++ ms ++ closeCase)) :
    Closed (openLoop usesFlowStack ++ ms ++ closeLoop usesFlowStack) := by
  have hstack : Closed (if usesFlowStack then
      [.line "TArray< int32, TInlineAllocator<8> > StateStack;", .line ""] else []) := by
    split
    · exact .lines [_, _]
    · exact .nil
  have hdefault : Closed (.indent :: ((if usesFlowStack then
      [.line "check(false); // Invalid state"] else []) ++ [.line "break;"]) ++ [.dedent]) := by
    refine .block (.append ?_ (.line _))
    split
    · exact .line _
    · exact .nil
  have hswitch := (Closed.lines ["switch( CurrentState )", "\x7b"]).append
    (h.append ((hdefault.cons_line "default:").append (.line "\x7d")))
  have hhead := hstack.append
    (Closed.lines ["int32 CurrentState = " ++ toString entryState ++ ";", "do", "\x7b"])
  have hloop := hhead.append (hswitch.block.append
    (.line ("\x7d while( CurrentState != " ++ toString exitState ++ " );")))
  simpa [openLoop, closeLoop] using hloop

/-- **The blocks of a body are closed**, if those of its chunks are, and if only the chunks of a
loop have labels. -/
theorem Body.closed_marks {b : Body} (hlabels : b.isLoop = false → ∀ c ∈ b.chunks, c.label = none)
    (hcode : ∀ c ∈ b.chunks, Code.Closed c.action.code) : Closed b.marks := by
  unfold marks
  split
  · exact closed_loop b.usesFlowStack (closed_chunks entryState .nil hcode)
  · rename_i hloop
    replace hlabels := hlabels (by simpa using hloop)
    generalize b.chunks = chunks at hcode hlabels
    induction chunks with
    | nil => exact .nil
    | cons c chunks ih =>
        rw [List.flatMap_cons, Chunk.marks, hlabels c List.mem_cons_self]
        exact .append (hcode c List.mem_cons_self)
          (ih (fun d hd => hcode d (List.mem_cons_of_mem _ hd))
            fun d hd => hlabels d (List.mem_cons_of_mem _ hd))

end Dispatch
end GraphLowering
