import GraphLowering.Interner
import Mathlib.Data.List.Dedup

/-!
# Laws of interning

Texts are interned in any order and by either call (`Call`).  What an interner has after them is
what it had before and what they were answered (`has_runAll_iff`), so an answer never changes its
meaning.  A call is left without an answer only when all numbers are given out.

* `Has`: a text and its number.  Either tells the other (`Has.text_eq`, `Has.name_eq`).
* `intern_cases`: what one call comes to.
* `answers_eq_or_full`: all calls are answered, or one of them found the interner full.
* `interned_one_to_one`: what any calls lead to.
-/

namespace GraphLowering.Interner

variable {t : Interner} {n m : Name} {x y : String}

/-! ### A text and its number -/

/-- The text is interned under the number. -/
def Has (t : Interner) (n : Name) (x : String) : Prop := t.texts[n.raw]? = some x

theorem has_iff_find? : t.Has n x ↔ t.find? x = some n := (t.inverse x n).symm

namespace Has

/-- A number tells its text. -/
theorem text_eq (hx : t.Has n x) (hy : t.Has n y) : x = y := Option.some.inj (hx.symm.trans hy)

/-- A text tells its number. -/
theorem name_eq (hn : t.Has n x) (hm : t.Has m x) : n = m :=
  Option.some.inj ((has_iff_find?.mp hn).symm.trans (has_iff_find?.mp hm))

theorem lookup_eq (h : t.Has n x) : t.lookup n = x := by
  rw [lookup, h, Option.getD_some]

end Has

/-- A number that no other text has stands for the empty text. -/
theorem lookup_eq_empty (h : ∀ x, t.Has n x → x = "") : t.lookup n = "" := by
  cases hn : t.texts[n.raw]? with
  | none => rw [lookup, hn, Option.getD_none]
  | some x => rw [Has.lookup_eq hn, h x hn]

theorem mem_texts_iff : x ∈ t.texts ↔ ∃ n, t.Has n x := by
  rw [List.mem_iff_getElem?]
  exact ⟨fun ⟨i, hi⟩ => ⟨⟨i⟩, hi⟩, fun ⟨n, hn⟩ => ⟨n.raw, hn⟩⟩

theorem find?_eq_none_iff : t.find? x = none ↔ x ∉ t.texts := by
  simp [Option.eq_none_iff_forall_ne_some, mem_texts_iff, has_iff_find?]

/-- No text is interned twice. -/
theorem nodup_texts (t : Interner) : t.texts.Nodup := by
  rw [List.nodup_iff_injective_getElem]
  rintro ⟨i, hi⟩ ⟨j, hj⟩ heq
  have hfirst : t.Has ⟨i⟩ t.texts[i] := List.getElem?_eq_getElem hi
  have hsecond : t.Has ⟨j⟩ t.texts[j] := List.getElem?_eq_getElem hj
  have hsame : t.texts[i] = t.texts[j] := heq
  exact Fin.ext (congrArg Name.raw (hfirst.name_eq (hsame ▸ hsecond)))

/-! ### One call -/

/-- What interning a text comes to: it has a number, or it takes the next one, or none is left. -/
theorem intern_cases (t : Interner) (x : String) :
    (∃ n, t.Has n x ∧ t.intern x = (some n, t)) ∨
    x ∉ t.texts ∧
      ((∃ hnew hroom, t.intern x = (some ⟨t.texts.length⟩, t.add x hnew hroom)) ∨
        t.size = Name.greatest + 1 ∧ t.intern x = (none, t)) := by
  by_cases hmem : x ∈ t.texts
  · obtain ⟨n, hn⟩ := mem_texts_iff.mp hmem
    exact .inl ⟨n, hn, by simp [intern, has_iff_find?.mp hn]⟩
  · have hnew : t.find? x = none := find?_eq_none_iff.mpr hmem
    have hinsert : t.intern x = t.insert x := by simp [intern, hnew]
    refine .inr ⟨hmem, ?_⟩
    rw [hinsert, insert]
    split
    · rename_i n hn
      cases hnew.symm.trans hn
    · split
      · exact .inl ⟨hnew, ‹_›, rfl⟩
      · rename_i hroom
        exact .inr ⟨Nat.le_antisymm t.fits (Nat.lt_of_not_le hroom), rfl⟩

/-- After a call there is what was there before and what the call was answered. -/
theorem has_intern_iff :
    (t.intern x).2.Has n y ↔ t.Has n y ∨ (t.intern x).1 = some n ∧ x = y := by
  rcases intern_cases t x with ⟨m, hm, heq⟩ | ⟨-, ⟨hnew, hroom, heq⟩ | ⟨-, heq⟩⟩
  · rw [heq]
    constructor
    · exact .inl
    · rintro (h | ⟨hn, rfl⟩)
      · exact h
      · exact Option.some.inj hn ▸ hm
  · rw [heq, Has, Has, add, getElem?_concat_eq_some]
    simp [Name.ext_iff, eq_comm]
  · simp [heq]

/-- A full interner stays as it is. -/
theorem intern_of_full (h : t.size = Name.greatest + 1) : (t.intern x).2 = t := by
  rcases intern_cases t x with ⟨m, -, heq⟩ | ⟨-, ⟨-, hroom, -⟩ | ⟨-, heq⟩⟩
  · rw [heq]
  · rw [size] at h
    omega
  · rw [heq]

/-! ### Calls in turn -/

/-- One call on an interner. -/
inductive Call
  | intern (x : String)
  | internOwned (x : String)
  deriving DecidableEq, Repr

namespace Call

/-- The text that the call is made with. -/
def text : Call → String
  | intern x | internOwned x => x

/-- What the call is answered, and the interner after it. -/
def run (t : Interner) : Call → Option Name × Interner
  | intern x => t.intern x
  | internOwned x => t.internOwned x

/-- Both calls number a text alike. -/
theorem run_eq (t : Interner) (c : Call) : c.run t = t.intern c.text := by
  cases c <;> rfl

end Call

variable {c d : Call} {calls : List Call}

/-- The interner after calls in turn. -/
def runAll (t : Interner) (calls : List Call) : Interner :=
  calls.foldl (fun t c => (c.run t).2) t

/-- The calls in turn that are answered, with their answers. -/
def answers (t : Interner) : List Call → List (Call × Name)
  | [] => []
  | c :: calls => ((c.run t).1.map (c, ·)).toList ++ answers (c.run t).2 calls

theorem mem_answers_cons :
    (d, n) ∈ t.answers (c :: calls) ↔
      (d = c ∧ (c.run t).1 = some n) ∨ (d, n) ∈ (c.run t).2.answers calls := by
  rw [answers, List.mem_append, Option.mem_toList, Option.map_eq_some_iff]
  grind

theorem mem_of_answer (h : (c, n) ∈ t.answers calls) : c ∈ calls := by
  induction calls generalizing t with
  | nil => cases h
  | cons d calls ih =>
      rcases mem_answers_cons.mp h with ⟨rfl, -⟩ | hrest
      · exact List.mem_cons_self
      · exact List.mem_cons_of_mem d (ih hrest)

/-- After calls in turn there is what was there before and what they were answered. -/
theorem has_runAll_iff :
    (t.runAll calls).Has n x ↔ t.Has n x ∨ ∃ c, (c, n) ∈ t.answers calls ∧ c.text = x := by
  induction calls generalizing t with
  | nil => simp [runAll, answers]
  | cons c calls ih =>
      have hrest : (t.runAll (c :: calls)).Has n x ↔ (c.run t).2.Has n x ∨
          ∃ d, (d, n) ∈ (c.run t).2.answers calls ∧ d.text = x := ih
      have hfirst : (c.run t).2.Has n x ↔ t.Has n x ∨ (c.run t).1 = some n ∧ c.text = x := by
        rw [Call.run_eq]
        exact has_intern_iff
      rw [hrest, hfirst, or_assoc]
      simp only [mem_answers_cons, or_and_right, exists_or, and_assoc, exists_eq_left]

/-- What was answered is there from then on. -/
theorem has_of_answer (h : (c, n) ∈ t.answers calls) : (t.runAll calls).Has n c.text :=
  has_runAll_iff.mpr (.inr ⟨c, h, rfl⟩)

/-- A full interner stays as it is, whatever it is called with. -/
theorem runAll_of_full (h : t.size = Name.greatest + 1) : t.runAll calls = t := by
  induction calls with
  | nil => rfl
  | cons c calls ih =>
      have hfirst : (c.run t).2 = t := by
        rw [Call.run_eq]
        exact intern_of_full h
      rw [runAll, List.foldl_cons, hfirst]
      exact ih

/-- All calls are answered, or one of them found the interner full and its text not there. -/
theorem answers_eq_or_full (t : Interner) (calls : List Call) :
    (t.answers calls).map Prod.fst = calls ∨
      (t.runAll calls).size = Name.greatest + 1 ∧ ∃ c ∈ calls, c.text ∉ (t.runAll calls).texts := by
  induction calls generalizing t with
  | nil => exact .inl rfl
  | cons c calls ih =>
      have hstep : t.runAll (c :: calls) = (c.run t).2.runAll calls := rfl
      rw [hstep]
      cases hanswer : (c.run t).1 with
      | some n =>
          rcases ih (c.run t).2 with hall | ⟨hfull, d, hd, hmem⟩
          · exact .inl (by simp [answers, hanswer, hall])
          · exact .inr ⟨hfull, d, List.mem_cons_of_mem _ hd, hmem⟩
      | none =>
          rw [Call.run_eq] at hanswer ⊢
          rcases intern_cases t c.text with ⟨m, -, heq⟩ | ⟨hmem, ⟨_, _, heq⟩ | ⟨hfull, heq⟩⟩
          · simp [heq] at hanswer
          · simp [heq] at hanswer
          · rw [heq, runAll_of_full hfull]
            exact .inr ⟨hfull, c, List.mem_cons_self, hmem⟩

/-! ### Calls on a new interner -/

/-- A new interner has the empty text under number 0. -/
theorem has_new_iff : ({} : Interner).Has n x ↔ n = Name.empty ∧ x = "" := by
  obtain ⟨i⟩ := n
  cases i <;> simp [Has, Name.empty, eq_comm]

theorem has_empty (calls : List Call) : (runAll {} calls).Has Name.empty "" :=
  has_runAll_iff.mpr (.inl (has_new_iff.mpr ⟨rfl, rfl⟩))

/-- The distinct texts among some, the empty one apart. -/
def distinct (xs : List String) : List String := (xs.filter (· ≠ "")).dedup

theorem mem_distinct {xs : List String} : x ∈ distinct xs ↔ x ∈ xs ∧ x ≠ "" := by
  simp [distinct]

/-- The texts that calls were answered for. -/
def answered (calls : List Call) : List String := (answers {} calls).map fun a => a.1.text

theorem mem_answered : x ∈ answered calls ↔ ∃ c n, (c, n) ∈ answers {} calls ∧ c.text = x := by
  simp [answered]

/-- The table has the empty text and those that calls were answered for, each once. -/
theorem texts_perm (calls : List Call) :
    (runAll {} calls).texts.Perm ("" :: distinct (answered calls)) := by
  have hnodup : ("" :: distinct (answered calls)).Nodup :=
    List.nodup_cons.mpr ⟨fun h => (mem_distinct.mp h).2 rfl, List.nodup_dedup _⟩
  refine (List.perm_ext_iff_of_nodup (nodup_texts _) hnodup).mpr fun x => ?_
  rw [mem_texts_iff, List.mem_cons, mem_distinct, mem_answered]
  simp only [has_runAll_iff, has_new_iff]
  grind

theorem size_runAll (calls : List Call) :
    (runAll {} calls).size = 1 + (distinct (answered calls)).length := by
  rw [size, (texts_perm calls).length_eq, List.length_cons, Nat.add_comm]

/-- Calls are all answered as long as there are numbers for their texts. -/
theorem all_answered_iff (calls : List Call) :
    (answers {} calls).map Prod.fst = calls ↔
      (distinct (calls.map Call.text)).length ≤ Name.greatest := by
  have hfits := (runAll {} calls).fits
  rw [← size, size_runAll] at hfits
  constructor
  · intro hall
    have htexts : answered calls = calls.map Call.text := by
      conv_rhs => rw [← hall, List.map_map]
      rfl
    rw [htexts] at hfits
    omega
  · intro hfew
    rcases answers_eq_or_full {} calls with hall | ⟨hfull, c, hc, hmem⟩
    · exact hall
    · -- The text without a number is one more than all that have one.
      have hne : c.text ≠ "" := by
        intro h
        rw [h] at hmem
        exact hmem (mem_texts_iff.mpr ⟨Name.empty, has_empty calls⟩)
      have hnew : c.text ∉ distinct (answered calls) := fun h =>
        hmem ((texts_perm calls).mem_iff.mpr (List.mem_cons_of_mem _ h))
      have hsub : c.text :: distinct (answered calls) ⊆ distinct (calls.map Call.text) := by
        intro x hx
        rcases List.mem_cons.mp hx with rfl | hx
        · exact mem_distinct.mpr ⟨List.mem_map_of_mem hc, hne⟩
        · obtain ⟨hx, hxne⟩ := mem_distinct.mp hx
          obtain ⟨d, n, hd, rfl⟩ := mem_answered.mp hx
          exact mem_distinct.mpr ⟨List.mem_map_of_mem (mem_of_answer hd), hxne⟩
      have hle := (List.nodup_cons.mpr ⟨hnew, List.nodup_dedup _⟩).length_le_of_subset hsub
      rw [List.length_cons] at hle
      rw [size_runAll] at hfull
      omega

/-- **Interning is one to one and stays so.**  After any calls on a new interner, a number that was
answered stands for the text that it was answered for, whatever is called later; two answers are the
same exactly if their texts are; the empty text has number 0; there is one text more than there are
distinct other texts with an answer; a number that was never answered stands for the empty text; and
all calls are answered exactly if there are numbers for all their texts. -/
theorem interned_one_to_one (calls : List Call) :
    let t := runAll {} calls
    (∀ c n, (c, n) ∈ answers {} calls → ∀ later, (t.runAll later).lookup n = c.text) ∧
    (∀ c n d m, (c, n) ∈ answers {} calls → (d, m) ∈ answers {} calls →
      (n = m ↔ c.text = d.text)) ∧
    (∀ c : Call, c.text = "" → c.run t = (some Name.empty, t)) ∧
    t.size = 1 + (distinct (answered calls)).length ∧
    (∀ n, (∀ c, (c, n) ∉ answers {} calls) → t.lookup n = "") ∧
    ((answers {} calls).map Prod.fst = calls ↔
      (distinct (calls.map Call.text)).length ≤ Name.greatest) := by
  intro t
  refine ⟨?_, ?_, ?_, size_runAll calls, ?_, all_answered_iff calls⟩
  · intro c n hc later
    exact (has_runAll_iff.mpr (.inl (has_of_answer hc))).lookup_eq
  · intro c n d m hc hd
    constructor
    · rintro rfl
      exact (has_of_answer hc).text_eq (has_of_answer hd)
    · intro htext
      exact (has_of_answer hc).name_eq (htext ▸ has_of_answer hd)
  · intro c hc
    rw [Call.run_eq, hc, intern, has_iff_find?.mp (has_empty calls)]
  · intro n hn
    refine lookup_eq_empty fun x hx => ?_
    rcases has_runAll_iff.mp hx with hnew | ⟨c, hc, -⟩
    · exact (has_new_iff.mp hnew).2
    · exact absurd hc (hn c)

/-- A text that is interned by both calls, another one and the empty one. -/
theorem interned_one_to_one_health :
    let calls : List Call :=
      [.intern "Health", .internOwned "", .intern "Armor", .internOwned "Health"]
    let t := runAll {} calls
    answers {} calls = [(.intern "Health", ⟨1⟩), (.internOwned "", ⟨0⟩), (.intern "Armor", ⟨2⟩),
      (.internOwned "Health", ⟨1⟩)] ∧
    (t.runAll [.intern "Mana", .intern "Armor"]).lookup ⟨2⟩ = "Armor" ∧
    ((⟨1⟩ : Name) = ⟨2⟩ ↔ "Health" = "Armor") ∧
    (Call.internOwned "").run t = (some Name.empty, t) ∧
    t.size = 3 ∧ t.lookup ⟨3⟩ = "" := by
  intro calls t
  have hanswers : answers {} calls = [(.intern "Health", ⟨1⟩), (.internOwned "", ⟨0⟩),
      (.intern "Armor", ⟨2⟩), (.internOwned "Health", ⟨1⟩)] := by
    decide +kernel
  obtain ⟨hstays, hsame, hempty, hsize, hunused, -⟩ := interned_one_to_one calls
  have hdistinct : (distinct (answered calls)).length = 2 := by decide +kernel
  refine ⟨hanswers, hstays (.intern "Armor") ⟨2⟩ (by simp [hanswers]) _,
    hsame (.internOwned "Health") ⟨1⟩ (.intern "Armor") ⟨2⟩ (by simp [hanswers])
      (by simp [hanswers]), hempty _ rfl, ?_, hunused ⟨3⟩ (by simp [hanswers])⟩
  rw [hsize, hdistinct]

end GraphLowering.Interner
