import GraphLowering.Text.Quoted
import Mathlib.Algebra.Ring.Parity
import Mathlib.Data.List.Induction

/-!
# Text — string literals

A string literal of C++ is read from its opening quote on.  A backslash escapes the character behind
it, so the literal is closed by the first double quote that has an even run of backslashes before
it.  An escaped text has no such quote, and reading its escapes gives the text back.

* `closing?_eq_some_iff`: what the reader takes for the end is the first quote that is not escaped.
* `closing?_escape`, `unescape?_escape`: an escaped text is read as a whole, and read back.
* `escape_read_back`: both, with what cannot stand in an escaped text.
-/

namespace GraphLowering.Text

/-! ### Escaped characters -/

/-- The length of the run of backslashes at the end. -/
def backslashes (cs : List Char) : Nat := (cs.reverse.takeWhile (· = '\\')).length

/-- Whether the character behind `cs` is escaped, read from the left; `pending` says so for the
first character of `cs`. -/
def escapesNext (pending : Bool) : List Char → Bool
  | [] => pending
  | c :: cs => escapesNext (!pending && c = '\\') cs

theorem escapesNext_append (pending : Bool) (cs ds : List Char) :
    escapesNext pending (cs ++ ds) = escapesNext (escapesNext pending cs) ds := by
  induction cs generalizing pending with
  | nil => rfl
  | cons c cs ih => exact ih _

theorem backslashes_concat (cs : List Char) (c : Char) :
    backslashes (cs ++ [c]) = if c = '\\' then backslashes cs + 1 else 0 := by
  by_cases hc : c = '\\' <;> simp [backslashes, hc]

/-- A character is escaped when an odd run of backslashes stands before it. -/
theorem escapesNext_eq_true_iff (cs : List Char) :
    escapesNext false cs = true ↔ Odd (backslashes cs) := by
  induction cs using List.reverseRecOn with
  | nil => simp [escapesNext, backslashes]
  | append_singleton cs c ih =>
      have hlast : escapesNext false (cs ++ [c]) = (!escapesNext false cs && c = '\\') :=
        escapesNext_append false cs [c]
      rw [hlast, backslashes_concat]
      by_cases hc : c = '\\'
      · simp [hc, Nat.odd_add_one, ← ih]
      · simp [hc]

/-! ### Reading a literal -/

/-- Read a literal behind its opening quote: what stands before the quote that closes it, and what
follows.  With `pending` the first character is escaped. -/
def closingFrom? (pending : Bool) : List Char → Option (List Char × List Char)
  | [] => none
  | c :: cs =>
    if c = '"' ∧ pending = false then some ([], cs)
    else (closingFrom? (!pending && c = '\\') cs).map fun r => (c :: r.1, r.2)

/-- Read a literal behind its opening quote. -/
def closing? (cs : List Char) : Option (List Char × List Char) := closingFrom? false cs

/-- Read the literal at the start of a text. -/
def literal? : List Char → Option (List Char × List Char)
  | '"' :: cs => closing? cs
  | _ => none

/-- Between quotes, the text keeps the quotes where they are: each of its own double quotes is
escaped, and the closing one is not. -/
structure Contained (body : List Char) : Prop where
  inside : ∀ before after, body = before ++ '"' :: after → Odd (backslashes before)
  close : Even (backslashes body)

theorem closingFrom?_eq_some_iff {pending : Bool} {cs body rest : List Char} :
    closingFrom? pending cs = some (body, rest) ↔ cs = body ++ '"' :: rest ∧
      (∀ before after, body = before ++ '"' :: after → escapesNext pending before = true) ∧
      escapesNext pending body = false := by
  induction cs generalizing pending body with
  | nil => simp [closingFrom?]
  | cons c cs ih =>
      unfold closingFrom?
      split
      · -- The literal ends here, so nothing stands before the quote.
        rename_i hclose
        obtain ⟨rfl, rfl⟩ := hclose
        constructor
        · intro h
          obtain ⟨rfl, rfl⟩ : [] = body ∧ cs = rest := by simpa using h
          exact ⟨rfl, by simp, rfl⟩
        · rintro ⟨heq, hinside, -⟩
          cases body with
          | nil => simpa using heq
          | cons b body =>
              obtain ⟨rfl, -⟩ : '"' = b ∧ _ := by simpa using heq
              cases hinside [] body rfl
      · rename_i hopen
        constructor
        · intro h
          obtain ⟨⟨body', rest'⟩, hrest, heq⟩ := Option.map_eq_some_iff.mp h
          obtain ⟨rfl, rfl⟩ : c :: body' = body ∧ rest' = rest := by simpa using heq
          obtain ⟨rfl, hinside, hclose⟩ := ih.mp hrest
          refine ⟨rfl, fun before after hbefore => ?_, hclose⟩
          cases before with
          | nil =>
              obtain ⟨rfl, -⟩ : c = '"' ∧ _ := by simpa using hbefore
              simpa [escapesNext] using hopen
          | cons b before =>
              obtain ⟨rfl, rfl⟩ : c = b ∧ _ := by simpa using hbefore
              exact hinside before after rfl
        · rintro ⟨heq, hinside, hclose⟩
          cases body with
          | nil =>
              obtain ⟨rfl, -⟩ : c = '"' ∧ _ := by simpa using heq
              exact absurd ⟨rfl, hclose⟩ hopen
          | cons b body =>
              obtain ⟨rfl, rfl⟩ : c = b ∧ _ := by simpa using heq
              have hrest : closingFrom? (!pending && c = '\\') (body ++ '"' :: rest) =
                  some (body, rest) :=
                ih.mpr ⟨rfl, fun before after hbefore =>
                  hinside (c :: before) after (by rw [hbefore]; rfl), hclose⟩
              rw [hrest]
              rfl

/-- **A literal ends at its first quote that is not escaped.** -/
theorem closing?_eq_some_iff {cs body rest : List Char} :
    closing? cs = some (body, rest) ↔ cs = body ++ '"' :: rest ∧ Contained body := by
  have hclose : escapesNext false body = false ↔ Even (backslashes body) := by
    rw [← Bool.not_eq_true, escapesNext_eq_true_iff, Nat.not_odd_iff_even]
  simp only [closing?, closingFrom?_eq_some_iff, escapesNext_eq_true_iff, hclose]
  exact and_congr_right fun _ => ⟨fun h => ⟨h.1, h.2⟩, fun h => ⟨h.inside, h.close⟩⟩

/-- Between quotes, with anything behind them, a text is read as a whole if it is contained. -/
theorem closing?_append_iff {body rest : List Char} :
    closing? (body ++ '"' :: rest) = some (body, rest) ↔ Contained body := by
  simp [closing?_eq_some_iff]

/-! ### Reading escapes -/

/-- The character that a letter behind a backslash stands for. -/
def escaped? : Char → Option Char
  | '\\' => some '\\'
  | '"' => some '"'
  | '\'' => some '\''
  | 'n' => some '\n'
  | 'r' => some '\r'
  | 't' => some '\t'
  | _ => none

/-- The text that a literal stands for, read from between its quotes.  A backslash, a double quote
and a line feed cannot stand for themselves there. -/
def unescape? : List Char → Option (List Char)
  | [] => some []
  | '\\' :: c :: cs => do return (← escaped? c) :: (← unescape? cs)
  | c :: cs => if c = '\\' ∨ c = '"' ∨ c = '\n' then none else (unescape? cs).map (c :: ·)

/-- A character is escaped by a letter that stands for it, or it stands for itself. -/
theorem escapeChar_cases (c : Char) :
    (∃ letter, escaped? letter = some c ∧ escapeChar c = ['\\', letter]) ∨
      c ∉ ['\\', '"', '\n', '\r', '\t'] ∧ escapeChar c = [c] := by
  unfold escapeChar
  split
  case h_7 hbackslash hquote _ hnewline hcarriage htab =>
    refine .inr ⟨fun hmem => ?_, rfl⟩
    simp only [List.mem_cons, List.not_mem_nil, or_false] at hmem
    rcases hmem with h | h | h | h | h
    · exact hbackslash h
    · exact hquote h
    · exact hnewline h
    · exact hcarriage h
    · exact htab h
  all_goals exact .inl ⟨_, rfl, rfl⟩

/-- One escaped character is read back. -/
theorem unescape?_escapeChar (c : Char) (cs : List Char) :
    unescape? (escapeChar c ++ cs) = (unescape? cs).map (c :: ·) := by
  rcases escapeChar_cases c with ⟨letter, hletter, heq⟩ | ⟨hplain, heq⟩
  · rw [heq, List.cons_append, List.singleton_append, unescape?, hletter]
    cases unescape? cs <;> rfl
  · have hself : c ≠ '\\' ∧ c ≠ '"' ∧ c ≠ '\n' := by simp_all
    rw [heq, List.singleton_append, unescape?, if_neg (by simp [hself])]
    exact fun _ _ hc _ => absurd hc hself.1

/-- One escaped character is passed over as a whole. -/
theorem closing?_escapeChar (c : Char) (cs : List Char) :
    closing? (escapeChar c ++ cs) = (closing? cs).map fun r => (escapeChar c ++ r.1, r.2) := by
  unfold closing?
  rcases escapeChar_cases c with ⟨letter, -, heq⟩ | ⟨hplain, heq⟩
  · cases h : closingFrom? false cs <;> simp [heq, closingFrom?, h]
  · have hself : c ≠ '\\' ∧ c ≠ '"' := by simp_all
    simp [heq, closingFrom?, hself]

/-! ### Escaped texts -/

theorem escape_append (s t : String) : escape (s ++ t) = escape s ++ escape t := by
  simp [escape]

/-- **An escaped text is read back.** -/
theorem unescape?_escape (s : String) : unescape? (escape s).toList = some s.toList := by
  rw [escape, String.toList_ofList]
  induction s.toList with
  | nil => rfl
  | cons c cs ih => rw [List.flatMap_cons, unescape?_escapeChar, ih]; rfl

/-- **An escaped text does not leave its quotes**, whatever stands behind them. -/
theorem closing?_escape (s : String) (rest : List Char) :
    closing? ((escape s).toList ++ '"' :: rest) = some ((escape s).toList, rest) := by
  rw [escape, String.toList_ofList]
  induction s.toList with
  | nil => rfl
  | cons c cs ih => rw [List.flatMap_cons, List.append_assoc, closing?_escapeChar, ih]; rfl

theorem contained_escape (s : String) : Contained (escape s).toList :=
  closing?_append_iff.mp (closing?_escape s [])

/-- Line feeds, carriage returns and tabs are escaped. -/
theorem not_mem_escape {c : Char} (hc : c ∈ ['\n', '\r', '\t']) (s : String) :
    c ∉ (escape s).toList := by
  rw [escape, String.toList_ofList, List.mem_flatMap]
  rintro ⟨d, -, hd⟩
  rcases escapeChar_cases d with ⟨letter, hletter, heq⟩ | ⟨hplain, heq⟩
  · have hmem : c = '\\' ∨ c = letter := by simpa [heq] using hd
    rcases hmem with rfl | rfl
    · simp at hc
    · simp only [List.mem_cons, List.not_mem_nil, or_false] at hc
      rcases hc with rfl | rfl | rfl <;> cases hletter
  · have hself : c = d := by simpa [heq] using hd
    subst hself
    exact hplain (List.mem_cons_of_mem _ (List.mem_cons_of_mem _ hc))

/-- **Escaping is faithful and stays between the quotes.**  The escapes of an escaped text are read
back as the text.  It holds no line feed, carriage return or tab, and an odd run of backslashes
stands before each of its double quotes.  So the first quote that is not escaped, behind the opening
one, is the closing one, whatever follows.  A concatenation is escaped part by part. -/
theorem escape_read_back (s t : String) :
    unescape? (escape s).toList = some s.toList ∧
    '\n' ∉ (escape s).toList ∧ '\r' ∉ (escape s).toList ∧ '\t' ∉ (escape s).toList ∧
    (∀ before after, (escape s).toList = before ++ '"' :: after → Odd (backslashes before)) ∧
    (∀ rest, literal? (quote s ++ rest).toList = some ((escape s).toList, rest.toList)) ∧
    escape (s ++ t) = escape s ++ escape t := by
  refine ⟨unescape?_escape s, not_mem_escape (by simp) s, not_mem_escape (by simp) s,
    not_mem_escape (by simp) s, (contained_escape s).inside, fun rest => ?_,
    escape_append s t⟩
  have hquote : (quote s ++ rest).toList = '"' :: ((escape s).toList ++ '"' :: rest.toList) := by
    simp [quote]
  rw [hquote]
  exact closing?_escape s rest.toList

/-- Runs of backslashes before a quote and at the end. -/
example : literal? (quote "a\\\\\"b\\" ++ ", c\"").toList =
    some ("a\\\\\\\\\\\"b\\\\".toList, ", c\"".toList) := by decide +kernel

end GraphLowering.Text
