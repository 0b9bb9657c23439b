/-!
# Interner

Texts numbered in the order of their first mention.  The empty text is number 0 from the start,
and a number that was never given out stands for the empty text.  Numbers have 32 bits: once all
are given out, a new text gets none.
-/

namespace GraphLowering

/-- The number of an interned text. -/
@[ext]
structure Name where
  raw : Nat
  deriving DecidableEq, Repr, Inhabited

namespace Name

/-- The empty text. -/
def empty : Name := ⟨0⟩

/-- The greatest number that can be given out. -/
def greatest : Nat := 0xFFFFFFFF

def isEmpty (n : Name) : Bool := n.raw == 0

/-- How a number is shown to a developer. -/
def describe (n : Name) : String := "Name(" ++ toString n.raw ++ ")"

end Name

/-- At first the empty text is the only one. -/
theorem Interner.inverse_new (text : String) (n : Name) :
    [("", Name.empty)].lookup text = some n ↔ [""][n.raw]? = some text := by
  obtain ⟨i⟩ := n
  by_cases h : text = ""
  · cases i <;> simp [h, Name.empty]
  · cases i <;> simp [List.lookup_cons, beq_false_of_ne h, Ne.symm h]

theorem Interner.fits_new : [""].length ≤ Name.greatest + 1 := by
  decide

/-- The texts interned so far, both by text, with their numbers, and in the order of their
numbers. -/
structure Interner where
  /-- The numbers given out. -/
  numbers : List (String × Name) := [("", Name.empty)]
  /-- The texts that have a number, in the order of their numbers. -/
  texts : List String := [""]
  /-- A text has the number of its place, and no other. -/
  inverse : ∀ text n, numbers.lookup text = some n ↔ texts[n.raw]? = some text := by
    exact Interner.inverse_new
  /-- There are numbers for all of them. -/
  fits : texts.length ≤ Name.greatest + 1 := by
    exact Interner.fits_new
  deriving Repr

namespace Interner

instance : Inhabited Interner := ⟨{}⟩

/-- The number of a text interned before. -/
def find? (t : Interner) (text : String) : Option Name := t.numbers.lookup text

/-- With one more text at the end, only its place is new. -/
theorem getElem?_concat_eq_some {texts : List String} {text other : String} {i : Nat} :
    (texts ++ [text])[i]? = some other ↔
      texts[i]? = some other ∨ i = texts.length ∧ text = other := by
  rcases Nat.lt_trichotomy i texts.length with h | rfl | h
  · simp [List.getElem?_append_left h, Nat.ne_of_lt h]
  · simp
  · simp [List.getElem?_append_right (Nat.le_of_lt h), List.getElem?_eq_none (Nat.le_of_lt h),
      Nat.ne_of_gt h, Nat.sub_ne_zero_of_lt h]

/-- The interner with one more text, which takes the next number. -/
def add (t : Interner) (text : String) (hnew : t.find? text = none)
    (hroom : t.texts.length ≤ Name.greatest) : Interner where
  numbers := (text, ⟨t.texts.length⟩) :: t.numbers
  texts := t.texts ++ [text]
  inverse := by
    intro other n
    rw [getElem?_concat_eq_some, ← t.inverse other n]
    by_cases h : other = text
    · have hnone : t.numbers.lookup text = none := hnew
      simp [h, hnone, Name.ext_iff, eq_comm]
    · simp [List.lookup_cons, beq_false_of_ne h, Ne.symm h]
  fits := by
    rw [List.length_append, List.length_singleton]
    exact Nat.succ_le_succ hroom

/-- Give `text` the next number, unless it has one by now. -/
def insert (t : Interner) (text : String) : Option Name × Interner :=
  match hnew : t.find? text with
  | some n => (some n, t)
  | none =>
    if hroom : t.texts.length ≤ Name.greatest then
      (some ⟨t.texts.length⟩, t.add text hnew hroom)
    else (none, t)

/-- The number of `text`, the next free one on its first mention. -/
def intern (t : Interner) (text : String) : Option Name × Interner :=
  match t.find? text with
  | some n => (some n, t)
  | none => t.insert text

/-- The number of a text that is handed over for good. -/
def internOwned (t : Interner) (text : String) : Option Name × Interner := t.intern text

/-- The text with a given number. -/
def lookup (t : Interner) (n : Name) : String := (t.texts[n.raw]?).getD ""

/-- How many texts there are, the empty one included. -/
def size (t : Interner) : Nat := t.texts.length

def isEmpty (t : Interner) : Bool := t.size == 0

end Interner
end GraphLowering
