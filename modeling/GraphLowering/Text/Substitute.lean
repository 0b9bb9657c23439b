/-!
# Text — substitution

`substitute pattern new text` puts `new` in place of every occurrence of a non-empty pattern, the
occurrences taken from the left and not overlapping; `replaceChar` does so for one character.
-/

namespace GraphLowering.Text

/-- Skip `skip` characters of an occurrence already replaced, then go on replacing. -/
def substituteFrom (pattern new : List Char) : Nat → List Char → List Char
  | _, [] => []
  | skip + 1, _ :: cs => substituteFrom pattern new skip cs
  | 0, c :: cs =>
    if pattern.isPrefixOf (c :: cs) then
      new ++ substituteFrom pattern new (pattern.length - 1) cs
    else
      c :: substituteFrom pattern new 0 cs

/-- The text with every occurrence of `pattern` replaced. -/
def substitute (pattern new text : String) : String :=
  String.ofList (substituteFrom pattern.toList new.toList 0 text.toList)

/-- The text with every `old` replaced by the characters `new`. -/
def replaceChar (old : Char) (new : List Char) (text : String) : String :=
  String.ofList (text.toList.flatMap fun c => if c = old then new else [c])

end GraphLowering.Text
