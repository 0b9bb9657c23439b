/-!
# Text — lines

`lines` cuts a text at its line feeds.  A carriage return right before a line feed belongs to
the line end and is dropped; a last line without a line feed keeps whatever it holds; a text
that ends in a line feed has no empty last line.
-/

namespace GraphLowering.Text

/-- The line held back in `pending` (latest character first), without the carriage return of
its line end. -/
def closeLine (pending : List Char) : List Char :=
  match pending with
  | '\r' :: rest => rest.reverse
  | _ => pending.reverse

/-- The lines of `pending.reverse ++ cs`, where `pending` holds no line feed. -/
def linesFrom (pending : List Char) : List Char → List (List Char)
  | [] => if pending.isEmpty then [] else [pending.reverse]
  | '\n' :: cs => closeLine pending :: linesFrom [] cs
  | c :: cs => linesFrom (c :: pending) cs

/-- The lines of a text. -/
def lines (text : String) : List String :=
  (linesFrom [] text.toList).map String.ofList

end GraphLowering.Text
