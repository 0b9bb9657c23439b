import GraphLowering.Text.Lines

/-!
# Code — the writer

A writer appends lines to a text, each behind the indentation of its depth.  An empty line takes
no indentation.
-/

namespace GraphLowering

/-- A text under construction. -/
structure CodeWriter where
  /-- What one level of depth puts in front of a line. -/
  indentUnit : String
  depth : Nat := 0
  output : String := ""
  deriving DecidableEq, Repr, Inhabited

namespace CodeWriter

/-- Go one level deeper. -/
def indent (w : CodeWriter) : CodeWriter := { w with depth := w.depth + 1 }

/-- Come back one level; depth 0 stays. -/
def dedent (w : CodeWriter) : CodeWriter := { w with depth := w.depth - 1 }

/-- A number of copies of a text. -/
def copies (unit : String) : Nat → String
  | 0 => ""
  | n + 1 => copies unit n ++ unit

/-- Write one line at the present depth. -/
def line (w : CodeWriter) (text : String) : CodeWriter :=
  if text.isEmpty then { w with output := w.output ++ "\n" }
  else { w with output := w.output ++ copies w.indentUnit w.depth ++ text ++ "\n" }

/-- Write every line of a text at the present depth. -/
def lines (w : CodeWriter) (text : String) : CodeWriter := (Text.lines text).foldl line w

def isEmpty (w : CodeWriter) : Bool := w.output.isEmpty

/-- Hand over the text and start a new one at the same depth. -/
def take (w : CodeWriter) : String × CodeWriter := (w.output, { w with output := "" })

end CodeWriter
end GraphLowering
