import GraphLowering.Code.Writer

/-!
# Code — marks

The steps of a writer as data: lines, changes of depth, and texts of their own.  A text of its own
is written from depth 0 and then cut into lines again, which is how a finished piece of source is
put inside another.  Marks know nothing of the indentation that they will be written with.
-/

namespace GraphLowering

/-- One step of a writer. -/
inductive Mark
  | line (text : String)
  | indent
  | dedent
  /-- The lines of the text that other steps give. -/
  | relined (body : List Mark)
  deriving Repr, Inhabited

namespace Mark

mutual

/-- Take one step. -/
def write (w : CodeWriter) : Mark → CodeWriter
  | .line text => w.line text
  | .indent => w.indent
  | .dedent => w.dedent
  | .relined body => w.lines (writeAll { indentUnit := w.indentUnit } body).output

/-- Take steps in turn. -/
def writeAll (w : CodeWriter) : List Mark → CodeWriter
  | [] => w
  | m :: ms => writeAll (write w m) ms

end

/-- The text of steps that start at depth 0. -/
def render (indentUnit : String) (ms : List Mark) : String :=
  (writeAll { indentUnit } ms).output

end Mark
end GraphLowering
