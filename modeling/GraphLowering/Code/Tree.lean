import GraphLowering.Code.Mark

/-!
# Code — the tree

Source as a tree: lines, parts one level deeper, parts behind checks, and texts of their own.  A
tree can only come back from a level that it entered.
-/

namespace GraphLowering

/-- A piece of source. -/
inductive Code
  | line (text : String)
  /-- Pieces one level deeper. -/
  | nested (body : List Code)
  /-- Pieces that run when every check holds. -/
  | guarded (checks : List String) (body : List Code)
  /-- A text of its own, cut into lines. -/
  | relined (body : List Mark)
  deriving Repr, Inhabited

namespace Code

/-- An empty line. -/
def blank : Code := .line ""

/-- Pieces in braces, one level deeper. -/
def braces (body : List Code) : List Code := [.line "\x7b", .nested body, .line "\x7d"]

/-- All checks hold. -/
def conjunction (checks : List String) : String := " && ".intercalate checks

/-- The head of a conditional block. -/
def ifLine (condition : String) : String := "if (" ++ condition ++ ")"

mutual

/-- The writer's steps for a piece of source. -/
def marks : Code → List Mark
  | .line text => [.line text]
  | .nested body => .indent :: marksAll body ++ [.dedent]
  | .guarded checks body =>
    [.line (ifLine (conjunction checks)), .line "\x7b", .indent] ++ marksAll body ++
      [.dedent, .line "\x7d"]
  | .relined body => [.relined body]

/-- The writer's steps for pieces of source in turn. -/
def marksAll : List Code → List Mark
  | [] => []
  | c :: cs => marks c ++ marksAll cs

end

/-- The text of pieces of source that start at depth 0. -/
def render (indentUnit : String) (body : List Code) : String :=
  Mark.render indentUnit (marksAll body)

/-- Pieces of source as a text of its own. -/
def asText (body : List Code) : Code := .relined (marksAll body)

end Code
end GraphLowering
