/-!
# Text — quoted

`escape` writes a text so that it can stand between double quotes: the backslash, both quotes,
line feed, carriage return and tab take a backslash, all else stands for itself.
-/

namespace GraphLowering.Text

/-- What one character becomes between quotes. -/
def escapeChar : Char → List Char
  | '\\' => ['\\', '\\']
  | '"' => ['\\', '"']
  | '\'' => ['\\', '\'']
  | '\n' => ['\\', 'n']
  | '\r' => ['\\', 'r']
  | '\t' => ['\\', 't']
  | c => [c]

/-- The text as it stands between double quotes. -/
def escape (text : String) : String :=
  String.ofList (text.toList.flatMap escapeChar)

/-- The text in double quotes. -/
def quote (text : String) : String :=
  "\"" ++ escape text ++ "\""

end GraphLowering.Text
