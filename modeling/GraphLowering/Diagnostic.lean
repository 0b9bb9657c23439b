/-!
# Diagnostics

A problem found while lowering never stops the work: it is reported to a sink, a placeholder is
written in its place, and the emitter moves on.  Each problem has a code, a severity and a
message; the sink adds the unit, function and statement in which it arose.
-/

namespace GraphLowering

/-- Severities, the least severe first. -/
inductive Severity
  | info | warning | error
  /-- The generated unit must not be used. -/
  | fatal
  deriving DecidableEq, Repr, Inhabited

namespace Severity

def all : List Severity := [info, warning, error, fatal]

def text : Severity → String
  | info => "info"
  | warning => "warning"
  | error => "error"
  | fatal => "fatal"

/-- An error or worse. -/
def isError : Severity → Bool
  | info | warning => false
  | error | fatal => true

end Severity

/-- The stable code of each kind of problem. -/
inductive ErrorCode
  | e5001 | e5002 | e5003 | e5004 | e5005 | e5006 | e5007 | e5008
  deriving DecidableEq, Repr, Inhabited

namespace ErrorCode

def all : List ErrorCode := [e5001, e5002, e5003, e5004, e5005, e5006, e5007, e5008]

def text : ErrorCode → String
  | e5001 => "E5001"
  | e5002 => "E5002"
  | e5003 => "E5003"
  | e5004 => "E5004"
  | e5005 => "E5005"
  | e5006 => "E5006"
  | e5007 => "E5007"
  | e5008 => "E5008"

/-- The code with a given text; the case of ASCII letters does not matter. -/
def parse? (text : String) : Option ErrorCode :=
  all.find? fun c => c.text.toList.map Char.toLower == text.toList.map Char.toLower

end ErrorCode

/-- What went wrong. -/
inductive Problem
  | unsupportedStatementKind (kind : String)
  | missingReturnProperty (function : String)
  | duplicateReturnProperty (function : String)
  | unresolvedJumpTarget (kind : String)
  | unsupportedInlineStatement (kind : String)
  | unrenderableLiteral (type : String)
  | compileErrorMarker (message : String)
  | inaccessibleField (field : String)
  deriving DecidableEq, Repr, Inhabited

namespace Problem

def code : Problem → ErrorCode
  | unsupportedStatementKind _ => .e5001
  | missingReturnProperty _ => .e5002
  | duplicateReturnProperty _ => .e5003
  | unresolvedJumpTarget _ => .e5004
  | unsupportedInlineStatement _ => .e5005
  | unrenderableLiteral _ => .e5006
  | compileErrorMarker _ => .e5007
  | inaccessibleField _ => .e5008

def severity : Problem → Severity
  | compileErrorMarker _ => .fatal
  | unrenderableLiteral _ => .warning
  | unsupportedStatementKind _ | missingReturnProperty _ | duplicateReturnProperty _
  | unresolvedJumpTarget _ | unsupportedInlineStatement _ | inaccessibleField _ => .error

def message : Problem → String
  | unsupportedStatementKind kind => s!"statement kind `{kind}` is not supported here"
  | missingReturnProperty f => s!"call to `{f}` has no result terminal for its return value"
  | duplicateReturnProperty f => s!"function `{f}` declares more than one return value"
  | unresolvedJumpTarget kind => s!"`{kind}` statement has no resolvable jump target"
  | unsupportedInlineStatement kind =>
    s!"statement kind `{kind}` cannot be rendered as an expression"
  | unrenderableLiteral t => s!"value of type `{t}` has no literal form"
  | compileErrorMarker m => s!"compile error: {m}"
  | inaccessibleField f => s!"field `{f}` is not accessible from generated code"

end Problem

/-- Where a problem arose. -/
structure Origin where
  unit : Option String := none
  function : Option String := none
  /-- The statement within the function. -/
  statement : Option Nat := none
  deriving DecidableEq, Repr, Inhabited

namespace Origin

def text (o : Origin) : String :=
  let place := match o.unit, o.function with
    | some unit, some function => unit ++ "::" ++ function
    | some unit, none => unit
    | none, some function => function
    | none, none => "<package>"
  match o.statement with
  | some statement => place ++ "#" ++ toString statement
  | none => place

end Origin

structure Diagnostic where
  problem : Problem
  origin : Origin
  deriving DecidableEq, Repr, Inhabited

namespace Diagnostic

def severity (d : Diagnostic) : Severity := d.problem.severity

def code (d : Diagnostic) : ErrorCode := d.problem.code

def message (d : Diagnostic) : String := d.problem.message

def isError (d : Diagnostic) : Bool := d.severity.isError

def isFatal (d : Diagnostic) : Bool := d.severity = .fatal

def text (d : Diagnostic) : String :=
  d.severity.text ++ "[" ++ d.code.text ++ "]: " ++ d.message ++ " (" ++ d.origin.text ++ ")"

end Diagnostic

/-- The diagnostics reported so far, and where the next one will be placed. -/
structure Sink where
  diagnostics : List Diagnostic := []
  origin : Origin := {}
  deriving DecidableEq, Repr, Inhabited

namespace Sink

/-- Enter a unit, outside all of its functions. -/
def enterUnit (s : Sink) (unit : String) : Sink := { s with origin := { unit := some unit } }

/-- Enter or leave a function, before its first statement. -/
def enterFunction (s : Sink) (function : Option String) : Sink :=
  { s with origin := { s.origin with function, statement := none } }

/-- Enter or leave a statement. -/
def enterStatement (s : Sink) (statement : Option Nat) : Sink :=
  { s with origin := { s.origin with statement } }

def report (s : Sink) (p : Problem) : Sink :=
  { s with diagnostics := s.diagnostics ++ [⟨p, s.origin⟩] }

/-- Hand over the diagnostics and keep the origin. -/
def drain (s : Sink) : List Diagnostic × Sink := (s.diagnostics, { s with diagnostics := [] })

def size (s : Sink) : Nat := s.diagnostics.length

def isEmpty (s : Sink) : Bool := s.diagnostics.isEmpty

def count (s : Sink) (severity : Severity) : Nat :=
  s.diagnostics.countP (·.severity = severity)

def errorCount (s : Sink) : Nat := s.diagnostics.countP (·.isError)

def hasErrors (s : Sink) : Bool := s.diagnostics.any (·.isError)

def hasFatal (s : Sink) : Bool := s.diagnostics.any (·.isFatal)

end Sink
end GraphLowering
