import GraphLowering.Lowering.Statement
import GraphLowering.Text.Blank
import GraphLowering.Text.Number

/-!
# Options

How a package is compiled, and the two options that an environment can override.  A value that
cannot be read leaves its option as it was.
-/

namespace GraphLowering

structure CompileOptions where
  /-- More errors than this in a package stop the run. -/
  errorLimit : Option Nat := none
  comments : CommentOptions := {}
  /-- One level of indentation. -/
  indent : String := "\t"
  /-- A fatal diagnostic stops the run. -/
  failOnFatal : Bool := false
  deriving DecidableEq, Repr, Inhabited

namespace CompileOptions

/-- A setting of one option. -/
inductive Setting
  | errorLimit (limit : Nat)
  | emitComments (emit : Bool)
  | emitDebugSites (emit : Bool)
  | indent (unit : String)
  | failOnFatal (fail : Bool)
  /-- What an environment says about the error limit and about comments. -/
  | environment (errorLimit emitComments : Option String)
  deriving DecidableEq, Repr, Inhabited

/-- Read a switch. -/
def parseFlag? (raw : String) : Option Bool :=
  let word := String.ofList ((Text.trim raw).toList.map Char.toLower)
  if ["1", "true", "yes", "on"].contains word then some true
  else if ["0", "false", "no", "off"].contains word then some false
  else none

/-- The options, overridden by what an environment says about the error limit and about
comments. -/
def withEnvironment (o : CompileOptions) (errorLimit emitComments : Option String) :
    CompileOptions :=
  let limit := errorLimit.bind fun raw => Text.count? (Text.trim raw)
  let comments := emitComments.bind parseFlag?
  { o with
    errorLimit := limit <|> o.errorLimit
    comments := { o.comments with emitComments := comments.getD o.comments.emitComments } }

/-- The options after one setting. -/
def apply (o : CompileOptions) : Setting → CompileOptions
  | .errorLimit limit => { o with errorLimit := some limit }
  | .emitComments emit => { o with comments := { o.comments with emitComments := emit } }
  | .emitDebugSites emit => { o with comments := { o.comments with emitDebugSites := emit } }
  | .indent unit => { o with indent := unit }
  | .failOnFatal fail => { o with failOnFatal := fail }
  | .environment errorLimit emitComments => o.withEnvironment errorLimit emitComments

/-- The default options after settings in turn. -/
def ofSettings (settings : List Setting) : CompileOptions := settings.foldl apply {}

end CompileOptions
end GraphLowering
