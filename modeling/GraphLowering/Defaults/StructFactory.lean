import GraphLowering.Defaults.Emit

/-!
# Defaults — struct factories

The function that gives a struct with every member at its declared default.
-/

namespace GraphLowering.Defaults

/-- Assign every member its default. -/
def emitDefaultMembers (cx : Context) (place : Place) : List (FieldId × Value) → Emit Unit :=
  fun members => members.forM fun (field, v) =>
    emitField cx (emitSubobject cx) false field v none place

/-- The code of `GetDefaultValue` for a struct, and the sink after it. -/
def structFactoryCode (cx : Context) (type : TypeId) (sink : Sink) :
    Except Fault (List Code × Sink) := do
  let name ← cx.schema.cppName type
  let defaults ← cx.schema.structDefault type
  let fields ← cx.schema.allFields type
  let place : Place := ⟨none, "DefaultData__.", []⟩
  match (emitDefaultMembers cx place (fields.zip defaults.members)).run { sink } with
  | (.error fault, _) => throw fault
  | (.ok (), s) =>
    let code := .line ("static " ++ name ++ " GetDefaultValue()") ::
      Code.braces (.line (name ++ " DefaultData__;") :: linesCode s.lines ++
        [Code.blank, .line "return DefaultData__;"])
    return (code, s.sink)

end GraphLowering.Defaults
