/-!
# Schema — metadata

Keys with values, in the order in which the keys were first set.
-/

namespace GraphLowering

/-- Keys with their values, in the order of their first setting. -/
structure Metadata where
  entries : List (String × String) := []
  deriving DecidableEq, Repr, Inhabited

namespace Metadata

/-- Give `key` a new value where it stands in `entries`, or put it at the end. -/
def setIn (key value : String) : List (String × String) → List (String × String)
  | [] => [(key, value)]
  | (k, v) :: rest => if k = key then (k, value) :: rest else (k, v) :: setIn key value rest

/-- Set `key`: an old key keeps its place, a new one comes last. -/
def set (m : Metadata) (key value : String) : Metadata := ⟨setIn key value m.entries⟩

/-- Set the listed keys in turn, starting from nothing. -/
def ofList (pairs : List (String × String)) : Metadata :=
  pairs.foldl (fun m p => m.set p.1 p.2) {}

def get? (m : Metadata) (key : String) : Option String := m.entries.lookup key

def contains (m : Metadata) (key : String) : Bool := (m.get? key).isSome

def isEmpty (m : Metadata) : Bool := m.entries.isEmpty

end Metadata
end GraphLowering
