import GraphLowering.Objects

/-!
# Defaults — local names

The live objects that generated code has at hand, each under an expression: bound ones such as
`this`, and locals given out under fresh names.  The generated class itself can own objects; one
created under it, or under an object registered with it, is registered by a statement of its own.
-/

namespace GraphLowering

/-- The class that generated code belongs to. -/
structure GeneratedClass where
  cls : TypeId
  /-- The expression for the class, as an owner. -/
  expression : String
  /-- The statement that registers a new object, in which `{local}` stands for its local. -/
  afterCreate : String
  deriving DecidableEq, Repr, Inhabited

/-- The objects at hand in generated code. -/
structure LocalNames where
  /-- The expression of each object, the latest first. -/
  names : List (ObjectId × String) := []
  /-- All expressions bound and names given out. -/
  taken : List String := []
  /-- The objects created, in order. -/
  created : List ObjectId := []
  /-- The objects registered with the generated class, in order. -/
  registered : List ObjectId := []
  /-- The archetype of an object, the latest first. -/
  archetypes : List (ObjectId × ObjectId) := []
  generated : Option GeneratedClass := none
  deriving DecidableEq, Repr, Inhabited

namespace LocalNames

/-- Record an expression for an object, and its archetype if it has one. -/
def record (n : LocalNames) (object : ObjectId) (expression : String)
    (archetype : Option ObjectId) : LocalNames :=
  { n with
    names := (object, expression) :: n.names
    taken := expression :: n.taken
    archetypes := match archetype with
      | some a => (object, a) :: n.archetypes
      | none => n.archetypes }

/-- Bind an object to an expression. -/
def bind (n : LocalNames) (object : ObjectId) (expression : String)
    (archetype : Option ObjectId) : LocalNames :=
  n.record object expression archetype

/-- The expression of an object. -/
def find? (n : LocalNames) (object : ObjectId) : Option String := n.names.lookup object

def archetypeOf? (n : LocalNames) (object : ObjectId) : Option ObjectId :=
  n.archetypes.lookup object

/-- Local name number `k`: the base name, then the base name with 0, 1, 2 and so on. -/
def localName : Nat → String
  | 0 => "__Local__"
  | k + 1 => "__Local__" ++ toString k

theorem localName_inj {i j : Nat} (h : localName i = localName j) : i = j := by
  cases i with
  | zero =>
      cases j with
      | zero => rfl
      | succ j =>
          have hlen := congrArg String.length h
          simp [localName, String.length_append] at hlen
  | succ i =>
      cases j with
      | zero =>
          have hlen := congrArg String.length h
          simp [localName, String.length_append] at hlen
      | succ j =>
          -- Reading the digits back tells the numbers.
          have hrepr : i.repr = j.repr := (String.append_right_inj _).mp h
          have hdigits := congrArg (fun s : String => Nat.ofDigitChars 10 s.toList 0) hrepr
          rw [show i = j by simpa [Nat.ofDigitChars_toDigits] using hdigits]

/-- How many of the expressions taken are none of the first `k` local names. -/
def unsearched (taken : List String) (k : Nat) : Nat :=
  taken.countP fun x => ∀ i < k, x ≠ localName i

/-- A search that finds a name taken has fewer left to find. -/
theorem unsearched_succ_lt {taken : List String} {k : Nat} (h : localName k ∈ taken) :
    unsearched taken (k + 1) < unsearched taken k := by
  have hle : ∀ xs, unsearched xs (k + 1) ≤ unsearched xs k := fun xs =>
    List.countP_mono_left fun x _ hx => by
      simp only [decide_eq_true_eq] at hx ⊢
      exact fun i hi => hx i (Nat.lt_succ_of_lt hi)
  have hself : ∀ i < k, localName k ≠ localName i := fun i hi e =>
    Nat.ne_of_gt hi (localName_inj e)
  obtain ⟨before, after, rfl⟩ := List.append_of_mem h
  have hbefore := hle before
  have hafter := hle after
  simp only [unsearched, List.countP_append, List.countP_cons, decide_eq_true_eq]
    at hbefore hafter ⊢
  rw [if_pos hself, if_neg fun hx => hx k (Nat.lt_succ_self k) rfl]
  omega

-- Recursion on a measure is closed to evaluation unless it is marked open.
/-- The first local name from number `k` on that is not taken.  Local names are all different, so a
search finds only so many of them taken. -/
@[semireducible]
def freshFrom (taken : List String) (k : Nat) : String :=
  if localName k ∈ taken then freshFrom taken (k + 1) else localName k
termination_by unsearched taken k
decreasing_by exact unsearched_succ_lt ‹_›

/-- The first local name that is not taken. -/
def fresh (n : LocalNames) : String := freshFrom n.taken 0

/-- Give an object a fresh local name. -/
def addNew (n : LocalNames) (object : ObjectId) (archetype : Option ObjectId) :
    String × LocalNames :=
  let name := n.fresh
  let n := n.record object name archetype
  (name, { n with created := n.created ++ [object] })

/-- Record that an object was registered with the generated class. -/
def register (n : LocalNames) (object : ObjectId) : LocalNames :=
  { n with registered := n.registered ++ [object] }

/-- An owner at hand. -/
structure Owner where
  expression : String
  /-- The statement that registers an object created under this owner. -/
  afterCreate : Option String
  deriving DecidableEq, Repr, Inhabited

/-- The owner of an object, if it is at hand: the generated class, or an object with an
expression. -/
def owner? (n : LocalNames) : Outer → Option Owner
  | .package _ => none
  | .type t =>
    (n.generated.filter (·.cls = t)).map fun g => ⟨g.expression, some g.afterCreate⟩
  | .object o =>
    let afterCreate := (n.generated.filter fun _ => n.registered.contains o).map (·.afterCreate)
    (n.find? o).map fun name => ⟨name, afterCreate⟩

end LocalNames
end GraphLowering
