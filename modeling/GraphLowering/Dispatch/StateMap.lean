import GraphLowering.Schema.ValueType

/-!
# Dispatch — state numbers

The statements that a dispatch loop can enter, numbered from 1 in the order of their first
mention.  State 0 is the entry of the function and -1 its exit.  Numbers stop growing at the
greatest 32-bit integer.
-/

namespace GraphLowering

/-- The state in which a function starts. -/
def entryState : Int := 0

/-- The state that ends the dispatch loop. -/
def exitState : Int := -1

/-- The greatest number of a state. -/
def maxState : Nat := 0x7FFFFFFF

/-- The state of the statement at a place in the order of first mention. -/
def StateMap.stateAt (i : Nat) : Int := Int.ofNat (min (i + 1) maxState)

/-- At first there is nothing to number. -/
theorem StateMap.numbered_nil (i : Nat) (s : StmtId) (h : ([] : List StmtId)[i]? = some s) :
    ([] : List (StmtId × Int)).lookup s = some (stateAt i) := by
  cases h

theorem StateMap.mentioned_nil (s : StmtId) (n : Int)
    (h : ([] : List (StmtId × Int)).lookup s = some n) : s ∈ ([] : List StmtId) := by
  cases h

/-- The statements mentioned so far, both by statement, with their states, and in the order of their
numbers. -/
structure StateMap where
  /-- The states given out. -/
  states : List (StmtId × Int) := []
  /-- The statements that have a state, in the order of their first mention. -/
  order : List StmtId := []
  /-- Every statement in the order has the state of its place. -/
  numbered : ∀ i s, order[i]? = some s → states.lookup s = some (StateMap.stateAt i) := by
    exact StateMap.numbered_nil
  /-- No other statement has a state. -/
  mentioned : ∀ s n, states.lookup s = some n → s ∈ order := by
    exact StateMap.mentioned_nil
  deriving DecidableEq, Repr

namespace StateMap

instance : Inhabited StateMap := ⟨{}⟩

/-- The state of a statement mentioned before. -/
def get? (m : StateMap) (s : StmtId) : Option Int := m.states.lookup s

/-- A statement in the order is not missed by the look-up. -/
theorem isSome_get? (m : StateMap) {s : StmtId} (h : s ∈ m.order) : (m.get? s).isSome = true := by
  obtain ⟨i, hi⟩ := List.mem_iff_getElem?.mp h
  rw [get?, m.numbered i s hi]
  rfl

/-- The map with one more statement, which takes the next free state. -/
def add (m : StateMap) (s : StmtId) (hnew : m.get? s = none) : StateMap where
  states := (s, stateAt m.order.length) :: m.states
  order := m.order ++ [s]
  numbered := by
    intro i t ht
    by_cases hi : i < m.order.length
    · rw [List.getElem?_append_left hi] at ht
      have hts : t ≠ s := by
        rintro rfl
        simpa [hnew] using m.isSome_get? (List.mem_of_getElem? ht)
      rw [List.lookup_cons, beq_false_of_ne hts]
      exact m.numbered i t ht
    · obtain ⟨rfl, rfl⟩ : i = m.order.length ∧ s = t := by
        rw [List.getElem?_append_right (Nat.le_of_not_lt hi), List.getElem?_singleton] at ht
        split at ht
        · exact ⟨by omega, Option.some.inj ht⟩
        · cases ht
      exact List.lookup_cons_self
  mentioned := by
    intro t n ht
    by_cases hts : t = s
    · simp [hts]
    · rw [List.lookup_cons, beq_false_of_ne hts] at ht
      exact List.mem_append_left _ (m.mentioned t n ht)

/-- The state of a statement, the next free one on its first mention. -/
def stateOf (m : StateMap) (s : StmtId) : Int × StateMap :=
  match h : m.get? s with
  | some n => (n, m)
  | none => (stateAt m.order.length, m.add s h)

def size (m : StateMap) : Nat := m.order.length

def isEmpty (m : StateMap) : Bool := m.order.isEmpty

/-- The statements with their states, in the order of first mention. -/
def toList (m : StateMap) : List (StmtId × Int) :=
  m.order.attach.map fun ⟨s, h⟩ => (s, (m.get? s).get (m.isSome_get? h))

end StateMap
end GraphLowering
