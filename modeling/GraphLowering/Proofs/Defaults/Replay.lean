import GraphLowering.Defaults.Emit

/-!
# Defaults — replay

What emitted lines do when they are run in order, on a store that keeps the fields of each object.
A literal or a local stands for the value or the object that it was written for, and a new object
starts with the values of its archetype.

* `change`: a change of a part of a value, which fails where there is no such part.  Changes of
  one part in turn are one change (`change_bind`), and a part of a part is a part
  (`change_append`).
* `replay`: the effect of lines.
* `settle`: the store in which some created objects hold what the live ones do.
-/

namespace GraphLowering.Defaults

/-! ### Parts of values -/

/-- Change the item at a place. -/
def changeAt (i : Nat) (f : Value → Option Value) (xs : List Value) : Option (List Value) :=
  (xs[i]?.bind f).map (xs.set i)

/-- The place of a field among the members of a struct. -/
def slot? (schema : Schema) (type : TypeId) (field : FieldId) : Option Nat :=
  (schema.allFields type).toOption.bind fun fields => fields.idxOf? field

/-- Change the part of a value at the end of some steps. -/
def change (schema : Schema) : List PathStep → (Value → Option Value) → Value → Option Value
  | [], f, v => f v
  | .element i :: steps, f, .array items =>
    (changeAt i (change schema steps f) items).map .array
  | .member field _ :: steps, f, .struct type members =>
    (slot? schema type field).bind fun slot =>
      (changeAt slot (change schema steps f) members).map (.struct type)
  | _ :: _, _, _ => none

variable {schema : Schema}

theorem changeAt_append {pre post : List Value} {x : Value} {i : Nat} (hi : pre.length = i)
    (f : Value → Option Value) :
    changeAt i f (pre ++ x :: post) = (f x).map fun y => pre ++ y :: post := by
  subst hi
  cases hf : f x <;> simp [changeAt, hf]

theorem changeAt_bind (i : Nat) (f g : Value → Option Value) (xs : List Value) :
    (changeAt i f xs).bind (changeAt i g) = changeAt i (fun x => (f x).bind g) xs := by
  unfold changeAt
  cases hx : xs[i]? with
  | none => rfl
  | some x =>
      obtain ⟨hi, -⟩ := List.getElem?_eq_some_iff.mp hx
      cases hf : f x with
      | none => simp [hf]
      | some y => cases hg : g y <;> simp [hf, hi, hg]

theorem changeAt_keeps {i : Nat} {f : Value → Option Value} (hf : ∀ x y, f x = some y → y = x)
    {xs ys : List Value} (h : changeAt i f xs = some ys) : ys = xs := by
  obtain ⟨y, hy, rfl⟩ := Option.map_eq_some_iff.mp h
  obtain ⟨x, hx, hxy⟩ := Option.bind_eq_some_iff.mp hy
  obtain ⟨hi, rfl⟩ := List.getElem?_eq_some_iff.mp hx
  rw [hf _ _ hxy]
  exact List.set_getElem_self hi

/-- A part of a part is a part. -/
theorem change_append (p q : List PathStep) (f : Value → Option Value) (v : Value) :
    change schema (p ++ q) f v = change schema p (change schema q f) v := by
  induction p generalizing v with
  | nil => rfl
  | cons step p ih =>
      have hpart : change schema (p ++ q) f = change schema p (change schema q f) := funext ih
      cases step <;> cases v <;> simp only [List.cons_append, change, hpart]

/-- Changes of one part in turn are one change. -/
theorem change_bind (p : List PathStep) (f g : Value → Option Value) (v : Value) :
    (change schema p f v).bind (change schema p g) =
      change schema p (fun w => (f w).bind g) v := by
  induction p generalizing v with
  | nil => rfl
  | cons step p ih =>
      have hpart : (fun w => (change schema p f w).bind (change schema p g)) =
          change schema p fun w => (f w).bind g := funext ih
      cases step with
      | element i =>
          cases v with
          | array items =>
              simp only [change, ← hpart, ← changeAt_bind, Option.bind_map, Option.map_bind]
              rfl
          | _ => rfl
      | member field name =>
          cases v with
          | struct type members =>
              simp only [change]
              cases hslot : slot? schema type field with
              | none => rfl
              | some slot =>
                  simp only [← hpart, ← changeAt_bind, Option.bind_some, Option.bind_map,
                    Option.map_bind]
                  congr 1
                  funext members'
                  simp [change, hslot]
          | _ => rfl

/-- A change that puts a part back changes nothing. -/
theorem change_keeps {f : Value → Option Value} (hf : ∀ x y, f x = some y → y = x)
    {p : List PathStep} {v w : Value} (h : change schema p f v = some w) : w = v := by
  induction p generalizing v w with
  | nil => exact hf v w h
  | cons step p ih =>
      have hpart : ∀ x y, change schema p f x = some y → y = x := fun _ _ h => ih h
      cases step with
      | element i =>
          cases v with
          | array items =>
              obtain ⟨items', hitems, rfl⟩ := Option.map_eq_some_iff.mp h
              rw [changeAt_keeps hpart hitems]
          | _ => cases h
      | member field name =>
          cases v with
          | struct type members =>
              obtain ⟨slot, -, h⟩ := Option.bind_eq_some_iff.mp h
              obtain ⟨members', hmembers, rfl⟩ := Option.map_eq_some_iff.mp h
              rw [changeAt_keeps hpart hmembers]
          | _ => cases h

/-! ### Stores -/

/-- What the objects at hand hold in their fields. -/
abbrev Store := Holder → FieldId → Option Value

namespace Store

def set (st : Store) (h : Holder) (field : FieldId) (v : Value) : Store :=
  fun h' field' => if h' = h ∧ field' = field then some v else st h' field'

/-- Change a part of a field. -/
def change (schema : Schema) (st : Store) (p : Place) (f : Value → Option Value) : Option Store :=
  match p.holder, p.steps with
  | some h, .member field _ :: steps =>
    ((st h field).bind (Defaults.change schema steps f)).map (st.set h field)
  | _, _ => none

theorem set_set (st : Store) (h : Holder) (field : FieldId) (v w : Value) :
    (st.set h field v).set h field w = st.set h field w := by
  funext h' field'
  unfold set
  split <;> rfl

theorem set_self {st : Store} {h : Holder} {field : FieldId} {v : Value}
    (hv : st h field = some v) : st.set h field v = st := by
  funext h' field'
  unfold set
  split
  · rename_i heq
    rw [heq.1, heq.2, hv]
  · rfl

theorem set_apply_self (st : Store) (h : Holder) (field : FieldId) (v : Value) :
    st.set h field v h field = some v :=
  if_pos ⟨rfl, rfl⟩

/-- Changes of one part in turn are one change. -/
theorem change_bind (st : Store) (p : Place) (f g : Value → Option Value) :
    (st.change schema p f).bind (·.change schema p g) =
      st.change schema p fun w => (f w).bind g := by
  unfold change
  split
  · rename_i h field name steps _ _
    cases hv : st h field with
    | none => rfl
    | some v =>
        simp only [Option.bind_some, ← Defaults.change_bind]
        cases hf : Defaults.change schema steps f v with
        | none => rfl
        | some w =>
            simp only [Option.map_some, Option.bind_some, set_apply_self]
            cases hg : Defaults.change schema steps g w with
            | none => rfl
            | some u => simp only [Option.map_some, set_set]
  · rfl

/-- A change that puts a part back changes nothing. -/
theorem change_keeps {f : Value → Option Value} (hf : ∀ x y, f x = some y → y = x) {st st' : Store}
    {p : Place} (h : st.change schema p f = some st') : st' = st := by
  unfold change at h
  split at h
  · obtain ⟨w, hw, rfl⟩ := Option.map_eq_some_iff.mp h
    obtain ⟨v, hv, hvw⟩ := Option.bind_eq_some_iff.mp hw
    rw [Defaults.change_keeps hf hvw, set_self hv]
  · cases h

/-- A change behind one more step, for a place inside a field. -/
theorem change_step {st : Store} {p : Place} (hp : p.steps ≠ []) (step : PathStep)
    (f : Value → Option Value) :
    st.change schema { p with steps := p.steps ++ [step] } f =
      st.change schema p (Defaults.change schema [step] f) := by
  obtain ⟨holder, root, steps⟩ := p
  cases steps with
  | nil => exact absurd rfl hp
  | cons first steps =>
      cases first with
      | element i => cases holder <;> rfl
      | member field name =>
          cases holder with
          | none => rfl
          | some h =>
              simp only [change, List.cons_append]
              rw [funext (change_append steps [step] f)]

end Store

/-! ### Lines -/

/-- The fields of an object, by its class. -/
def fieldsOf (cx : Context) (object : ObjectId) : Except Fault (List FieldId) := do
  cx.schema.allFields (← cx.objects.object object).cls

/-- What a field of an object holds, for a field that it has. -/
def held (cx : Context) (value : FieldId → Except Fault Value) (object : ObjectId)
    (field : FieldId) : Option Value :=
  (fieldsOf cx object).toOption.bind fun fields =>
    if field ∈ fields then (value field).toOption else none

namespace Store

/-- Give a created object values. -/
def give (cx : Context) (value : FieldId → Except Fault Value) (object : ObjectId)
    (st : Store) : Store :=
  fun h field => if h = .created object then held cx value object field else st h field

/-- Created objects hold what the live ones do. -/
def settle (cx : Context) (objects : List ObjectId) (st : Store) : Store :=
  fun h field =>
    match h with
    | .created object =>
      if object ∈ objects then held cx (cx.fieldValue object) object field else st h field
    | .given _ => st h field

end Store

/-- The value that a source was written for. -/
def Source.read (schema : Schema) : Source → Option Value
  | .literal _ v _ => some v
  | .object id _ => some (.object (some id))
  | .structDefault t _ => (schema.defaultValue t).toOption

/-- Change the items of an array. -/
def onItems (f : List Value → List Value) : Value → Option Value
  | .array items => some (.array (f items))
  | _ => none

/-- The store after a line. -/
def Line.apply (cx : Context) (st : Store) : Line → Option Store
  | .assign place source =>
    (source.read cx.schema).bind fun v => st.change cx.schema place fun _ => some v
  | .clear place => st.change cx.schema place (onItems fun _ => [])
  | .reserve place _ => st.change cx.schema place (onItems id)
  | .append place source =>
    (source.read cx.schema).bind fun v => st.change cx.schema place (onItems (· ++ [v]))
  | .create c => some (st.give cx (startValue cx c.archetype) c.object)
  | .register _ _ _ => some st

/-- The store after lines in order. -/
def replay (cx : Context) : List Line → Store → Option Store
  | [], st => some st
  | l :: ls, st => (l.apply cx st).bind (replay cx ls)

/-- The objects that lines create, in order. -/
def createdBy (ls : List Line) : List ObjectId :=
  ls.filterMap fun
    | .create c => some c.object
    | _ => none

variable {cx : Context}

theorem replay_append (ls ls' : List Line) (st : Store) :
    replay cx (ls ++ ls') st = (replay cx ls st).bind (replay cx ls') := by
  induction ls generalizing st with
  | nil => rfl
  | cons l ls ih =>
      simp only [List.cons_append, replay, Option.bind_assoc]
      rw [funext ih]

theorem replay_singleton (l : Line) (st : Store) : replay cx [l] st = l.apply cx st := by
  unfold replay
  cases l.apply cx st <;> rfl

/-! ### Settled objects -/

namespace Store

theorem settle_nil (st : Store) : st.settle cx [] = st := by
  funext h field
  cases h <;> simp [settle]

theorem settle_settle (st : Store) (xs ys : List ObjectId) :
    (st.settle cx xs).settle cx ys = st.settle cx (xs ++ ys) := by
  funext h field
  cases h with
  | given object => rfl
  | created object =>
      by_cases hx : object ∈ xs <;> by_cases hy : object ∈ ys <;> simp [settle, hx, hy]

theorem settle_of_not_mem (st : Store) {objects : List ObjectId} {h : Holder}
    (hh : ∀ object ∈ objects, h ≠ .created object) (field : FieldId) :
    st.settle cx objects h field = st h field := by
  cases h with
  | given object => rfl
  | created object =>
      have hmem : object ∉ objects := fun hm => hh object hm rfl
      simp [settle, hmem]

theorem set_settle (st : Store) {objects : List ObjectId} {h : Holder}
    (hh : ∀ object ∈ objects, h ≠ .created object) (field : FieldId) (v : Value) :
    (st.settle cx objects).set h field v = (st.set h field v).settle cx objects := by
  funext h' field'
  by_cases heq : h' = h ∧ field' = field
  · obtain ⟨rfl, rfl⟩ := heq
    rw [settle_of_not_mem _ hh, set_apply_self, set_apply_self]
  · cases h' with
    | given object => simp only [set, if_neg heq, settle]
    | created object => simp only [set, if_neg heq, settle]

/-- A change does not meddle with other objects. -/
theorem change_settle {st st' : Store} {p : Place} {f : Value → Option Value}
    {objects : List ObjectId} (hp : ∀ object ∈ objects, p.holder ≠ some (.created object))
    (h : st.change schema p f = some st') :
    (st.settle cx objects).change schema p f = some (st'.settle cx objects) := by
  unfold change at h ⊢
  split at h
  · rename_i holder field name steps hholder hsteps
    have hh : ∀ object ∈ objects, holder ≠ .created object :=
      fun object hm e => hp object hm (by rw [hholder, e])
    obtain ⟨w, hw, rfl⟩ := Option.map_eq_some_iff.mp h
    simp only [settle_of_not_mem st hh, hw, Option.map_some, set_settle st hh]
  · cases h

end Store
end GraphLowering.Defaults
