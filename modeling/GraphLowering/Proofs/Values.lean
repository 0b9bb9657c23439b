import GraphLowering.Context

/-!
# Values

Values that are identical are the same; and the objects that a value refers to.
-/

namespace GraphLowering

namespace Value

mutual

theorem eq_of_identical : (v w : Value) → v.identical w = true → v = w
  | .struct type members, w, h => by
      cases w with
      | struct type' members' =>
          simp only [identical, Bool.and_eq_true, beq_iff_eq] at h
          rw [h.1, eq_of_allIdentical members members' h.2]
      | _ => simp [identical] at h
  | .array items, w, h => by
      cases w with
      | array items' => rw [eq_of_allIdentical items items' (by simpa [identical] using h)]
      | _ => simp [identical] at h
  | .float f, w, h => by
      cases w with
      | float g =>
          cases f
          cases g
          simpa [identical] using h
      | _ => simp [identical] at h
  | .bool _, w, h | .byte _, w, h | .int _, w, h | .name _, w, h | .string _, w, h
  | .text _, w, h | .object _, w, h | .classRef _, w, h | .softObject _, w, h
  | .softClass _, w, h | .delegate _, w, h => by cases w <;> simp_all [identical]

theorem eq_of_allIdentical : (vs ws : List Value) → allIdentical vs ws = true → vs = ws
  | [], ws, h => by
      cases ws with
      | nil => rfl
      | cons w ws => simp [allIdentical] at h
  | v :: vs, ws, h => by
      cases ws with
      | nil => simp [allIdentical] at h
      | cons w ws =>
          simp only [allIdentical, Bool.and_eq_true] at h
          rw [eq_of_identical v w h.1, eq_of_allIdentical vs ws h.2]

end

mutual

@[simp] theorem identical_self : (v : Value) → v.identical v = true
  | .struct type members => by simp [identical, allIdentical_self members]
  | .array items => by simp [identical, allIdentical_self items]
  | .bool _ | .byte _ | .int _ | .float _ | .name _ | .string _ | .text _ | .object _
  | .classRef _ | .softObject _ | .softClass _ | .delegate _ => by simp [identical]

@[simp] theorem allIdentical_self : (vs : List Value) → allIdentical vs vs = true
  | [] => rfl
  | v :: vs => by simp [allIdentical, identical_self v, allIdentical_self vs]

end

/-- Values are identical to themselves alone.  Single-precision numbers are compared by their bits,
so that this holds of NaN too. -/
theorem identical_iff {v w : Value} : v.identical w = true ↔ v = w :=
  ⟨eq_of_identical v w, fun h => h ▸ identical_self v⟩

end Value

/-! ### The objects in a value -/

/-- The value refers to the object, itself or in one of its parts. -/
inductive Value.RefersTo (o : ObjectId) : Value → Prop
  | object : RefersTo o (.object (some o))
  | member {type : TypeId} {members : List Value} {v : Value} (hv : v ∈ members)
      (h : RefersTo o v) : RefersTo o (.struct type members)
  | item {items : List Value} {v : Value} (hv : v ∈ items) (h : RefersTo o v) :
      RefersTo o (.array items)

theorem Value.RefersTo.of_staticElement {o : ObjectId} {v w : Value} {i : Nat}
    (hw : v.staticElement i = some w) (h : w.RefersTo o) : v.RefersTo o := by
  unfold Value.staticElement at hw
  split at hw
  · exact .item (List.mem_of_getElem? hw) h
  · split at hw
    · cases hw
      exact h
    · cases hw

/-- A field of the first object holds a value that refers to the second. -/
def Context.Refers (cx : Context) (o p : ObjectId) : Prop :=
  ∃ field v, cx.fieldValue o field = .ok v ∧ v.RefersTo p

end GraphLowering
