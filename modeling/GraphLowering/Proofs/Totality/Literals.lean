import GraphLowering.Literal
import GraphLowering.Proofs.Totality.Schema

/-!
# Totality — objects and literals

What a live object holds, the path under which it is known, and the text of a value all have an
answer.

* `Grounded.fieldValue`: what an object holds is in range.
* `Rooted.pathName`: the path of an object, up the chain of its owners.
* `Grounded.render`, `Grounded.defaultText`: the text of a value that is in range, and of a default.
-/

namespace GraphLowering

namespace Rooted

variable {A : Prop} {cx : Context} {o : ObjectId}

/-! ### Objects -/

theorem objectIndex_injective : Function.Injective ObjectId.index := by
  rintro ⟨i⟩ ⟨j⟩ h
  exact congrArg ObjectId.mk h

theorem mem_owners {record : ObjectRecord} (ho : cx.objects.object o = .ok record)
    {outer : ObjectId} (houter : record.outer = .object outer) : outer ∈ cx.objects.owners o := by
  obtain ⟨name, cls, _, values, flags⟩ := record
  cases houter
  simp [ObjectStore.owners, ho]

theorem owners_inRange (h : Rooted A cx) {outer : ObjectId} (ho : outer ∈ cx.objects.owners o) :
    outer.InRange cx.extent := by
  unfold ObjectStore.owners at ho
  split at ho
  · rename_i hrecord
    cases List.mem_singleton.mp ho
    exact (h.objects _ (ObjectStore.mem_objects hrecord)).outer
  · cases ho

/-- Under `A`, no chain of owners is longer than the walks allow. -/
theorem within_owners (h : Rooted A cx) (ho : o.InRange cx.extent) (a : A) :
    Within cx.objects.owners cx.objects.height o :=
  ((h.owners a).within objectIndex_injective (fun _ _ hp => h.owners_inRange hp) ho).succ

theorem pathNameFrom (h : Rooted A cx) (ho : o.InRange cx.extent) {n : Nat}
    (hfuel : A → Within cx.objects.owners n o) :
    Ends A (cx.objects.pathNameFrom cx.schema n o) := by
  induction n generalizing o with
  | zero => exact .endless hfuel
  | succ n ih =>
      refine .bind (h.object ho) fun record ⟨hrecord, hrange⟩ => ?_
      have houter := hrange.outer
      split
      · exact .pure trivial
      · rename_i cls hcls
        rw [hcls] at houter
        exact .bind (h.type houter) fun _ _ => .pure trivial
      · rename_i outer hobject
        rw [hobject] at houter
        exact .bind (ih houter fun a => hfuel a outer (mem_owners hrecord hobject)) fun _ _ =>
          .pure trivial

theorem pathName (h : Rooted A cx) (ho : o.InRange cx.extent) : Ends A (cx.pathName o) :=
  h.pathNameFrom ho (h.within_owners ho)

end Rooted

theorem Grounded.fieldValue {A : Prop} {cx : Context} {o : ObjectId} (h : Grounded A cx)
    (ho : o.InRange cx.extent) {f : FieldId} (hf : f.InRange cx.extent) :
    Answers A (cx.fieldValue o f) fun v => v.inRange cx.extent = true := by
  refine .bind (h.object ho) fun record ⟨_, hrange⟩ => ?_
  split
  · rename_i v hv
    obtain ⟨before, after, heq, -⟩ := List.lookup_eq_some_iff.mp hv
    exact .pure (hrange.values (f, v) (by simp [heq]))
  · exact h.fieldDefault hf

/-! ### Rendering -/

namespace Literal

variable {A : Prop} {α β : Type} {x : Render α}

/-- Rendering gives a text or finds a problem; or a chain is endless, which `A` rules out. -/
def Renders (A : Prop) (x : Render α) : Prop := Ends A x.run

namespace Renders

theorem pure (a : α) : Renders A (Pure.pure a : Render α) := trivial

theorem bind {f : α → Render β} (hx : Renders A x) (hf : ∀ a, Renders A (f a)) :
    Renders A (x >>= f) := by
  unfold Renders
  rw [ExceptT.run_bind]
  refine .bind hx fun r _ => ?_
  cases r with
  | ok a => exact hf a
  | error problem => exact .pure trivial

theorem liftBind {e : Except Fault α} {Q : α → Prop} {f : α → Render β} (he : Answers A e Q)
    (hf : ∀ a, Q a → Renders A (f a)) : Renders A (liftM e >>= f) := by
  cases e with
  | error f => exact he
  | ok a => exact hf a he

theorem mapM {xs : List α} {f : α → Render β} (hf : ∀ x ∈ xs, Renders A (f x)) :
    Renders A (xs.mapM f) := by
  induction xs with
  | nil => exact .pure _
  | cons x xs ih =>
      rw [List.mapM_cons]
      exact .bind (hf x List.mem_cons_self) fun _ =>
        .bind (ih fun x hx => hf x (List.mem_cons_of_mem _ hx)) fun _ => .pure _

end Renders

end Literal

namespace Grounded

open Literal

variable {A : Prop} {cx : Context} {t : ValueType} {v : Value}

theorem unrenderable {α : Type} (h : Grounded A cx) (ht : t.InRange cx.extent) :
    Renders A (Literal.unrenderable cx t : Render α) :=
  .liftBind (h.cppType ht) fun _ _ => trivial

theorem struct_inRange {id : TypeId} (hid : id.InRange cx.extent) :
    (ValueType.struct id).InRange cx.extent where
  subType := fun _ hmem => by cases hmem; exact hid
  signature := fun _ hmem => by cases hmem

theorem renderStruct (h : Grounded A cx) {v : StructValue}
    (hv : v.toValue.inRange cx.extent = true) : Renders A (Literal.renderStruct cx v) := by
  have hid : v.type.InRange cx.extent := (Value.inRange_struct.mp hv).1
  refine .liftBind (h.type hid) fun decl _ => ?_
  split
  · split
    · exact .pure _
    · exact h.unrenderable (struct_inRange hid)
  · refine .liftBind (h.structDefault hid) fun default _ => ?_
    split
    · exact .liftBind (h.cppName hid) fun _ _ => .pure _
    · exact h.unrenderable (struct_inRange hid)

theorem enumEntryName (h : Grounded A cx) {id : TypeId} (hid : id.InRange cx.extent) (raw : Nat) :
    Ends A (cx.schema.enumEntryName id raw) := by
  refine .bind (h.type hid) fun decl _ => ?_
  dsimp only
  split
  · exact .pure trivial
  · exact .pure trivial

theorem renderByte (h : Grounded A cx) (ht : t.InRange cx.extent) (n : UInt8) :
    Renders A (Literal.renderByte cx t n) := by
  unfold Literal.renderByte
  split
  · exact .pure _
  · rename_i enum henum
    have hid := ht.subType enum henum
    refine .liftBind (h.type hid) fun decl _ => ?_
    split
    · refine .liftBind (h.enumEntryName hid n.toNat) fun r _ => ?_
      split
      · exact .liftBind (h.cppName hid) fun _ _ => .pure _
      · exact h.unrenderable ht
    · exact .pure _

theorem classPath (h : Grounded A cx) {id : TypeId} (hid : id.InRange cx.extent) :
    Ends A (Literal.classPath cx id) :=
  .bind (h.type hid) fun _ _ => .pure trivial

theorem renderElement (h : Grounded A cx) (ht : t.InRange cx.extent)
    (hv : v.inRange cx.extent = true) : Renders A (Literal.renderElement cx t v) := by
  unfold Literal.renderElement
  split
  · exact .pure _
  · exact .pure _
  · exact .pure _
  · exact h.renderByte ht _
  · exact .pure _
  · exact .pure _
  · exact .pure _
  · exact h.renderStruct hv
  · exact .pure _
  · rename_i c _
    have hc : c.InRange cx.extent := by simpa [Value.inRange] using hv
    exact .liftBind (h.cppName hc) fun _ _ => .pure _
  · exact .pure _
  · rename_i o _
    have ho : o.InRange cx.extent := by simpa [Value.inRange] using hv
    refine .liftBind (h.object ho) fun _ hrecord => ?_
    refine .liftBind (h.cppName hrecord.2.cls) fun _ _ => ?_
    exact .liftBind (h.pathName ho) fun _ _ => .pure _
  · exact .pure _
  · exact .pure _
  · rename_i o _
    have ho : o.InRange cx.extent := by simpa [Value.inRange] using hv
    exact .liftBind (h.pathName ho) fun _ _ => .pure _
  · exact .pure _
  · rename_i c _
    have hc : c.InRange cx.extent := by simpa [Value.inRange] using hv
    exact .liftBind (h.classPath hc) fun _ _ => .pure _
  · exact h.unrenderable ht

theorem element_inRange (ht : t.InRange cx.extent) : t.element.InRange cx.extent :=
  ⟨ht.subType, ht.signature⟩

theorem render (h : Grounded A cx) (ht : t.InRange cx.extent) (hv : v.inRange cx.extent = true) :
    Renders A (Literal.render cx t v) := by
  unfold Literal.render
  split
  · exact .pure _
  · split
    · split
      · exact .liftBind (h.cppType ht) fun _ _ => .pure _
      · have hitems := Value.inRange_array.mp hv
        exact .bind (.mapM fun item hitem => h.renderElement (element_inRange ht)
          (hitems item hitem)) fun _ => .liftBind (h.cppType ht) fun _ _ => .pure _
      · exact h.unrenderable ht
    · exact h.renderElement ht hv

theorem defaultText (h : Grounded A cx) (ht : t.InRange cx.extent) :
    Ends A (Literal.defaultText cx t) := by
  unfold Literal.defaultText
  split
  · exact .pure trivial
  · refine .bind (h.defaultValue ht) fun v hv => .bind (h.render ht hv) fun r _ => ?_
    cases r with
    | ok text => exact .pure trivial
    | error problem => exact .bind (h.cppType ht) fun _ _ => .pure trivial

end Grounded

end GraphLowering
