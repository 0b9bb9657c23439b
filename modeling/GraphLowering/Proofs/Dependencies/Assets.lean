import GraphLowering.Proofs.Dependencies.Visits

/-!
# Dependencies — assets

The objects that a unit lists as dependencies are assets: the chain of their owners does not lead to
the unit.  Only one step of a walk lists an object, and it asks for the owners first.

* `Context.IsAsset`: the object does not belong to the unit.
* `Keeps`: a step that lists assets only.
* `addBodies_keeps`: the walk over bodies and defaults does.
-/

namespace GraphLowering

open Collector

/-- The chain of owners of the object does not lead to the unit. -/
def Context.IsAsset (cx : Context) (o : ObjectId) : Prop :=
  ∃ record, cx.objects.object o = .ok record ∧ isOwnedByUnit cx record = .ok false

namespace Collector

variable {α β : Type} {cx : Context}

/-- The objects that were found are assets. -/
def ListsAssets (cx : Context) (c : Collector) : Prop :=
  ∀ o, c.marks.listed (.object o) → cx.IsAsset o

/-- A step finds no object but assets. -/
def Keeps (cx : Context) (x : Collect α) : Prop :=
  ∀ c a d, ListsAssets cx c → x.run c = .ok (a, d) → ListsAssets cx d

namespace Keeps

theorem pure {a : α} : Keeps cx (Pure.pure a : Collect α) := by
  intro c b d hc h
  cases h
  exact hc

theorem throw {e : Fault} : Keeps cx (MonadExcept.throw e : Collect α) := by
  intro c b d _ h
  cases h

theorem bind {x : Collect α} {f : α → Collect β} (hx : Keeps cx x) (hf : ∀ a, Keeps cx (f a)) :
    Keeps cx (x >>= f) := by
  intro c b e hc h
  obtain ⟨a, d, hxs, hfs⟩ := run_bind_ok h
  exact hf a d b e (hx c a d hc hxs) hfs

theorem liftBind {y : Except Fault α} {f : α → Collect β} (hf : ∀ a, y = .ok a → Keeps cx (f a)) :
    Keeps cx (liftM y >>= f) := by
  intro c b d hc h
  obtain ⟨a, ha, hrun⟩ := run_liftBind_ok h
  exact hf a ha c b d hc hrun

theorem getBind {f : Collector → Collect α} (hf : ∀ c, Keeps cx (f c)) : Keeps cx (get >>= f) :=
  fun c a d hc h => hf c c a d hc h

/-- A step that marks something and finds nothing. -/
theorem modify {f : Collector → Collector} (hf : ∀ c, (f c).found = c.found) :
    Keeps cx (modify f : Collect PUnit) := by
  intro c a d hc h
  cases h
  intro o ho
  refine hc o ?_
  unfold Collector.marks at ho ⊢
  rwa [hf c] at ho

theorem forM {xs : List α} {f : α → Collect PUnit} (hf : ∀ x ∈ xs, Keeps cx (f x)) :
    Keeps cx (xs.forM f) := by
  induction xs with
  | nil => exact .pure
  | cons x xs ih =>
      exact .bind (hf x List.mem_cons_self) fun _ => ih fun x hx => hf x (List.mem_cons_of_mem _ hx)

end Keeps

/-! ### Types -/

theorem record_keeps {dep : Dependency} (hdep : ∀ o, dep = .object o → cx.IsAsset o) :
    Keeps cx (record cx dep) := by
  refine .liftBind fun name _ c _ d hc h => ?_
  cases h
  intro o ho
  obtain ⟨entry, hentry, heq⟩ := List.mem_map.mp ho
  rcases mem_insertSorted hentry with rfl | hentry
  · exact hdep o heq
  · exact hc o (List.mem_map.mpr ⟨entry, hentry, heq⟩)

theorem addType_keeps (t : TypeId) : Keeps cx (addType cx t) := by
  refine .liftBind fun decl _ => .getBind fun c => ?_
  split
  · exact .pure
  · exact .bind (.modify fun _ => rfl) fun _ => record_keeps nofun

theorem addValueTypeWith_keeps {follow : FunctionId → Collect Unit}
    (hfollow : ∀ g, Keeps cx (follow g)) (t : ValueType) :
    Keeps cx (addValueTypeWith cx follow t) := by
  unfold addValueTypeWith
  split
  · exact .pure
  · dsimp only
    split
    on_goal 1 => refine .bind (addType_keeps _) fun _ => ?_
    all_goals
      split
      · exact hfollow _
      · exact .pure

theorem addSignatureFrom_keeps (n : Nat) (g : FunctionId) : Keeps cx (addSignatureFrom cx n g) := by
  induction n generalizing g with
  | zero =>
      refine .getBind fun c => ?_
      split
      · exact .pure
      · exact .throw
  | succ n ih =>
      refine .getBind fun c => ?_
      split
      · exact .pure
      · refine .bind (.modify fun _ => rfl) fun _ => .liftBind fun decl _ => .forM fun p _ => ?_
        exact .liftBind fun field _ => addValueTypeWith_keeps ih field.type

theorem addValueType_keeps (t : ValueType) : Keeps cx (addValueType cx t) :=
  addValueTypeWith_keeps (addSignatureFrom_keeps _) t

/-! ### Values and objects -/

section

variable {visit : ObjectId → Collect Unit}

mutual

theorem addValueWith_keeps (hvisit : ∀ o, Keeps cx (visit o)) :
    ∀ v : Value, Keeps cx (addValueWith cx visit v)
  | .object (some o) | .softObject (some o) | .delegate (some (o, _)) => hvisit o
  | .classRef (some t) | .softClass (some t) => addType_keeps t
  | .struct t members => .bind (addType_keeps t) fun _ => addValuesWith_keeps hvisit members
  | .array items => addValuesWith_keeps hvisit items
  | .object none | .softObject none | .delegate none | .classRef none | .softClass none => .pure
  | .bool _ | .byte _ | .int _ | .float _ | .name _ | .string _ | .text _ => .pure

theorem addValuesWith_keeps (hvisit : ∀ o, Keeps cx (visit o)) :
    ∀ vs : List Value, Keeps cx (addValuesWith cx visit vs)
  | [] => .pure
  | v :: vs => .bind (addValueWith_keeps hvisit v) fun _ => addValuesWith_keeps hvisit vs

end

theorem addObjectValuesWith_keeps (hvisit : ∀ o, Keeps cx (visit o)) (o : ObjectId) :
    Keeps cx (addObjectValuesWith cx visit o) :=
  .bind (.modify fun _ => rfl) fun _ => .liftBind fun _ _ => addValuesWith_keeps hvisit _

end

/-- **An object is listed only after its owners were asked for.** -/
theorem addObjectFrom_keeps (n : Nat) (o : ObjectId) : Keeps cx (addObjectFrom cx n o) := by
  induction n generalizing o with
  | zero =>
      refine .getBind fun c => ?_
      split
      · exact .pure
      · exact .throw
  | succ n ih =>
      refine .getBind fun c => ?_
      split
      · exact .pure
      · refine .bind (.modify fun _ => rfl) fun _ => .liftBind fun record hrecord => ?_
        refine .bind (addType_keeps record.cls) fun _ => .liftBind fun owned howned => ?_
        cases owned with
        | true => exact addObjectValuesWith_keeps ih o
        | false =>
            refine record_keeps fun o' heq => ?_
            cases heq
            exact ⟨record, hrecord, howned⟩

theorem addValue_keeps (v : Value) : Keeps cx (addValue cx v) :=
  addValueWith_keeps (addObjectFrom_keeps _) v

/-! ### Units -/

theorem addTerm_keeps (t : Term) : Keeps cx (addTerm cx t) := by
  refine .bind (addValueType_keeps t.type) fun _ => ?_
  split
  · exact addValue_keeps _
  · exact .pure

theorem addGraph_keeps (g : FunctionGraph) : Keeps cx (addGraph cx g) := by
  refine .bind (.forM fun l _ => addValueType_keeps l.type) fun _ => ?_
  refine .bind (.forM fun t _ => addTerm_keeps t) fun _ => .forM fun s _ => .forM fun f _ => ?_
  exact .liftBind fun decl _ => addType_keeps decl.owner

/-- **The walk over bodies and defaults lists assets only.** -/
theorem addBodies_keeps (u : ScriptUnit) (unit : TypeDecl) : Keeps cx (addBodies cx u unit) := by
  have hvalues : ∀ os : List ObjectId, Keeps cx (os.forM (addObjectValues cx)) := fun os =>
    .forM fun o _ => addObjectValuesWith_keeps (addObjectFrom_keeps _) o
  refine .bind (.forM fun g _ => addGraph_keeps g) fun _ => .bind (hvalues _) fun _ => ?_
  exact .bind (hvalues _) fun _ => .forM fun d _ => .forM fun v _ => addValue_keeps v

end Collector
end GraphLowering
