import GraphLowering.Proofs.Dependencies.Marks

/-!
# Dependencies — walks within closed marks

Walks look into what they visit, and mark it before they do.  So a walk that starts inside closed
marks stays inside them, and it comes to an end, for there is always one less left to visit.

* `Confined`: where such a walk is.
* `Marks.Closed.addSignatureFrom`, `Marks.Closed.addObjectFrom`: it visits signatures and objects.
* `Marks.Closed.addSurface`, `Marks.Closed.addGraph`: it goes over declarations and bodies.
-/

namespace GraphLowering

open Collector

variable {A : Prop} {cx : Context} {before m : Marks} {f o : Nat}

def Schema.functionIds (s : Schema) : List FunctionId :=
  (List.range s.functions.size).map FunctionId.mk

theorem mem_functionIds {g : FunctionId} (hg : g.InRange cx.extent) : g ∈ cx.schema.functionIds :=
  List.mem_map.mpr ⟨g.index, List.mem_range.mpr hg, rfl⟩

theorem mem_objectIds {id : ObjectId} (hid : id.InRange cx.extent) : id ∈ cx.objects.ids :=
  List.mem_map.mpr ⟨id.index, List.mem_range.mpr hid, rfl⟩

/-! ### Collectors -/

/-- The collector has what there was before and lies within the marks, and at most `f` signatures
and `o` objects are left to visit. -/
structure Confined (cx : Context) (before m : Marks) (f o : Nat) (c : Collector) : Prop where
  since : before.Sub c.marks
  within : c.marks.Sub m
  signatures : unseen cx.schema.functionIds (c.signatures.contains ·) ≤ f
  objects : unseen cx.objects.ids (c.objects.contains ·) ≤ o

namespace Confined

variable {c : Collector}

/-- There is no more left than there is. -/
theorem start (hsince : before.Sub c.marks) (hwithin : c.marks.Sub m) :
    Confined cx before m (cx.schema.functions.size + 1) cx.objects.height c where
  since := hsince
  within := hwithin
  signatures := Nat.le_trans unseen_le_length (by simp [Schema.functionIds])
  objects := Nat.le_trans unseen_le_length (by simp [ObjectStore.ids, ObjectStore.height])

theorem succ_functions (h : Confined cx before m f o c) : Confined cx before m (f + 1) o c :=
  { h with signatures := Nat.le_succ_of_le h.signatures }

theorem succ_objects (h : Confined cx before m f o c) : Confined cx before m f (o + 1) c :=
  { h with objects := Nat.le_succ_of_le h.objects }

theorem contains_cons {α : Type} [DecidableEq α] {xs : List α} {x : α} (y : α)
    (hx : xs.contains x = true) : (y :: xs).contains x = true := by
  simp only [List.contains_cons, hx, Bool.or_true]

theorem visitType (h : Confined cx before m f o c) (t : TypeId) :
    Confined cx before m f o { c with types := t :: c.types } :=
  ⟨h.since, h.within, h.signatures, h.objects⟩

theorem sub_cons_signature (g : FunctionId) :
    c.marks.Sub ({ c with signatures := g :: c.signatures } : Collector).marks :=
  ⟨fun _ h => h, fun _ h => List.mem_cons_of_mem _ h, fun _ h => h⟩

theorem sub_cons_object (id : ObjectId) :
    c.marks.Sub ({ c with objects := id :: c.objects } : Collector).marks :=
  ⟨fun _ h => h, fun _ h => h, fun _ h => List.mem_cons_of_mem _ h⟩

/-- A signature that was not visited is one less to visit. -/
theorem visitSignature (h : Confined cx before m (f + 1) o c) {g : FunctionId}
    (hm : m.signatures g) (hg : g.InRange cx.extent)
    (hnew : c.signatures.contains g = false) :
    Confined cx before m f o { c with signatures := g :: c.signatures } where
  since := h.since.trans (sub_cons_signature g)
  within :=
    { listed := h.within.listed
      objects := h.within.objects
      signatures := fun g' hg' => by
        rcases List.mem_cons.mp hg' with rfl | hg'
        · exact hm
        · exact h.within.signatures g' hg' }
  signatures := by
    have hlt : unseen cx.schema.functionIds ((g :: c.signatures).contains ·) <
        unseen cx.schema.functionIds (c.signatures.contains ·) :=
      unseen_lt (fun _ => contains_cons g) (mem_functionIds hg) hnew (by simp)
    exact Nat.le_of_lt_succ (Nat.lt_of_lt_of_le hlt h.signatures)
  objects := h.objects

theorem markObject (h : Confined cx before m f o c) {id : ObjectId} (hm : m.objects id) :
    Confined cx before m f o { c with objects := id :: c.objects } where
  since := h.since.trans (sub_cons_object id)
  within :=
    { listed := h.within.listed
      signatures := h.within.signatures
      objects := fun p hp => by
        rcases List.mem_cons.mp hp with rfl | hp
        · exact hm
        · exact h.within.objects p hp }
  signatures := h.signatures
  objects := Nat.le_trans (unseen_le fun _ => contains_cons id) h.objects

theorem visitObject (h : Confined cx before m f (o + 1) c) {id : ObjectId} (hm : m.objects id)
    (hid : id.InRange cx.extent) (hnew : c.objects.contains id = false) :
    Confined cx before m f o { c with objects := id :: c.objects } :=
  { h.markObject hm with
    objects := by
      have hlt : unseen cx.objects.ids ((id :: c.objects).contains ·) <
          unseen cx.objects.ids (c.objects.contains ·) :=
        unseen_lt (fun _ => contains_cons id) (mem_objectIds hid) hnew (by simp)
      exact Nat.le_of_lt_succ (Nat.lt_of_lt_of_le hlt h.objects) }

theorem insert (h : Confined cx before m f o c) (name : String) {dep : Dependency}
    (hdep : m.listed dep) :
    Confined cx before m f o { c with found := insertSorted name dep c.found } where
  since :=
    { signatures := h.since.signatures
      objects := h.since.objects
      listed := fun d hd =>
        List.map_subset _ (subset_insertSorted name dep c.found) (h.since.listed d hd) }
  within :=
    { signatures := h.within.signatures
      objects := h.within.objects
      listed := fun d hd => by
        obtain ⟨entry, hentry, rfl⟩ := List.mem_map.mp hd
        rcases mem_insertSorted hentry with rfl | hentry
        · exact hdep
        · exact h.within.listed _ (List.mem_map.mpr ⟨entry, hentry, rfl⟩) }
  signatures := h.signatures
  objects := h.objects

end Confined

/-- The step keeps within the marks. -/
abbrev Stays (A : Prop) (cx : Context) (before m : Marks) (f o : Nat) (x : Collect PUnit) : Prop :=
  Collects A (Confined cx before m f o) x fun _ => Confined cx before m f o

namespace Marks.Closed

/-! ### Types -/

theorem record (h : m.Closed A cx before) {dep : Dependency} (hdep : m.listed dep) :
    Stays A cx before m f o (record cx dep) :=
  .liftBind (h.names dep hdep) fun name _ => .update fun _ hc => hc.insert name hdep

theorem addType (h : m.Closed A cx before) {t : TypeId} (ht : m.Covers cx t) :
    Stays A cx before m f o (addType cx t) := by
  obtain ⟨decl, hdecl, hknown⟩ := ht
  refine .liftBind (.of_eq hdecl rfl) fun _ hdecl => .getBind fun c hc => ?_
  cases hdecl
  split
  · exact .pure fun d hd => hd ▸ hc
  · rename_i hnew
    have hlisted : m.listed (.type t) := hknown.resolve_left fun hknown => hnew (by simp [hknown])
    refine .bind (.update fun d hd => ?_) fun _ => h.record hlisted
    exact hd ▸ hc.visitType t

theorem addValueTypeWith (h : m.Closed A cx before) {follow : FunctionId → Collect Unit}
    {t : ValueType} (ht : m.CoversType cx t)
    (hfollow : ∀ g, m.signatures g → Stays A cx before m f o (follow g)) :
    Stays A cx before m f o (addValueTypeWith cx follow t) := by
  unfold Collector.addValueTypeWith
  split
  · exact .pure fun _ hc => hc
  · rename_i hself
    obtain ⟨hsub, hsignature⟩ := ht (Bool.eq_false_iff.mpr hself)
    dsimp only
    split
    on_goal 1 =>
      rename_i sub hmem
      refine .bind (h.addType (hsub sub hmem)) fun _ => ?_
    -- The signature is followed with or without a type that is named.
    all_goals
      split
      · rename_i g hg
        exact hfollow g (hsignature g hg)
      · exact .pure fun _ hc => hc

/-- A signature to visit that was not visited before is scanned. -/
theorem scanned_of_new (h : m.Closed A cx before) {g : FunctionId} (hg : m.signatures g)
    {c : Collector} (hc : Confined cx before m f o c)
    (hnew : ¬ c.signatures.contains g = true) : m.Scanned cx g :=
  (h.signatures g hg).resolve_left fun hbefore =>
    hnew (List.contains_iff_mem.mpr (hc.since.signatures g hbefore))

theorem addSignatureFrom (h : m.Closed A cx before) {g : FunctionId} (hg : m.signatures g) :
    Stays A cx before m f o (addSignatureFrom cx f g) := by
  induction f generalizing g with
  | zero =>
      refine .getBind fun c hc => ?_
      split
      · exact .pure fun d hd => hd ▸ hc
      · rename_i hnew
        obtain ⟨decl, hdecl, -⟩ := h.scanned_of_new hg hc hnew
        have hg := mem_functionIds (Schema.index_lt_of_function hdecl)
        exact absurd (seen_of_unseen_le_zero hc.signatures hg) hnew
  | succ f ih =>
      refine .getBind fun c hc => ?_
      split
      · exact .pure fun d hd => hd ▸ hc
      · rename_i hnew
        obtain ⟨decl, hdecl, hparams⟩ := h.scanned_of_new hg hc hnew
        -- The function is marked before its parameters are followed, so they have one less left.
        have hvisit := hc.visitSignature hg (Schema.index_lt_of_function hdecl)
          (Bool.eq_false_iff.mpr hnew)
        refine .bind (Q := fun _ => Confined cx before m f o) (.update fun d hd => hd ▸ hvisit)
          fun _ => .liftBind (.of_eq hdecl rfl) fun _ hdecl => ?_
        cases hdecl
        have hscan : Stays A cx before m f o (decl.params.forM fun p => do
            Collector.addValueTypeWith cx (Collector.addSignatureFrom cx f)
              (← cx.schema.field p).type) := by
          refine .forM fun p hp => ?_
          obtain ⟨field, hfield, htype⟩ := hparams p hp
          refine .liftBind (.of_eq hfield rfl) fun _ hfield => ?_
          cases hfield
          exact h.addValueTypeWith htype fun _ => ih
        exact hscan.imp (fun _ hc => hc) fun _ _ hc => hc.succ_functions

/-! ### Values -/

section

variable {visit : ObjectId → Collect Unit}

mutual

theorem addValueWith (h : m.Closed A cx before)
    (hvisit : ∀ id, m.objects id → Stays A cx before m f o (visit id)) :
    ∀ v : Value, m.Follows cx v → Stays A cx before m f o (addValueWith cx visit v)
  | .object (some id), hv => hvisit id (hv _ (.object rfl))
  | .softObject (some id), hv => hvisit id (hv _ (.softObject rfl))
  | .delegate (some (id, _)), hv => hvisit id (hv _ (.delegate rfl))
  | .classRef (some t), hv => h.addType (hv _ (.classRef rfl))
  | .softClass (some t), hv => h.addType (hv _ (.softClass rfl))
  | .struct t members, hv => by
      refine .bind (h.addType (hv _ (.struct rfl))) fun _ => ?_
      exact h.addValuesWith hvisit members fun v hmem dep hdep => hv dep (.member hmem hdep)
  | .array items, hv =>
      h.addValuesWith hvisit items fun v hmem dep hdep => hv dep (.item hmem hdep)
  | .object none, _ | .softObject none, _ | .delegate none, _ | .classRef none, _
  | .softClass none, _ => .pure fun _ hc => hc
  | .bool _, _ | .byte _, _ | .int _, _ | .float _, _ | .name _, _ | .string _, _ | .text _, _ =>
      .pure fun _ hc => hc

theorem addValuesWith (h : m.Closed A cx before)
    (hvisit : ∀ id, m.objects id → Stays A cx before m f o (visit id)) :
    ∀ vs : List Value, (∀ v ∈ vs, m.Follows cx v) →
      Stays A cx before m f o (addValuesWith cx visit vs)
  | [], _ => .pure fun _ hc => hc
  | v :: vs, hvs => by
      refine .bind (h.addValueWith hvisit v (hvs v List.mem_cons_self)) fun _ => ?_
      exact h.addValuesWith hvisit vs fun w hw => hvs w (List.mem_cons_of_mem _ hw)

end

/-! ### Objects -/

theorem addObjectValuesWith (h : m.Closed A cx before)
    (hvisit : ∀ id, m.objects id → Stays A cx before m f o (visit id)) {id : ObjectId}
    (hid : m.objects id) {record : ObjectRecord} (hrecord : cx.objects.object id = .ok record)
    (hvalues : ∀ entry ∈ record.values, m.Follows cx entry.2) :
    Stays A cx before m f o (addObjectValuesWith cx visit id) := by
  refine .bind (Q := fun _ => Confined cx before m f o) (.update fun c hc => hc.markObject hid)
    fun _ => .liftBind (.of_eq hrecord rfl) fun _ hrecord => ?_
  cases hrecord
  refine h.addValuesWith hvisit _ fun v hv => ?_
  obtain ⟨entry, hentry, rfl⟩ := List.mem_map.mp hv
  exact hvalues entry hentry

end

/-- An object to visit that was not visited before is explored. -/
theorem explored_of_new (h : m.Closed A cx before) {id : ObjectId} (hid : m.objects id)
    {c : Collector} (hc : Confined cx before m f o c) (hnew : ¬ c.objects.contains id = true) :
    m.Explored cx A id :=
  (h.objects id hid).resolve_left fun hbefore =>
    hnew (List.contains_iff_mem.mpr (hc.since.objects id hbefore))

theorem addObjectFrom (h : m.Closed A cx before) {id : ObjectId} (hid : m.objects id) :
    Stays A cx before m f o (addObjectFrom cx o id) := by
  induction o generalizing id with
  | zero =>
      refine .getBind fun c hc => ?_
      split
      · exact .pure fun d hd => hd ▸ hc
      · rename_i hnew
        obtain ⟨record, hrecord, -⟩ := h.explored_of_new hid hc hnew
        have hid := mem_objectIds (ObjectStore.index_lt hrecord)
        exact absurd (seen_of_unseen_le_zero hc.objects hid) hnew
  | succ o ih =>
      refine .getBind fun c hc => ?_
      split
      · exact .pure fun d hd => hd ▸ hc
      · rename_i hnew
        obtain ⟨record, hrecord, hcls, howned⟩ := h.explored_of_new hid hc hnew
        have hvisit := hc.visitObject hid (ObjectStore.index_lt hrecord)
          (Bool.eq_false_iff.mpr hnew)
        refine .bind (Q := fun _ => Confined cx before m f o) (.update fun d hd => hd ▸ hvisit)
          fun _ => .liftBind (.of_eq hrecord rfl) fun _ heq => ?_
        cases heq
        refine .bind (h.addType hcls) fun _ => .liftBind howned fun owned ⟨hvalues, hlisted⟩ => ?_
        cases owned with
        | true =>
            -- The bound that the values are visited under is the smaller one.
            exact (h.addObjectValuesWith (fun _ => ih) hid hrecord (hvalues rfl)).imp
              (fun _ hc => hc) fun _ _ hc => hc.succ_objects
        | false =>
            exact (h.record (hlisted rfl)).imp (fun _ hc => hc) fun _ _ hc => hc.succ_objects

end Marks.Closed

/-! ### Units -/

/-- What is left to visit is bounded by what there is. -/
abbrev Gathers (A : Prop) (cx : Context) (before m : Marks) (x : Collect PUnit) : Prop :=
  Stays A cx before m (cx.schema.functions.size + 1) cx.objects.height x

namespace Marks.Closed

theorem addSignature (h : m.Closed A cx before) {g : FunctionId} (hg : m.signatures g) :
    Gathers A cx before m (addSignature cx g) :=
  h.addSignatureFrom hg

theorem addValueType (h : m.Closed A cx before) {t : ValueType} (ht : m.CoversType cx t) :
    Gathers A cx before m (addValueType cx t) :=
  h.addValueTypeWith ht fun _ => h.addSignature

theorem addObject (h : m.Closed A cx before) {id : ObjectId} (hid : m.objects id) :
    Gathers A cx before m (addObject cx id) :=
  h.addObjectFrom hid

theorem addValue (h : m.Closed A cx before) {v : Value} (hv : m.Follows cx v) :
    Gathers A cx before m (addValue cx v) :=
  h.addValueWith (fun _ => h.addObject) v hv

theorem addSurface (h : m.Closed A cx before) {unit : TypeDecl} (hunit : m.CoversSurface cx unit) :
    Gathers A cx before m (addSurface cx unit) := by
  refine .bind (.forM fun t ht => h.addType (hunit.superType t (Option.mem_toList.mp ht)))
    fun _ => ?_
  refine .bind (.forM fun t ht => h.addType (hunit.interfaces t ht)) fun _ => ?_
  refine .bind (.forM fun field hfield => ?_) fun _ =>
    .forM fun g hg => h.addSignature (hunit.functions g hg)
  obtain ⟨decl, hdecl, htype⟩ := hunit.fields field hfield
  refine .liftBind (.of_eq hdecl rfl) fun _ hdecl => ?_
  cases hdecl
  exact h.addValueType htype

theorem addTerm (h : m.Closed A cx before) {t : Term} (ht : m.CoversTerm cx t) :
    Gathers A cx before m (addTerm cx t) := by
  refine .bind (h.addValueType ht.1) fun _ => ?_
  split
  · rename_i v hv
    exact h.addValue (ht.2 v hv)
  · exact .pure fun _ hc => hc

theorem addGraph (h : m.Closed A cx before) {g : FunctionGraph} (hg : m.CoversGraph cx g) :
    Gathers A cx before m (addGraph cx g) := by
  refine .bind (.forM fun l hl => h.addValueType (hg.locals l hl)) fun _ => ?_
  refine .bind (.forM fun t ht => h.addTerm (hg.terms t ht)) fun _ => ?_
  refine .forM fun s hs => .forM fun callee hcallee => ?_
  obtain ⟨decl, hdecl, howner⟩ := hg.callees s hs callee (Option.mem_toList.mp hcallee)
  refine .liftBind (.of_eq hdecl rfl) fun _ hdecl => ?_
  cases hdecl
  exact h.addType howner

end Marks.Closed

end GraphLowering
