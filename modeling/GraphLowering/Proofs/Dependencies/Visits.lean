import GraphLowering.Proofs.Dependencies.Marks
import GraphLowering.Proofs.Lookup

/-!
# Dependencies — what a walk visits

A walk that gathers dependencies marks the signatures and objects it comes by.  Whatever it has
marked it has also looked into, so its marks are closed.

* `Walked`: what a walk adds.  A signature that it comes by is scanned, and an object explored.
* `addSurface_walks`, `addGraph_walks`: declarations and bodies are covered.
* `addBodies_walks`: the bodies and defaults of a unit are walked.  The default object and the owned
  objects are where it starts: their values are followed, their classes are not recorded.
* `gather_walks`: under distinct names, a type that is covered is included.
-/

namespace GraphLowering

namespace Collector

variable {α β : Type} {cx : Context} {R : ObjectId → Prop} {c d e : Collector}

/-! ### Walks -/

/-- What a walk adds, where `R` are objects that it starts from. -/
structure Walked (cx : Context) (R : ObjectId → Prop) (c d : Collector) : Prop where
  sub : c.marks.Sub d.marks
  scanned : ∀ g ∈ d.signatures, g ∈ c.signatures ∨ d.marks.Scanned cx g
  explored : ∀ o ∈ d.objects, o ∈ c.objects ∨ R o ∨ d.marks.Explored cx True o

namespace Walked

theorem refl : Walked cx R c c := ⟨.refl _, fun _ hg => .inl hg, fun _ ho => .inl ho⟩

theorem trans (h : Walked cx R c d) (h' : Walked cx R d e) : Walked cx R c e where
  sub := h.sub.trans h'.sub
  scanned g hg := by
    rcases h'.scanned g hg with hg | hg
    · exact (h.scanned g hg).imp id fun hg => hg.mono h'.sub
    · exact .inr hg
  explored o ho := by
    rcases h'.explored o ho with ho | ho
    · exact (h.explored o ho).imp id fun ho => ho.imp id fun ho => ho.mono h'.sub
    · exact .inr ho

/-- One more entry. -/
theorem insert (types : List TypeId) (name : String) (dep : Dependency) :
    Walked cx R c { c with types, found := insertSorted name dep c.found } where
  sub := ⟨fun _ hd => List.map_subset _ (subset_insertSorted name dep c.found) hd,
    fun _ hg => hg, fun _ ho => ho⟩
  scanned _ hg := .inl hg
  explored _ ho := .inl ho

/-- A signature is marked ahead of a walk that scans it. -/
theorem of_signature {g : FunctionId}
    (h : Walked cx R { c with signatures := g :: c.signatures } d) (hg : d.marks.Scanned cx g) :
    Walked cx R c d where
  sub := ⟨h.sub.listed, fun g' hg' => h.sub.signatures g' (List.mem_cons_of_mem _ hg'),
    h.sub.objects⟩
  scanned g' hg' := by
    rcases h.scanned g' hg' with hg' | hg'
    · rcases List.mem_cons.mp hg' with rfl | hg'
      · exact .inr hg
      · exact .inl hg'
    · exact .inr hg'
  explored := h.explored

/-- An object is marked ahead of a walk that explores it or starts from it. -/
theorem of_object {o : ObjectId} (h : Walked cx R { c with objects := o :: c.objects } d)
    (ho : o ∈ c.objects ∨ R o ∨ d.marks.Explored cx True o) : Walked cx R c d where
  sub := ⟨h.sub.listed, h.sub.signatures,
    fun p hp => h.sub.objects p (List.mem_cons_of_mem _ hp)⟩
  scanned := h.scanned
  explored p hp := by
    rcases h.explored p hp with hp | hp
    · rcases List.mem_cons.mp hp with rfl | hp
      · exact ho
      · exact .inl hp
    · exact .inr hp

/-- **What a walk has marked is closed**, if it starts from no object. -/
theorem closed (h : Walked cx (fun _ => False) c d) (hd : d.Recorded cx) :
    d.marks.Closed True cx c.marks where
  names dep hdep := by
    obtain ⟨entry, hentry, rfl⟩ := List.mem_map.mp hdep
    exact .of_eq (hd.names entry hentry) trivial
  signatures := h.scanned
  objects o ho := (h.explored o ho).imp id fun ho => ho.resolve_left id

end Walked

/-! ### Steps -/

theorem run_bind_ok {x : Collect α} {f : α → Collect β} {b : β}
    (h : (x >>= f).run c = .ok (b, e)) :
    ∃ a d, x.run c = .ok (a, d) ∧ (f a).run d = .ok (b, e) := by
  rw [StateT.run_bind] at h
  obtain ⟨⟨a, d⟩, hx, hf⟩ := Lookup.of_bind_ok h
  exact ⟨a, d, hx, hf⟩

theorem run_liftBind_ok {x : Except Fault α} {f : α → Collect β} {b : β}
    (h : ((liftM x : Collect α) >>= f).run c = .ok (b, e)) :
    ∃ a, x = .ok a ∧ (f a).run c = .ok (b, e) := by
  cases x with
  | error fault => cases h
  | ok a => exact ⟨a, rfl, h⟩

/-- The step is part of a walk that keeps its entries in order, and after it the marks have `Q`. -/
def Walks (cx : Context) (R : ObjectId → Prop) (x : Collect α) (Q : Marks → Prop) : Prop :=
  ∀ c a d, c.Recorded cx → x.run c = .ok (a, d) →
    d.Recorded cx ∧ Walked cx R c d ∧ Q d.marks

namespace Walks

variable {x : Collect α} {Q Q' : Marks → Prop}

theorem pure {a : α} (hQ : ∀ m, Q m) : Walks cx R (Pure.pure a : Collect α) Q := by
  intro c b d hc h
  cases h
  exact ⟨hc, .refl, hQ _⟩

theorem imp (h : Walks cx R x Q) (hQ : ∀ m, Q m → Q' m) : Walks cx R x Q' :=
  fun c a d hc hrun => (h c a d hc hrun).imp id fun h => h.imp id (hQ _)

/-- What holds after the first step holds after both, if more marks keep it. -/
theorem bind {f : α → Collect β} (hx : Walks cx R x Q) (hf : ∀ a, Walks cx R (f a) Q')
    (hQ : ∀ m m' : Marks, m.Sub m' → Q m → Q m') :
    Walks cx R (x >>= f) fun m => Q m ∧ Q' m := by
  intro c b e hc h
  obtain ⟨a, d, hxs, hfs⟩ := run_bind_ok h
  obtain ⟨hd, hcd, hQd⟩ := hx c a d hc hxs
  obtain ⟨he, hde, hQe⟩ := hf a d b e hd hfs
  exact ⟨he, hcd.trans hde, hQ _ _ hde.sub hQd, hQe⟩

theorem liftBind {y : Except Fault α} {f : α → Collect β}
    (hf : ∀ a, y = .ok a → Walks cx R (f a) Q) : Walks cx R (liftM y >>= f) Q := by
  intro c b d hc h
  obtain ⟨a, ha, hrun⟩ := run_liftBind_ok h
  exact hf a ha c b d hc hrun

theorem forM {xs : List α} {f : α → Collect PUnit} {P : α → Marks → Prop}
    (hP : ∀ x (m m' : Marks), m.Sub m' → P x m → P x m')
    (hf : ∀ x ∈ xs, Walks cx R (f x) (P x)) :
    Walks cx R (xs.forM f) fun m => ∀ x ∈ xs, P x m := by
  induction xs with
  | nil => exact .pure fun _ => nofun
  | cons x xs ih =>
      refine (Walks.bind (hf x List.mem_cons_self)
        (fun _ => ih fun x hx => hf x (List.mem_cons_of_mem _ hx)) (hP x)).imp ?_
      exact fun m h => List.forall_mem_cons.mpr h

end Walks

/-! ### Types -/

section

variable (hnames : cx.NamesDistinct)

include hnames

theorem record_walks (o : ObjectId) :
    Walks cx R (record cx (.object o)) (·.listed (.object o)) := by
  refine .liftBind fun name hname c _ d hc hrun => ?_
  cases hrun
  refine ⟨hc.insert hnames hname (fun t => by simp) nofun, .insert c.types name _, ?_⟩
  exact (mem_map_insertSorted hnames hname hc.names).mpr (.inl rfl)

theorem addType_walks (t : TypeId) : Walks cx R (addType cx t) (·.Covers cx t) := by
  refine .liftBind fun decl hdecl c _ d hc hrun => ?_
  obtain ⟨c', _, hget, hrun⟩ := run_bind_ok hrun
  cases hget
  split at hrun
  · rename_i hseen
    cases hrun
    refine ⟨hc, .refl, decl, hdecl, ?_⟩
    exact (Bool.or_eq_true_iff.mp hseen).imp id fun hseen =>
      (hc.types t).mp (List.contains_iff_mem.mp hseen)
  · rename_i hnew
    obtain ⟨_, _, hmark, hrun⟩ := run_bind_ok hrun
    cases hmark
    obtain ⟨name, hname, hrun⟩ := run_liftBind_ok hrun
    cases hrun
    refine ⟨hc.insert hnames hname (fun t' => ?_) ?_, .insert (t :: c.types) name _, decl, hdecl,
      ?_⟩
    · rw [List.mem_cons, Dependency.type.injEq, eq_comm]
    · rintro t' heq decl' hdecl'
      cases heq
      rw [hdecl] at hdecl'
      cases hdecl'
      exact Option.not_isSome_iff_eq_none.mp fun hknown => hnew (by simp [hknown])
    · exact .inr ((mem_map_insertSorted hnames hname hc.names).mpr (.inl rfl))

theorem addValueTypeWith_walks {follow : FunctionId → Collect Unit}
    (hfollow : ∀ g, Walks cx R (follow g) (·.signatures g)) (t : ValueType) :
    Walks cx R (addValueTypeWith cx follow t) (·.CoversType cx t) := by
  have hcovers : ∀ m : Marks, (∀ sub ∈ t.subType, m.Covers cx sub) →
      (∀ g ∈ t.signature, m.signatures g) → m.CoversType cx t := fun _ hsub hg _ => ⟨hsub, hg⟩
  unfold addValueTypeWith
  split
  · rename_i hself
    exact .pure fun m h => by rw [hself] at h; cases h
  · dsimp only
    cases hsub : t.subType with
    | none =>
        cases hsignature : t.signature with
        | none =>
            refine .pure fun m => hcovers m ?_ ?_
            · rw [hsub]
              exact nofun
            · rw [hsignature]
              exact nofun
        | some g =>
            refine (hfollow g).imp fun m hg => hcovers m ?_ ?_
            · rw [hsub]
              exact nofun
            · rw [hsignature]
              exact fun g' heq => Option.some.inj heq ▸ hg
    | some sub =>
        have hnamed : ∀ m : Marks, m.Covers cx sub → ∀ sub' ∈ t.subType, m.Covers cx sub' := by
          rw [hsub]
          exact fun m h sub' heq => Option.some.inj heq ▸ h
        cases hsignature : t.signature with
        | none =>
            refine (Walks.bind (addType_walks hnames sub) (fun _ => .pure fun _ => trivial)
              fun m m' hle h => h.mono hle).imp fun m h => hcovers m (hnamed m h.1) ?_
            rw [hsignature]
            exact nofun
        | some g =>
            refine (Walks.bind (addType_walks hnames sub) (fun _ => hfollow g)
              fun m m' hle h => h.mono hle).imp fun m h => hcovers m (hnamed m h.1) ?_
            rw [hsignature]
            exact fun g' heq => Option.some.inj heq ▸ h.2

/-- **A signature that a walk comes by is scanned**: once it is marked, its parameters are
covered. -/
theorem addSignatureFrom_walks (n : Nat) (g : FunctionId) :
    Walks cx R (addSignatureFrom cx n g) (·.signatures g) := by
  induction n generalizing g with
  | zero =>
      intro c a d hc hrun
      obtain ⟨c', _, hget, hrun⟩ := run_bind_ok hrun
      cases hget
      split at hrun
      · rename_i hseen
        cases hrun
        exact ⟨hc, .refl, List.contains_iff_mem.mp hseen⟩
      · cases hrun
  | succ n ih =>
      intro c a d hc hrun
      obtain ⟨c', _, hget, hrun⟩ := run_bind_ok hrun
      cases hget
      split at hrun
      · rename_i hseen
        cases hrun
        exact ⟨hc, .refl, List.contains_iff_mem.mp hseen⟩
      · obtain ⟨_, _, hmark, hrun⟩ := run_bind_ok hrun
        cases hmark
        obtain ⟨decl, hdecl, hrun⟩ := run_liftBind_ok hrun
        have hparams : Walks cx R (decl.params.forM fun p => do
            addValueTypeWith cx (addSignatureFrom cx n) (← cx.schema.field p).type)
            fun m => ∀ p ∈ decl.params, m.CoversField cx p :=
          .forM (fun _ _ _ hle h => h.mono hle) fun p _ => .liftBind fun field hfield =>
            (addValueTypeWith_walks hnames ih field.type).imp fun _ h => ⟨field, hfield, h⟩
        obtain ⟨hd, hwalked, hcovers⟩ := hparams _ _ _ (hc.markSignature g) hrun
        exact ⟨hd, hwalked.of_signature ⟨decl, hdecl, hcovers⟩,
          hwalked.sub.signatures g List.mem_cons_self⟩

theorem addSignature_walks (g : FunctionId) : Walks cx R (addSignature cx g) (·.signatures g) :=
  addSignatureFrom_walks hnames _ g

theorem addValueType_walks (t : ValueType) : Walks cx R (addValueType cx t) (·.CoversType cx t) :=
  addValueTypeWith_walks hnames (addSignature_walks hnames) t

theorem addField_walks (f : FieldId) :
    Walks cx R (do addValueType cx (← cx.schema.field f).type) (·.CoversField cx f) :=
  .liftBind fun decl hdecl => (addValueType_walks hnames decl.type).imp fun _ h => ⟨decl, hdecl, h⟩

/-! ### Values -/

omit hnames in
mutual

/-- What a value names is met. -/
theorem addValueWith_walks (hnames : cx.NamesDistinct) {visit : ObjectId → Collect Unit}
    (hvisit : ∀ o, Walks cx R (visit o) (·.objects o)) :
    ∀ v : Value, Walks cx R (addValueWith cx visit v) (·.Follows cx v)
  | .object (some o) | .softObject (some o) | .delegate (some (o, _)) =>
      (hvisit o).imp fun _ h dep hdep => by
        cases hdep
        subst dep
        exact h
  | .classRef (some t) | .softClass (some t) =>
      (addType_walks hnames t).imp fun _ h dep hdep => by
        cases hdep
        subst dep
        exact h
  | .struct t members =>
      (Walks.bind (addType_walks hnames t) (fun _ => addValuesWith_walks hnames hvisit members)
        fun _ _ hle h => h.mono hle).imp fun _ ⟨htype, hmembers⟩ dep hdep => by
          cases hdep with
          | struct h =>
              subst dep
              exact htype
          | member hv h => exact hmembers _ hv dep h
  | .array items =>
      (addValuesWith_walks hnames hvisit items).imp fun _ h dep hdep => by
        cases hdep with
        | item hv hdep => exact h _ hv dep hdep
  | .object none | .softObject none | .delegate none | .classRef none | .softClass none =>
      .pure fun _ dep hdep => by cases hdep
  | .bool _ | .byte _ | .int _ | .float _ | .name _ | .string _ | .text _ =>
      .pure fun _ dep hdep => by cases hdep

theorem addValuesWith_walks (hnames : cx.NamesDistinct) {visit : ObjectId → Collect Unit}
    (hvisit : ∀ o, Walks cx R (visit o) (·.objects o)) :
    ∀ vs : List Value, Walks cx R (addValuesWith cx visit vs) fun m => ∀ v ∈ vs, m.Follows cx v
  | [] => .pure fun _ => nofun
  | v :: vs =>
      (Walks.bind (addValueWith_walks hnames hvisit v)
        (fun _ => addValuesWith_walks hnames hvisit vs)
        fun _ _ hle h => h.mono hle).imp fun _ h => List.forall_mem_cons.mpr h

end

/-! ### Objects -/

/-- The values of an object are followed, from one that is marked or where the walk starts. -/
theorem addObjectValuesWith_walked {visit : ObjectId → Collect Unit}
    (hvisit : ∀ o, Walks cx R (visit o) (·.objects o)) {o : ObjectId} {a : Unit}
    (hc : c.Recorded cx) (ho : o ∈ c.objects ∨ R o)
    (hrun : (addObjectValuesWith cx visit o).run c = .ok (a, d)) :
    d.Recorded cx ∧ Walked cx R c d ∧ ∀ record, cx.objects.object o = .ok record →
      ∀ entry ∈ record.values, d.marks.Follows cx entry.2 := by
  obtain ⟨_, _, hmark, hrun⟩ := run_bind_ok hrun
  cases hmark
  obtain ⟨record, hrecord, hrun⟩ := run_liftBind_ok hrun
  obtain ⟨hd, hwalked, hfollows⟩ :=
    addValuesWith_walks hnames hvisit _ _ _ _ (hc.markObject o) hrun
  refine ⟨hd, hwalked.of_object (ho.imp id .inl), fun record' hrecord' entry hentry => ?_⟩
  rw [hrecord] at hrecord'
  cases hrecord'
  exact hfollows _ (List.mem_map.mpr ⟨entry, hentry, rfl⟩)

/-- **An object that a walk comes by is explored**: once it is marked, its class is covered, and its
values are followed if it belongs to the unit. -/
theorem addObjectFrom_walks (n : Nat) (o : ObjectId) :
    Walks cx R (addObjectFrom cx n o) (·.objects o) := by
  induction n generalizing o with
  | zero =>
      intro c a d hc hrun
      obtain ⟨c', _, hget, hrun⟩ := run_bind_ok hrun
      cases hget
      split at hrun
      · rename_i hseen
        cases hrun
        exact ⟨hc, .refl, List.contains_iff_mem.mp hseen⟩
      · cases hrun
  | succ n ih =>
      intro c a d hc hrun
      obtain ⟨c', _, hget, hrun⟩ := run_bind_ok hrun
      cases hget
      split at hrun
      · rename_i hseen
        cases hrun
        exact ⟨hc, .refl, List.contains_iff_mem.mp hseen⟩
      · obtain ⟨_, _, hmark, hrun⟩ := run_bind_ok hrun
        cases hmark
        obtain ⟨record, hrecord, hrun⟩ := run_liftBind_ok hrun
        obtain ⟨_, mid, htype, hrun⟩ := run_bind_ok hrun
        obtain ⟨owned, howned, hrun⟩ := run_liftBind_ok hrun
        obtain ⟨hmid, hfirst, hcls⟩ :=
          addType_walks hnames (R := R) record.cls _ _ _ (hc.markObject o) htype
        have hmarked : o ∈ mid.objects := hfirst.sub.objects o List.mem_cons_self
        have hrest : d.Recorded cx ∧ Walked cx R mid d ∧
            (owned = true → ∀ entry ∈ record.values, d.marks.Follows cx entry.2) ∧
            (owned = false → d.marks.listed (.object o)) := by
          cases owned with
          | true =>
              obtain ⟨hd, hwalked, hfollows⟩ :=
                addObjectValuesWith_walked hnames ih hmid (.inl hmarked) hrun
              exact ⟨hd, hwalked, fun _ => hfollows record hrecord, nofun⟩
          | false =>
              obtain ⟨hd, hwalked, hlisted⟩ := record_walks hnames o _ _ _ hmid hrun
              exact ⟨hd, hwalked, nofun, fun _ => hlisted⟩
        obtain ⟨hd, hwalked, hexplored⟩ := hrest
        have hexplored : d.marks.Explored cx True o :=
          ⟨record, hrecord, hcls.mono hwalked.sub, .of_eq howned hexplored⟩
        exact ⟨hd, (hfirst.trans hwalked).of_object (.inr (.inr hexplored)),
          hwalked.sub.objects o hmarked⟩

theorem addValue_walks (v : Value) : Walks cx R (addValue cx v) (·.Follows cx v) :=
  addValueWith_walks hnames (addObjectFrom_walks hnames _) v

/-- The values of objects where the walk starts are followed. -/
theorem addObjectValues_walks {os : List ObjectId} (hos : ∀ o ∈ os, R o) :
    Walks cx R (os.forM (addObjectValues cx)) fun m => ∀ o ∈ os, ∀ record,
      cx.objects.object o = .ok record → ∀ entry ∈ record.values, m.Follows cx entry.2 := by
  refine .forM (fun o m m' hle h record hrecord entry hentry => ?_) fun o ho c a d hc hrun => ?_
  · exact (h record hrecord entry hentry).mono hle
  · exact addObjectValuesWith_walked hnames (addObjectFrom_walks hnames _) hc (.inr (hos o ho)) hrun

/-! ### Units -/

/-- **The surface of a declaration is covered.** -/
theorem addSurface_walks (unit : TypeDecl) :
    Walks cx R (addSurface cx unit) (·.CoversSurface cx unit) := by
  have htypes : ∀ ts : List TypeId, Walks cx R (ts.forM (addType cx))
      fun m => ∀ t ∈ ts, m.Covers cx t :=
    fun ts => .forM (fun _ _ _ hle h => h.mono hle) fun t _ => addType_walks hnames t
  have hfields : Walks cx R
      (unit.fields.forM fun f => do addValueType cx (← cx.schema.field f).type)
      fun m => ∀ f ∈ unit.fields, m.CoversField cx f :=
    .forM (fun _ _ _ hle h => h.mono hle) fun f _ => addField_walks hnames f
  have hfunctions : Walks cx R (unit.functions.forM (addSignature cx))
      fun m => ∀ g ∈ unit.functions, m.signatures g :=
    .forM (fun _ _ _ hle h => hle.signatures _ h) fun g _ => addSignature_walks hnames g
  refine (Walks.bind (htypes unit.superType.toList) (fun _ => .bind (htypes unit.interfaces)
    (fun _ => .bind hfields (fun _ => hfunctions) ?_) ?_) ?_).imp ?_
  · exact fun m m' hle h f hf => (h f hf).mono hle
  · exact fun m m' hle h t ht => (h t ht).mono hle
  · exact fun m m' hle h t ht => (h t ht).mono hle
  · rintro m ⟨hsuper, hinterfaces, hfields, hfunctions⟩
    exact ⟨fun t ht => hsuper t (Option.mem_toList.mpr ht), hinterfaces, hfields, hfunctions⟩

theorem addTerm_walks (t : Term) : Walks cx R (addTerm cx t) (·.CoversTerm cx t) := by
  refine .bind (addValueType_walks hnames t.type) (fun _ => ?_) fun _ _ hle h => h.mono hle
  cases t.kind with
  | literal v =>
      exact (addValue_walks hnames v).imp fun m h w hw => by
        cases hw
        exact h
  | _ => exact .pure fun m w hw => by cases hw

/-- **The body of a function is covered.** -/
theorem addGraph_walks (g : FunctionGraph) :
    Walks cx R (addGraph cx g) (·.CoversGraph cx g) := by
  have hlocals : Walks cx R (g.locals.forM fun l => addValueType cx l.type)
      fun m => ∀ l ∈ g.locals, m.CoversType cx l.type :=
    .forM (P := fun (l : LocalDecl) m => m.CoversType cx l.type) (fun _ _ _ hle h => h.mono hle)
      fun l _ => addValueType_walks hnames l.type
  have hterms : Walks cx R (g.terms.toList.forM (addTerm cx))
      fun m => ∀ t ∈ g.terms.toList, m.CoversTerm cx t :=
    .forM (fun _ _ _ hle h => h.mono hle) fun t _ => addTerm_walks hnames t
  have hcallees : Walks cx R (g.statements.toList.forM fun s =>
      s.function.toList.forM fun f => do addType cx (← cx.schema.function f).owner)
      fun m => ∀ s ∈ g.statements.toList, ∀ f ∈ s.function.toList, m.CoversOwner cx f :=
    .forM (fun _ _ _ hle h f hf => (h f hf).mono hle) fun s _ =>
      .forM (fun _ _ _ hle h => h.mono hle) fun f _ => .liftBind fun decl hdecl =>
        (addType_walks hnames decl.owner).imp fun _ h => ⟨decl, hdecl, h⟩
  refine (Walks.bind hlocals (fun _ => .bind hterms (fun _ => hcallees) ?_) ?_).imp ?_
  · exact fun m m' hle h t ht => (h t ht).mono hle
  · exact fun m m' hle h l hl => (h l hl).mono hle
  · rintro m ⟨hlocals, hterms, hcallees⟩
    exact ⟨hlocals, hterms, fun s hs f hf => hcallees s hs f (Option.mem_toList.mpr hf)⟩

end

/-- The objects of a unit from which a walk starts: its default object, and those it owns. -/
def IsRoot (unit : TypeDecl) (o : ObjectId) : Prop :=
  unit.defaultObject = some o ∨ o ∈ unit.ownedObjects

/-- **The bodies and defaults of a unit are walked**, from its default object and the objects that
it owns. -/
theorem addBodies_walks (hnames : cx.NamesDistinct) (u : ScriptUnit) (unit : TypeDecl) :
    Walks cx (IsRoot unit) (addBodies cx u unit) fun m => ∀ o, IsRoot unit o → ∀ record,
      cx.objects.object o = .ok record → ∀ entry ∈ record.values, m.Follows cx entry.2 := by
  have hfollows : ∀ (os : List ObjectId) (m m' : Marks), m.Sub m' →
      (∀ o ∈ os, ∀ record, cx.objects.object o = .ok record →
        ∀ entry ∈ record.values, m.Follows cx entry.2) →
      ∀ o ∈ os, ∀ record, cx.objects.object o = .ok record →
        ∀ entry ∈ record.values, m'.Follows cx entry.2 :=
    fun os m m' hle h o ho record hrecord entry hentry =>
      (h o ho record hrecord entry hentry).mono hle
  have hgraphs : Walks cx (IsRoot unit) (u.functions.forM (addGraph cx)) fun _ => True :=
    (Walks.forM (P := fun _ _ => True) (fun _ _ _ _ h => h) fun g _ =>
      (addGraph_walks hnames g).imp fun _ _ => trivial).imp fun _ _ => trivial
  have hdefaults : Walks cx (IsRoot unit)
      (unit.structDefaults.toList.forM fun d => d.members.forM (addValue cx)) fun _ => True :=
    (Walks.forM (P := fun _ _ => True) (fun _ _ _ _ h => h) fun d _ =>
      (Walks.forM (P := fun _ _ => True) (fun _ _ _ _ h => h) fun v _ =>
        (addValue_walks hnames v).imp fun _ _ => trivial).imp fun _ _ => trivial).imp
          fun _ _ => trivial
  refine (Walks.bind hgraphs (fun _ => Walks.bind
    (addObjectValues_walks hnames fun o ho => .inl (Option.mem_toList.mp ho))
    (fun _ => Walks.bind (addObjectValues_walks hnames fun o ho => .inr ho) (fun _ => hdefaults)
      (hfollows _)) (hfollows _)) fun _ _ _ h => h).imp ?_
  rintro m ⟨-, hdefault, howned, -⟩ o (ho | ho)
  · exact hdefault o (Option.mem_toList.mpr ho)
  · exact howned o ho

end Collector

open Collector

/-- The dependencies of a unit are what two walks have found, one over the surface of the
declaration and one over bodies and defaults. -/
theorem gather_run {cx : Context} {u : ScriptUnit} {deps : Dependencies}
    (h : gather cx u = .ok deps) :
    ∃ unit surface bodies, cx.schema.type u.type = .ok unit ∧
      (addSurface cx unit).run {} = .ok ((), surface) ∧
      (addBodies cx u unit).run {} = .ok ((), bodies) ∧
      deps.header = surface.finish [.type u.type] ∧
      deps.implementation = bodies.finish (.type u.type :: deps.header) := by
  obtain ⟨unit, hunit, h⟩ := Lookup.of_bind_ok h
  obtain ⟨⟨_, surface⟩, hsurface, h⟩ := Lookup.of_bind_ok h
  obtain ⟨⟨_, bodies⟩, hbodies, h⟩ := Lookup.of_bind_ok h
  cases h
  exact ⟨unit, surface, bodies, hunit, hsurface, hbodies, rfl, rfl⟩

theorem Collector.mem_finish {c : Collector} {exclude : List Dependency} {dep : Dependency} :
    dep ∈ c.finish exclude ↔ c.marks.listed dep ∧ dep ∉ exclude := by
  simp [finish, marks]

/-- The type is the unit itself, an engine struct, or listed. -/
def Dependencies.Includes (cx : Context) (deps : Dependencies) (t : TypeId) : Prop :=
  t = cx.unit ∨ (∃ decl, cx.schema.type t = .ok decl ∧ decl.wellKnown.isSome = true) ∨
    .type t ∈ deps.header ∨ .type t ∈ deps.implementation

/-- **Under distinct names, what the walk over bodies and defaults covers is included.** -/
theorem gather_walks {cx : Context} {u : ScriptUnit} {unit : TypeDecl} {deps : Dependencies}
    (hnames : cx.NamesDistinct) (hu : u.type = cx.unit) (hunit : cx.schema.type cx.unit = .ok unit)
    (h : gather cx u = .ok deps) :
    ∃ c, Walked cx (IsRoot unit) {} c ∧
      (∀ o, IsRoot unit o → ∀ record, cx.objects.object o = .ok record →
        ∀ entry ∈ record.values, c.marks.Follows cx entry.2) ∧
      ∀ t, c.marks.Covers cx t → deps.Includes cx t := by
  obtain ⟨unit', surface, bodies, hunit', -, hbodies, hheader, himplementation⟩ := gather_run h
  obtain rfl : unit' = unit := by
    rw [hu, hunit] at hunit'
    exact (Except.ok.inj hunit').symm
  obtain ⟨-, hwalked, hfollows⟩ := addBodies_walks hnames u unit' _ _ _ .empty hbodies
  refine ⟨bodies, hwalked, hfollows, ?_⟩
  rintro t ⟨decl, hdecl, hknown | hlisted⟩
  · exact .inr (.inl ⟨decl, hdecl, hknown⟩)
  -- What was found and is not listed in the implementation is the unit, or in the header.
  by_cases hself : t = u.type
  · exact .inl (hself.trans hu)
  by_cases hmem : .type t ∈ deps.header
  · exact .inr (.inr (.inl hmem))
  · refine .inr (.inr (.inr ?_))
    rw [himplementation, mem_finish]
    exact ⟨hlisted, by simpa [hself] using hmem⟩

end GraphLowering
