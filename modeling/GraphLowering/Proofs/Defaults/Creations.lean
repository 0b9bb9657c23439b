import GraphLowering.Proofs.Defaults.Moves

/-!
# Defaults — what the moves create

Invariants of a row of moves, each read off one move.

* `Moves.count_createdBy`: an object is created when it comes to be at hand, and at no other time.
* `Moves.registered_eq`: the objects registered are those of the lines that register one.
* `Moves.registeredBy_eq_nil_iff`: nothing is registered exactly when nothing is created under the
  class or under an object that is registered.
* `Moves.allKnown`: a local that a line uses was declared before it, or was at hand from the start.
-/

namespace GraphLowering.Defaults

variable {cx : Context} {root x : String} {again : List ObjectId} {s t u : State} {o : ObjectId}

/-! ### Lines that create and register -/

/-- The objects that lines register, in order. -/
def registeredBy (ls : List Line) : List ObjectId :=
  ls.filterMap fun
    | .register o _ _ => some o
    | _ => none

@[simp] theorem createdBy_append (ls ls' : List Line) :
    createdBy (ls ++ ls') = createdBy ls ++ createdBy ls' := by
  simp [createdBy]

theorem mem_createdBy {ls : List Line} :
    o ∈ createdBy ls ↔ ∃ c, Line.create c ∈ ls ∧ c.object = o := by
  simp only [createdBy, List.mem_filterMap]
  constructor
  · rintro ⟨l, hl, h⟩
    cases l with
    | create c => exact ⟨c, hl, Option.some.inj h⟩
    | _ => cases h
  · rintro ⟨c, hc, rfl⟩
    exact ⟨.create c, hc, rfl⟩

theorem mem_registeredBy {ls : List Line} :
    o ∈ registeredBy ls ↔ ∃ x text, Line.register o x text ∈ ls := by
  simp only [registeredBy, List.mem_filterMap]
  constructor
  · rintro ⟨l, hl, h⟩
    cases l with
    | register o' x text =>
        cases h
        exact ⟨x, text, hl⟩
    | _ => cases h
  · rintro ⟨x, text, hl⟩
    exact ⟨.register o x text, hl, rfl⟩

theorem createdBy_withCreation (s : State) (c : Creation) (afterCreate : Option String) :
    createdBy (s.withCreation c afterCreate).lines = createdBy s.lines ++ [c.object] := by
  cases afterCreate <;> simp [lines_withCreation, createdBy]

theorem registeredBy_withCreation (s : State) (c : Creation) (afterCreate : Option String) :
    registeredBy (s.withCreation c afterCreate).lines =
      registeredBy s.lines ++ (afterCreate.toList.map fun _ => c.object) := by
  cases afterCreate <;> simp [lines_withCreation, registeredBy]

theorem Stores.createdBy_withLine {l : Line} (h : Stores cx root s l) :
    createdBy (s.withLine l).lines = createdBy s.lines := by
  cases h <;> simp [State.withLine, createdBy]

theorem Stores.registeredBy_withLine {l : Line} (h : Stores cx root s l) :
    registeredBy (s.withLine l).lines = registeredBy s.lines := by
  cases h <;> simp [State.withLine, registeredBy]

/-- Only a creation creates. -/
theorem Stores.create_mem_withLine {l : Line} (h : Stores cx root s l) {c : Creation} :
    Line.create c ∈ (s.withLine l).lines ↔ Line.create c ∈ s.lines := by
  cases h <;> simp [State.withLine]

theorem create_mem_withCreation (s : State) (c : Creation) (afterCreate : Option String)
    {c' : Creation} : Line.create c' ∈ (s.withCreation c afterCreate).lines ↔
      Line.create c' ∈ s.lines ∨ c' = c := by
  cases afterCreate <;> simp [lines_withCreation]

/-! ### Names -/

theorem Moves.generated_eq (h : Moves cx root again s t) :
    t.names.generated = s.names.generated := by
  induction h with
  | refl => rfl
  | tail _ hmove ih =>
      cases hmove with
      | report p => exact ih
      | store _ => exact ih
      | create _ _ => rw [generated_withCreation, ih]

theorem Moves.tallied (h : Moves cx root again s t) (hs : s.names.Tallied) : t.names.Tallied := by
  induction h with
  | refl => exact hs
  | tail _ hmove ih =>
      cases hmove with
      | report p => exact ih
      | store _ => exact ih
      | create _ _ =>
          rw [names_withCreation]
          dsimp only
          split
          · exact (ih.addNew _ _).register _
          · exact ih.addNew _ _

/-- Names that are taken stay so. -/
theorem Moves.taken_subset (h : Moves cx root again s t) : s.names.taken ⊆ t.names.taken := by
  induction h with
  | refl => exact List.Subset.refl _
  | tail _ hmove ih =>
      cases hmove with
      | report p => exact ih
      | store _ => exact ih
      | create _ _ =>
          refine List.Subset.trans ih ?_
          rw [names_withCreation]
          dsimp only
          split <;> simp

/-- What is at hand stays at hand, even if it is created again. -/
theorem Moves.isSome_find? (h : Moves cx root again s t) (ho : (s.names.find? o).isSome) :
    (t.names.find? o).isSome := by
  induction h with
  | refl => exact ho
  | tail _ hmove ih =>
      cases hmove with
      | report p => exact ih
      | store _ => exact ih
      | create _ _ =>
          rw [find?_withCreation]
          split
          · rfl
          · exact ih

/-- An object at hand was so from the start under the same name, or was created. -/
theorem Moves.find?_cases (h : Moves cx root again s t) (ho : t.names.find? o = some x) :
    s.names.find? o = some x ∨ ∃ c, Line.create c ∈ t.lines ∧ c.object = o ∧ c.localName = x := by
  induction h with
  | refl => exact .inl ho
  | tail _ hmove ih =>
      cases hmove with
      | report p => exact ih ho
      | store hl =>
          obtain h | ⟨c, hc, h⟩ := ih ho
          · exact .inl h
          · exact .inr ⟨c, hl.create_mem_withLine.mpr hc, h⟩
      | @create c owner hc _ =>
          rw [find?_withCreation] at ho
          split at ho
          · rename_i heq
            refine .inr ⟨c, (create_mem_withCreation ..).mpr (.inr rfl), heq.symm, ?_⟩
            rw [hc.localName, ← Option.some.inj ho]
          · obtain h | ⟨c', hc', h⟩ := ih ho
            · exact .inl h
            · exact .inr ⟨c', (create_mem_withCreation ..).mpr (.inl hc'), h⟩

/-- A created object is at hand under the local of its latest creation. -/
theorem Moves.find?_of_created (h : Moves cx root again s t) (hs : s.lines = [])
    (ho : o ∈ createdBy t.lines) :
    ∃ c, Line.create c ∈ t.lines ∧ c.object = o ∧ t.names.find? o = some c.localName := by
  induction h with
  | refl => simp [hs, createdBy] at ho
  | tail _ hmove ih =>
      cases hmove with
      | report p => exact ih ho
      | store hl =>
          rw [hl.createdBy_withLine] at ho
          obtain ⟨c, hc, h⟩ := ih ho
          exact ⟨c, hl.create_mem_withLine.mpr hc, h⟩
      | @create c owner hc _ =>
          by_cases heq : o = c.object
          · refine ⟨c, (create_mem_withCreation ..).mpr (.inr rfl), heq.symm, ?_⟩
            rw [find?_withCreation, if_pos heq, hc.localName]
          · rw [createdBy_withCreation] at ho
            have ho := (List.mem_append.mp ho).resolve_right (by simpa using heq)
            obtain ⟨c', hc', hobject, hname⟩ := ih ho
            refine ⟨c', (create_mem_withCreation ..).mpr (.inl hc'), hobject, ?_⟩
            rw [find?_withCreation, if_neg heq, hname]

/-- The local of a creation is one of the numbered names, and was not taken at the start. -/
theorem Moves.localName_of_create (h : Moves cx root again s t) (hs : s.lines = []) {c : Creation}
    (hc : Line.create c ∈ t.lines) :
    (∃ k, c.localName = LocalNames.localName k) ∧ c.localName ∉ s.names.taken := by
  induction h with
  | refl => simp [hs] at hc
  | tail hmoves hmove ih =>
      cases hmove with
      | report p => exact ih hc
      | store hl => exact ih (hl.create_mem_withLine.mp hc)
      | create hunder _ =>
          rcases (create_mem_withCreation ..).mp hc with hc | rfl
          · exact ih hc
          · rw [hunder.localName]
            exact ⟨LocalNames.exists_fresh_eq _, fun hmem =>
              LocalNames.fresh_not_mem _ (Moves.taken_subset hmoves hmem)⟩

/-! ### Each object once -/

/-- **An object is created when it comes to be at hand**, unless it is one that may be created
again. -/
theorem Moves.count_createdBy (h : Moves cx root again s t) (ho : o ∉ again) :
    (createdBy t.lines).count o + (s.names.find? o).isSome.toNat =
      (createdBy s.lines).count o + (t.names.find? o).isSome.toNat := by
  induction h with
  | refl => rfl
  | tail _ hmove ih =>
      cases hmove with
      | report p => exact ih
      | store hl =>
          rw [hl.createdBy_withLine]
          exact ih
      | @create c owner _ hnew =>
          rw [createdBy_withCreation, find?_withCreation, List.count_append]
          by_cases heq : o = c.object
          · subst heq
            simp only [hnew.resolve_right ho, Option.isSome_none, Bool.toNat_false] at ih
            simp
            omega
          · have hcount : [c.object].count o = 0 := by simp [Ne.symm heq]
            rw [if_neg heq, hcount]
            exact ih

/-- No object was created twice, and what was created is at hand. -/
structure CreatedOnce (s : State) : Prop where
  nodup : (createdBy s.lines).Nodup
  atHand : ∀ o ∈ createdBy s.lines, (s.names.find? o).isSome

theorem CreatedOnce.withCreation (h : CreatedOnce s) {c : Creation}
    (hnew : c.object ∉ createdBy s.lines) (afterCreate : Option String) :
    CreatedOnce (s.withCreation c afterCreate) where
  nodup := by
    rw [createdBy_withCreation]
    exact h.nodup.append (List.nodup_singleton _) (by simpa using hnew)
  atHand := by
    intro o ho
    rw [createdBy_withCreation] at ho
    rw [find?_withCreation]
    split
    · rfl
    · rename_i hne
      exact h.atHand o ((List.mem_append.mp ho).resolve_right (by simpa using hne))

theorem Moves.createdOnce (h : Moves cx root [] s t) (hs : CreatedOnce s) : CreatedOnce t := by
  induction h with
  | refl => exact hs
  | tail _ hmove ih =>
      cases hmove with
      | report p => exact ⟨ih.nodup, ih.atHand⟩
      | store hl => exact ⟨hl.createdBy_withLine ▸ ih.nodup, hl.createdBy_withLine ▸ ih.atHand⟩
      | @create c owner _ hnew =>
          refine ih.withCreation (fun hmem => ?_) _
          have hsome := ih.atHand _ hmem
          rw [hnew.resolve_right List.not_mem_nil] at hsome
          cases hsome

/-- Where values are emitted, only objects that are not at hand are created. -/
theorem Moves.find?_eq_none (h : Moves cx root [] s t) (hs : s.lines = [])
    (ho : o ∈ createdBy t.lines) : s.names.find? o = none := by
  induction h with
  | refl => simp [hs, createdBy] at ho
  | tail hmoves hmove ih =>
      cases hmove with
      | report p => exact ih ho
      | store hl => exact ih (hl.createdBy_withLine ▸ ho)
      | @create c owner _ hnew =>
          rw [createdBy_withCreation] at ho
          rcases List.mem_append.mp ho with ho | ho
          · exact ih ho
          · rw [List.mem_singleton.mp ho]
            exact (Moves.keeps hmoves).none (hnew.resolve_right List.not_mem_nil)

/-- The owner of a created object is at hand. -/
theorem Moves.isSome_owner? (h : Moves cx root again s t) {g : GeneratedClass}
    (hg : s.names.generated = some g) (hs : s.lines = []) (ho : o ∈ createdBy t.lines) :
    ∃ record, cx.objects.object o = .ok record ∧ (t.names.owner? record.outer).isSome := by
  induction h with
  | refl => simp [hs, createdBy] at ho
  | tail hmoves hmove ih =>
      cases hmove with
      | report p => exact ih ho
      | store hl => exact ih (hl.createdBy_withLine ▸ ho)
      | @create c owner hc hnew =>
          obtain ⟨record, hrecord, howner⟩ : ∃ record, cx.objects.object o = .ok record ∧
              ∃ owner, (State.names _).owner? record.outer = some owner := by
            rw [createdBy_withCreation] at ho
            rcases List.mem_append.mp ho with ho | ho
            · obtain ⟨record, hrecord, howner⟩ := ih ho
              exact ⟨record, hrecord, Option.isSome_iff_exists.mp howner⟩
            · obtain ⟨record, hrecord, howner, -⟩ := hc.record
              exact ⟨record, List.mem_singleton.mp ho ▸ hrecord, owner, howner⟩
          obtain ⟨owner', howner'⟩ := howner
          have hmid := (Moves.generated_eq hmoves).trans hg
          refine ⟨record, hrecord, LocalNames.isSome_owner?
            ((generated_withCreation ..).trans hmid) ?_⟩
          -- The class stays, and an object at hand stays at hand.
          rcases (LocalNames.owner?_cases hmid howner').2 with ⟨houter, -⟩ | ⟨p, houter, hp⟩
          · exact .inl houter
          · refine .inr ⟨p, houter, ?_⟩
            have hstep : Moves cx root again _ _ := .single (.create hc hnew)
            exact Moves.isSome_find? hstep (by rw [hp]; rfl)

/-- The lines that a row of moves adds create objects that there are. -/
theorem Moves.exists_lines (h : Moves cx root again s t) : ∃ added, t.lines = s.lines ++ added ∧
    ∀ o ∈ createdBy added, ∃ record, cx.objects.object o = .ok record := by
  induction h with
  | refl => exact ⟨[], (List.append_nil _).symm, nofun⟩
  | tail _ hmove ih =>
      obtain ⟨added, hlines, hadded⟩ := ih
      cases hmove with
      | report p => exact ⟨added, hlines, hadded⟩
      | @store l hl =>
          refine ⟨added ++ [l], by rw [State.withLine, hlines, List.append_assoc], fun o ho => ?_⟩
          have hnone : createdBy [l] = [] := by cases hl <;> rfl
          rw [createdBy_append, hnone, List.append_nil] at ho
          exact hadded o ho
      | @create c owner hc _ =>
          refine ⟨added ++ .create c :: owner.afterCreate.toList.map
            (.register c.object c.localName), ?_, fun o ho => ?_⟩
          · rw [lines_withCreation, hlines, List.append_assoc]
          · have hone : createdBy (.create c :: owner.afterCreate.toList.map
                (.register c.object c.localName)) = [c.object] := by
              cases owner.afterCreate <;> rfl
            rw [createdBy_append, hone] at ho
            rcases List.mem_append.mp ho with ho | ho
            · exact hadded o ho
            · obtain ⟨record, hrecord, -⟩ := hc.record
              exact ⟨record, List.mem_singleton.mp ho ▸ hrecord⟩

/-- Among the lines that a row of moves adds, no two create the same object. -/
theorem Moves.nodup_added (h : Moves cx root [] s t) {added : List Line}
    (hlines : t.lines = s.lines ++ added) : (createdBy added).Nodup := by
  refine List.nodup_iff_count_le_one.mpr fun o => ?_
  have hcount := Moves.count_createdBy h (List.not_mem_nil (a := o))
  rw [hlines, createdBy_append, List.count_append] at hcount
  have hle := Bool.toNat_le (t.names.find? o).isSome
  omega

/-! ### Registered objects -/

/-- An object is registered when it is created, so it is one that there is. -/
theorem Moves.object_of_registered (h : Moves cx root again s t)
    (ho : o ∈ t.names.registered) :
    o ∈ s.names.registered ∨ ∃ record, cx.objects.object o = .ok record := by
  induction h with
  | refl => exact .inl ho
  | tail _ hmove ih =>
      cases hmove with
      | report p => exact ih ho
      | store _ => exact ih ho
      | @create c owner hc _ =>
          rw [registered_withCreation] at ho
          rcases List.mem_append.mp ho with ho | ho
          · exact ih ho
          · obtain ⟨-, -, rfl⟩ := List.mem_map.mp ho
            obtain ⟨record, hrecord, -⟩ := hc.record
            exact .inr ⟨record, hrecord⟩

/-- The objects registered are those of the lines that register one, behind those from before. -/
theorem Moves.registered_eq (h : Moves cx root again s t) (hs : s.lines = []) :
    t.names.registered = s.names.registered ++ registeredBy t.lines := by
  induction h with
  | refl => simp [hs, registeredBy]
  | tail _ hmove ih =>
      cases hmove with
      | report p => exact ih
      | store hl =>
          rw [hl.registeredBy_withLine]
          exact ih
      | create _ _ =>
          rw [registered_withCreation, registeredBy_withCreation, ih, List.append_assoc]

/-- A line registers an object that a line created, under the local of that creation and by the
statement of the class. -/
theorem Moves.create_of_register (h : Moves cx root again s t) (hs : s.lines = [])
    {g : GeneratedClass} (hg : s.names.generated = some g) {afterCreate : String}
    (hl : Line.register o x afterCreate ∈ t.lines) :
    afterCreate = g.afterCreate ∧
      ∃ c, Line.create c ∈ t.lines ∧ c.object = o ∧ c.localName = x := by
  induction h with
  | refl => simp [hs] at hl
  | tail hmoves hmove ih =>
      rename_i mid _
      cases hmove with
      | report p => exact ih hl
      | store hstores =>
          have hl : Line.register o x afterCreate ∈ mid.lines := by
            cases hstores <;> simpa [State.withLine] using hl
          obtain ⟨htext, c, hc, h⟩ := ih hl
          exact ⟨htext, c, hstores.create_mem_withLine.mpr hc, h⟩
      | @create c owner hc _ =>
          rw [lines_withCreation] at hl
          rcases List.mem_append.mp hl with hl | hl
          · obtain ⟨htext, c', hc', h⟩ := ih hl
            exact ⟨htext, c', (create_mem_withCreation ..).mpr (.inl hc'), h⟩
          · obtain ⟨record, -, howner, -⟩ := hc.record
            rcases (LocalNames.owner?_cases ((Moves.generated_eq hmoves).trans hg) howner).1 with
              ⟨hafter, -⟩ | ⟨hafter, -⟩
            · obtain ⟨rfl, rfl, rfl⟩ : o = c.object ∧ x = c.localName ∧
                  afterCreate = g.afterCreate := by simpa [hafter] using hl
              exact ⟨rfl, c, (create_mem_withCreation ..).mpr (.inr rfl), rfl, rfl⟩
            · simp [hafter] at hl

/-- The object is one of the class, or one of an object that is registered. -/
def StoredWith (cx : Context) (n : LocalNames) (cls : TypeId) (o : ObjectId) : Prop :=
  ∃ record, cx.objects.object o = .ok record ∧ n.StoresUnder cls record.outer

/-- **Nothing is registered exactly when nothing is created** that belongs to the class or to an
object registered before. -/
theorem Moves.registeredBy_eq_nil_iff (h : Moves cx root again s t) (hs : s.lines = [])
    {g : GeneratedClass} (hg : s.names.generated = some g) :
    registeredBy t.lines = [] ↔ ∀ o ∈ createdBy t.lines, ¬ StoredWith cx s.names g.cls o := by
  induction h with
  | refl => simp [hs, registeredBy, createdBy]
  | tail hmoves hmove ih =>
      rename_i mid _
      cases hmove with
      | report p => exact ih
      | store hl =>
          rw [hl.registeredBy_withLine, hl.createdBy_withLine]
          exact ih
      | @create c owner hc hnew =>
          rw [registeredBy_withCreation, createdBy_withCreation, List.append_eq_nil_iff, ih]
          simp only [List.mem_append, List.mem_singleton, or_imp, forall_and, forall_eq]
          refine and_congr_right fun hnone => ?_
          -- As long as nothing was registered, the registered objects are those from before.
          have hregistered : mid.names.registered = s.names.registered := by
            rw [Moves.registered_eq hmoves hs, ih.mpr hnone, List.append_nil]
          obtain ⟨record, hrecord, howner, -⟩ := hc.record
          have hstored : StoredWith cx s.names g.cls c.object ↔
              mid.names.StoresUnder g.cls record.outer := by
            unfold StoredWith LocalNames.StoresUnder
            rw [hregistered]
            constructor
            · rintro ⟨record', hrecord', h⟩
              rw [hrecord] at hrecord'
              cases hrecord'
              exact h
            · exact fun h => ⟨record, hrecord, h⟩
          rw [hstored]
          rcases (LocalNames.owner?_cases ((Moves.generated_eq hmoves).trans hg) howner).1 with
            ⟨hafter, hstores⟩ | ⟨hafter, hstores⟩
          · simp [hafter, hstores]
          · simp [hafter, hstores]

/-! ### Scopes -/

/-- The line uses the expression of an object: to store the object, to store something below it, to
create another under it, or to register it. -/
def Line.Uses (x : String) : Line → Prop
  | .assign p source | .append p source => p.root = x ++ "->" ∨ ∃ o, source = .object o x
  | .clear p | .reserve p _ => p.root = x ++ "->"
  | .create c => c.outer = x
  | .register _ localName _ => localName = x

/-- The line stores an object, or creates another that it owns. -/
def Line.RefersTo (cx : Context) (o : ObjectId) : Line → Prop
  | .assign _ source | .append _ source => ∃ x, source = .object o x
  | .create c => ∃ record, cx.objects.object c.object = .ok record ∧ record.outer = .object o
  | .clear _ | .reserve _ _ | .register _ _ _ => False

/-- Lines before declare the local. -/
def Declares (ls : List Line) (x : String) : Prop := ∃ c, Line.create c ∈ ls ∧ c.localName = x

/-- A line uses only locals that lines before it declare and those of objects in `n` that it refers
to. -/
def Known (cx : Context) (n : LocalNames) (before : List Line) (l : Line) : Prop :=
  ∀ k, l.Uses (LocalNames.localName k) → Declares before (LocalNames.localName k) ∨
    ∃ o, n.find? o = some (LocalNames.localName k) ∧ l.RefersTo cx o

/-- Every line of a row is known at its place. -/
def AllKnown (cx : Context) (n : LocalNames) (ls : List Line) : Prop :=
  ∀ before l after, ls = before ++ l :: after → Known cx n before l

/-- What holds of every line and those before it holds with one more line, if it does of that. -/
theorem forall_split_snoc {P : List Line → Line → Prop} {ls : List Line} {l : Line}
    (h : ∀ before l' after, ls = before ++ l' :: after → P before l') (hl : P ls l) :
    ∀ before l' after, ls ++ [l] = before ++ l' :: after → P before l' := by
  intro before l' after heq
  rcases List.eq_nil_or_concat after with rfl | ⟨after, last, rfl⟩
  · obtain ⟨rfl, hlast⟩ := List.append_inj heq (by simpa using congrArg List.length heq)
    cases hlast
    exact hl
  · rw [List.concat_eq_append, ← List.cons_append, ← List.append_assoc] at heq
    exact h before l' after (List.append_inj_left' heq rfl)

theorem AllKnown.snoc {n : LocalNames} {ls : List Line} {l : Line} (h : AllKnown cx n ls)
    (hl : Known cx n ls l) : AllKnown cx n (ls ++ [l]) :=
  forall_split_snoc h hl

/-- A place below the empty root or a created object uses a local that was declared. -/
theorem State.HasRoot.declares {p : Place} (h : s.HasRoot "" p) (hx : p.root = x ++ "->") :
    Declares s.lines x := by
  rcases h with h | ⟨c, hc, h⟩
  · have hlen := congrArg String.length (h.symm.trans hx)
    rw [String.length_append] at hlen
    exact absurd hlen (Nat.ne_of_lt (Nat.add_pos_right _ (by decide)))
  · exact ⟨c, hc, (String.append_left_inj _).mp (h.symm.trans hx)⟩

/-- A line that refers to an object from before uses its expression. -/
theorem Moves.uses_of_refersTo (h : Moves cx root [] s t) (hs : s.lines = [])
    {g : GeneratedClass} (hg : s.names.generated = some g) (ho : s.names.find? o = some x)
    {l : Line} (hl : l ∈ t.lines) (hrefers : l.RefersTo cx o) : l.Uses x := by
  induction h with
  | refl => simp [hs] at hl
  | tail hmoves hmove ih =>
      rename_i mid _
      have hname : mid.names.find? o = some x := Moves.keeps hmoves o x ho
      cases hmove with
      | report p => exact ih hl
      | store hstores =>
          rcases List.mem_append.mp hl with hl | hl
          · exact ih hl
          · obtain rfl := List.mem_singleton.mp hl
            cases hstores with
            | clear _ => exact hrefers.elim
            | reserve _ => exact hrefers.elim
            | assign _ hsource =>
                obtain ⟨y, rfl⟩ := hrefers
                exact .inr ⟨o, by rw [Option.some.inj (hname.symm.trans hsource)]⟩
            | append _ hsource =>
                obtain ⟨y, rfl⟩ := hrefers
                exact .inr ⟨o, by rw [Option.some.inj (hname.symm.trans hsource)]⟩
      | @create c owner hc _ =>
          rw [lines_withCreation] at hl
          rcases List.mem_append.mp hl with hl | hl
          · exact ih hl
          · rcases List.mem_cons.mp hl with rfl | hl
            · obtain ⟨record, hrecord, howner, -⟩ := hc.record
              obtain ⟨record', hrecord', houter⟩ := hrefers
              rw [hrecord] at hrecord'
              cases hrecord'
              have hgenerated := (Moves.generated_eq hmoves).trans hg
              have howner := (LocalNames.owner?_cases hgenerated howner).2
              rw [houter] at howner
              rcases howner with ⟨hne, -⟩ | ⟨p, hp, hexpr⟩
              · cases hne
              · cases hp
                exact hc.outer.trans (Option.some.inj (hexpr.symm.trans hname))
            · obtain ⟨text, -, rfl⟩ := List.mem_map.mp hl
              exact hrefers.elim

/-- **A local is declared before it is used**, or it was at hand from the start and the line refers
to its object. -/
theorem Moves.allKnown (h : Moves cx "" [] s t) (hs : s.lines = [])
    {g : GeneratedClass} (hg : s.names.generated = some g) (hexpr : g.expression = "GetClass()") :
    AllKnown cx s.names t.lines := by
  induction h with
  | refl =>
      intro before l after heq
      simp [hs] at heq
  | tail hmoves hmove ih =>
      rename_i mid _
      -- An object at hand was declared by a line, unless it was at hand from the start.
      have hknown : ∀ o x, mid.names.find? o = some x → Declares mid.lines x ∨
          s.names.find? o = some x := by
        intro o x ho
        rcases Moves.find?_cases hmoves ho with h | ⟨c, hc, -, hx⟩
        · exact .inr h
        · exact .inl ⟨c, hc, hx⟩
      cases hmove with
      | report p => exact ih
      | store hl =>
          refine ih.snoc fun k huses => ?_
          cases hl with
          | clear hp => exact .inl (hp.declares huses)
          | reserve hp => exact .inl (hp.declares huses)
          | assign hp hsource =>
              rcases huses with hroot | ⟨o, rfl⟩
              · exact .inl (hp.declares hroot)
              · exact (hknown o _ hsource).imp id fun h => ⟨o, h, _, rfl⟩
          | append hp hsource =>
              rcases huses with hroot | ⟨o, rfl⟩
              · exact .inl (hp.declares hroot)
              · exact (hknown o _ hsource).imp id fun h => ⟨o, h, _, rfl⟩
      | @create c owner hc hnew =>
          have hcreate : AllKnown cx s.names (mid.lines ++ [.create c]) := by
            refine ih.snoc fun k huses => ?_
            obtain ⟨record, hrecord, howner, -⟩ := hc.record
            have hk : owner.expression = LocalNames.localName k := hc.outer.symm.trans huses
            rcases (LocalNames.owner?_cases ((Moves.generated_eq hmoves).trans hg) howner).2 with
              ⟨-, hclass⟩ | ⟨p, houter, hp⟩
            · exact absurd (hk.symm.trans (hclass.trans hexpr)) (LocalNames.localName_ne_getClass k)
            · rw [hk] at hp
              exact (hknown p _ hp).imp id fun h => ⟨p, h, record, hrecord, houter⟩
          rw [lines_withCreation]
          cases owner.afterCreate with
          | none => exact hcreate
          | some text =>
              have hregister := hcreate.snoc (l := .register c.object c.localName text)
                fun k huses => .inl ⟨c, by simp, huses⟩
              simpa using hregister

end GraphLowering.Defaults
