import GraphLowering.Proofs.Defaults.Replay
import GraphLowering.Proofs.Steps

/-!
# Defaults — runs

What a run of emission adds, and what the added lines do when they are replayed.

* `Emits`: what is known of a run that reports nothing.  It is put together from the parts of the
  run (`Emits.bind`), since a run only ever adds to the lines and the diagnostics.
* `Replays`: the lines that a run added change a store as stated, and every object that it created
  ends up with the values of the live one.
* `Writes`: the lines that a run added turn one value of a place into another.
-/

namespace GraphLowering.Defaults

variable {α β : Type} {cx : Context} {root : String} {s t u : State}

/-! ### Growth -/

/-- The lines emitted between two states. -/
def linesSince (s t : State) : List Line := t.lines.drop s.lines.length

/-- The objects created between two states. -/
def createdSince (s t : State) : List ObjectId := createdBy (linesSince s t)

/-- What was emitted or reported stays. -/
structure Grows (s t : State) : Prop where
  lines : s.lines <+: t.lines
  diagnostics : s.sink.diagnostics <+: t.sink.diagnostics

namespace Grows

theorem refl (s : State) : Grows s s := ⟨List.prefix_rfl, List.prefix_rfl⟩

theorem trans (h : Grows s t) (h' : Grows t u) : Grows s u :=
  ⟨h.lines.trans h'.lines, h.diagnostics.trans h'.diagnostics⟩

theorem lines_eq (h : Grows s t) : t.lines = s.lines ++ linesSince s t :=
  (List.prefix_iff_eq_append.mp h.lines).symm

theorem linesSince_append (h : Grows s t) (h' : Grows t u) :
    linesSince s u = linesSince s t ++ linesSince t u := by
  have hu : u.lines = s.lines ++ (linesSince s t ++ linesSince t u) := by
    rw [← List.append_assoc, ← h.lines_eq, ← h'.lines_eq]
  exact List.append_cancel_left ((h.trans h').lines_eq.symm.trans hu)

theorem createdSince_append (h : Grows s t) (h' : Grows t u) :
    createdSince s u = createdSince s t ++ createdSince t u := by
  rw [createdSince, h.linesSince_append h', createdBy, List.filterMap_append]
  rfl

end Grows

@[simp] theorem linesSince_self (s : State) : linesSince s s = [] := List.drop_length

@[simp] theorem createdSince_self (s : State) : createdSince s s = [] := by
  rw [createdSince, linesSince_self]
  rfl

/-- Nothing was reported, and every object created is one of `G`. -/
structure Quiet (G : ObjectId → Prop) (s t : State) : Prop where
  diagnostics : t.sink.diagnostics = s.sink.diagnostics
  created : ∀ c ∈ createdSince s t, G c

/-- What happens in two turns is quiet only if both are. -/
theorem Quiet.split {G : ObjectId → Prop} (h : Quiet G s u) (hst : Grows s t)
    (htu : Grows t u) : Quiet G s t ∧ Quiet G t u := by
  have hle : t.sink.diagnostics <+: s.sink.diagnostics := h.diagnostics ▸ htu.diagnostics
  have heq : t.sink.diagnostics = s.sink.diagnostics :=
    hle.eq_of_length_le hst.diagnostics.length_le
  have hmem : ∀ c, c ∈ createdSince s t ∨ c ∈ createdSince t u → G c := fun c hc =>
    h.created c (by rw [hst.createdSince_append htu]; exact List.mem_append.mpr hc)
  exact ⟨⟨heq, fun c hc => hmem c (.inl hc)⟩,
    ⟨h.diagnostics.trans heq.symm, fun c hc => hmem c (.inr hc)⟩⟩

/-! ### Runs that report nothing -/

/-- Every run of `x` only adds, and one that succeeds quietly relates the states as stated. -/
def Emits (G : ObjectId → Prop) (x : Emit α) (P : State → α → State → Prop) : Prop :=
  ∀ s r t, x.run s = (r, t) → Grows s t ∧ ∀ a, r = .ok a → Quiet G s t → P s a t

namespace Emits

variable {G : ObjectId → Prop} {x : Emit α} {P P' : State → α → State → Prop}
  {Q : State → β → State → Prop}

theorem imp (h : Emits G x P) (himp : ∀ s a t, P s a t → P' s a t) : Emits G x P' :=
  fun s r t hrun =>
    ⟨(h s r t hrun).1, fun a ha hq => himp s a t ((h s r t hrun).2 a ha hq)⟩

theorem pure {a : α} (h : ∀ s, P s a s) : Emits G (Pure.pure a : Emit α) P := by
  intro s r t hrun
  cases hrun
  exact ⟨Grows.refl s, fun b hb _ => by cases hb; exact h s⟩

theorem throw {e : Fault} : Emits G (MonadExcept.throw e : Emit α) P := by
  intro s r t hrun
  cases hrun
  exact ⟨Grows.refl s, fun b hb _ => by cases hb⟩

/-- Two steps in turn: what is known after the first is at hand for the second. -/
theorem bind {f : α → Emit β} (hx : Emits G x P)
    (hf : ∀ a, Emits G (f a) fun t b u => ∀ s, P s a t → Q s b u) :
    Emits G (x >>= f) Q := by
  intro s r u hrun
  rw [run_bind] at hrun
  cases hxs : x.run s with
  | mk r' t =>
      obtain ⟨hst, hP⟩ := hx s r' t hxs
      rw [hxs] at hrun
      cases r' with
      | error e =>
          cases hrun
          exact ⟨hst, fun b hb _ => by cases hb⟩
      | ok a =>
          obtain ⟨htu, hQ⟩ := hf a t r u hrun
          refine ⟨hst.trans htu, fun b hb hq => ?_⟩
          -- Both parts only add, so the first was quiet too, and what it gives can be used.
          obtain ⟨hq₁, hq₂⟩ := hq.split hst htu
          exact hQ b hb hq₂ s (hP a rfl hq₁)

/-- A look-up before a step. -/
theorem liftBind {e : Except Fault α} {f : α → Emit β}
    (h : ∀ a, e = .ok a → Emits G (f a) Q) : Emits G (liftM e >>= f) Q := by
  intro s r t hrun
  rw [run_bind, run_lift] at hrun
  cases e with
  | error e =>
      cases hrun
      exact ⟨Grows.refl s, fun b hb _ => by cases hb⟩
  | ok a => exact h a rfl s r t hrun

theorem get : Emits G (MonadState.get : Emit State) fun s a t => a = s ∧ t = s := by
  intro s r t hrun
  cases hrun
  exact ⟨Grows.refl s, fun b hb _ => by cases hb; exact ⟨rfl, rfl⟩⟩

/-- Steps over a list of which nothing is to be known. -/
theorem forM {xs : List α} {f : α → Emit PUnit} (h : ∀ x, Emits G (f x) fun _ _ _ => True) :
    Emits G (xs.forM f) fun _ _ _ => True := by
  induction xs with
  | nil => exact Emits.pure fun _ => trivial
  | cons x xs ih => exact Emits.bind (h x) fun _ => ih.imp fun _ _ _ _ _ _ => trivial

/-- A run that reports something is not quiet. -/
theorem report {p : Problem} {P : State → Unit → State → Prop} : Emits G (report p) P := by
  intro s r t hrun
  cases hrun
  refine ⟨⟨List.prefix_rfl, List.prefix_append _ _⟩, fun b _ hq => ?_⟩
  have hlen := congrArg List.length hq.diagnostics
  simp [Sink.report] at hlen

end Emits

/-- The state with one more line. -/
def State.withLine (s : State) (l : Line) : State := { s with lines := s.lines ++ [l] }

theorem Grows.withLine (s : State) (l : Line) : Grows s (s.withLine l) :=
  ⟨List.prefix_append _ _, List.prefix_rfl⟩

@[simp] theorem linesSince_withLine (s : State) (l : Line) :
    linesSince s (s.withLine l) = [l] := List.drop_left

@[simp] theorem createdSince_withLine (s : State) (l : Line) :
    createdSince s (s.withLine l) = createdBy [l] := by
  rw [createdSince, linesSince_withLine]

theorem Emits.emit {G : ObjectId → Prop} (l : Line) :
    Emits G (emit l) fun s _ t => t = s.withLine l ∧ ∀ c ∈ createdBy [l], G c := by
  intro s r t hrun
  cases hrun
  refine ⟨Grows.withLine s l, fun _ _ hq => ⟨rfl, fun c hc => hq.created c ?_⟩⟩
  rwa [← createdSince_withLine s l] at hc

/-! ### Spelling -/

/-- A step is spelled by the declared name of its member. -/
def PathStep.Spelled (schema : Schema) : PathStep → Prop
  | .member field name => schema.fieldName field = .ok name
  | .element _ => True

/-- A place is spelled by what stands for its object and the names of its members. -/
structure Place.Spelled (schema : Schema) (root : String) (names : LocalNames) (p : Place) :
    Prop where
  holder : match p.holder with
    | some (.given _) => p.root = root
    | some (.created object) => ∃ name, names.find? object = some name ∧ p.root = name ++ "->"
    | none => False
  steps : ∀ step ∈ p.steps, step.Spelled schema

/-- A value is spelled by its literal, an object by its expression. -/
def Source.Spelled (cx : Context) (names : LocalNames) : Source → Prop
  | .literal t v text => (Literal.render cx t v).run = .ok (.ok text)
  | .object id text => names.find? id = some text
  | .structDefault t text => Literal.defaultText cx t = .ok text

/-- A line is spelled by the literals, the expressions of the objects and the names of the members
in it. -/
def Line.Spelled (cx : Context) (root : String) (names : LocalNames) : Line → Prop
  | .assign p source | .append p source =>
    p.Spelled cx.schema root names ∧ source.Spelled cx names
  | .clear p | .reserve p _ => p.Spelled cx.schema root names
  | .create c => names.find? c.object = some c.localName
  | .register object name _ => names.find? object = some name

/-- The objects at hand keep their expressions. -/
def Keeps (n n' : LocalNames) : Prop :=
  ∀ object name, n.find? object = some name → n'.find? object = some name

variable {schema : Schema} {n n' : LocalNames}

theorem Keeps.none {object : ObjectId} (h : Keeps n n') (hn : n'.find? object = none) :
    n.find? object = none := by
  cases hf : n.find? object with
  | none => rfl
  | some name => rw [h object name hf] at hn; cases hn

theorem Place.Spelled.mono {p : Place} (h : p.Spelled schema root n) (hn : Keeps n n') :
    p.Spelled schema root n' := by
  refine ⟨?_, h.steps⟩
  obtain ⟨holder, hroot, steps⟩ := p
  rcases holder with _ | object | object
  · exact h.holder
  · exact h.holder
  · obtain ⟨name, hname, heq⟩ := h.holder
    exact ⟨name, hn object name hname, heq⟩

theorem Source.Spelled.mono {source : Source} (h : source.Spelled cx n) (hn : Keeps n n') :
    source.Spelled cx n' := by
  cases source with
  | object id text => exact hn id text h
  | literal type v text => exact h
  | structDefault type text => exact h

theorem Line.Spelled.mono {l : Line} (h : l.Spelled cx root n) (hn : Keeps n n') :
    l.Spelled cx root n' := by
  cases l with
  | assign p source => exact ⟨h.1.mono hn, h.2.mono hn⟩
  | append p source => exact ⟨h.1.mono hn, h.2.mono hn⟩
  | clear p => exact Place.Spelled.mono h hn
  | reserve p count => exact Place.Spelled.mono h hn
  | create c => exact hn _ _ h
  | register object name afterCreate => exact hn _ _ h

theorem Place.Spelled.step {p : Place} (h : p.Spelled schema root n) {step : PathStep}
    (hstep : step.Spelled schema) :
    Place.Spelled schema root n { p with steps := p.steps ++ [step] } := by
  refine ⟨h.holder, fun step' hs => ?_⟩
  rcases List.mem_append.mp hs with hs | hs
  · exact h.steps step' hs
  · rw [List.mem_singleton.mp hs]
    exact hstep

theorem Place.Spelled.element {p : Place} (h : p.Spelled schema root n) (i : Nat) :
    (p.element i).Spelled schema root n :=
  h.step trivial

theorem Place.Spelled.member {p : Place} (h : p.Spelled schema root n) {field : FieldId}
    {name : String} (hname : schema.fieldName field = .ok name) :
    (p.member field name).Spelled schema root n :=
  h.step hname

/-- A place that is spelled belongs to no object that is not at hand. -/
theorem Place.Spelled.holder_ne {p : Place} (h : p.Spelled schema root n) {object : ObjectId}
    (hn : n.find? object = none) : p.holder ≠ some (.created object) := by
  intro heq
  have hholder := h.holder
  rw [heq] at hholder
  obtain ⟨name, hname, -⟩ := hholder
  rw [hn] at hname
  cases hname

/-! ### What the lines do -/

/-- Every field of an object has a value. -/
def HasValues (cx : Context) (object : ObjectId) : Prop :=
  ∃ fields, fieldsOf cx object = .ok fields ∧
    ∀ field ∈ fields, ∃ v, cx.fieldValue object field = .ok v

/-- What holds of the lines added from `s` to `t`, whatever they do: objects at hand stay so, those
created were not at hand, and the lines are spelled right. -/
structure Adds (cx : Context) (root : String) (s t : State) : Prop where
  grows : Grows s t
  keeps : Keeps s.names t.names
  fresh : ∀ c ∈ createdSince s t, s.names.find? c = none
  hasValues : ∀ c ∈ createdSince s t, HasValues cx c
  spelled : ∀ l ∈ linesSince s t, l.Spelled cx root t.names

theorem Adds.refl (s : State) : Adds cx root s s where
  grows := Grows.refl s
  keeps := fun _ _ h => h
  fresh := by simp
  hasValues := by simp
  spelled := by simp

theorem Adds.trans (h₁ : Adds cx root s t) (h₂ : Adds cx root t u) : Adds cx root s u where
  grows := h₁.grows.trans h₂.grows
  keeps := fun object name h => h₂.keeps object name (h₁.keeps object name h)
  fresh := by
    intro c hc
    rw [h₁.grows.createdSince_append h₂.grows] at hc
    rcases List.mem_append.mp hc with hc | hc
    · exact h₁.fresh c hc
    · exact h₁.keeps.none (h₂.fresh c hc)
  hasValues := by
    intro c hc
    rw [h₁.grows.createdSince_append h₂.grows] at hc
    rcases List.mem_append.mp hc with hc | hc
    · exact h₁.hasValues c hc
    · exact h₂.hasValues c hc
  spelled := by
    intro l hl
    rw [h₁.grows.linesSince_append h₂.grows] at hl
    rcases List.mem_append.mp hl with hl | hl
    · exact (h₁.spelled l hl).mono h₂.keeps
    · exact h₂.spelled l hl

/-- From `s` to `t`, the lines added change a store as stated and fill each created object with
the values of the live one. -/
structure Replays (cx : Context) (root : String) (s t : State) (R : Store → Store → Prop) : Prop
    extends Adds cx root s t where
  replay_eq : ∀ st st', R st st' →
    replay cx (linesSince s t) st = some (st'.settle cx (createdSince s t))

/-- The relation does not care what objects hold that are not at hand. -/
def Framed (cx : Context) (names : LocalNames) (R : Store → Store → Prop) : Prop :=
  ∀ objects : List ObjectId, (∀ c ∈ objects, names.find? c = none) →
    ∀ st st', R st st' → R (st.settle cx objects) (st'.settle cx objects)

/-- A change of a place of an object at hand. -/
theorem Framed.change {p : Place} (hp : p.Spelled schema root n) (f : Value → Option Value) :
    Framed cx n fun st st' => st.change schema p f = some st' :=
  fun _ hobjects _ _ h => Store.change_settle (fun c hc => hp.holder_ne (hobjects c hc)) h

namespace Replays

variable {R R' R₁ R₂ : Store → Store → Prop}

theorem imp (h : Replays cx root s t R) (himp : ∀ st st', R' st st' → R st st') :
    Replays cx root s t R' :=
  ⟨h.toAdds, fun st st' hR => h.replay_eq st st' (himp st st' hR)⟩

theorem refl (s : State) (hR : ∀ st st', R st st' → st' = st) : Replays cx root s s R := by
  refine ⟨Adds.refl s, fun st st' h => ?_⟩
  rw [hR st st' h, linesSince_self, createdSince_self, Store.settle_nil]
  rfl

theorem rfl {s : State} : Replays cx root s s Eq := refl s fun _ _ h => h.symm

/-- Two runs in turn.  The second changes objects at hand, so that it does not matter what the
first did to those that it created. -/
theorem trans (h₁ : Replays cx root s t R₁) (h₂ : Replays cx root t u R₂)
    (hframe : Framed cx s.names R₂) :
    Replays cx root s u fun st st' => ∃ mid, R₁ st mid ∧ R₂ mid st' := by
  refine ⟨h₁.toAdds.trans h₂.toAdds, ?_⟩
  rintro st st' ⟨mid, hmid, hst'⟩
  have hsettled := hframe (createdSince s t) h₁.fresh mid st' hst'
  rw [h₁.grows.linesSince_append h₂.grows, h₁.grows.createdSince_append h₂.grows,
    replay_append, h₁.replay_eq st mid hmid, Option.bind_some, h₂.replay_eq _ _ hsettled,
    Store.settle_settle]

/-- One more line, which creates nothing. -/
theorem line {l : Line} (hl : l.Spelled cx root s.names) (hnew : createdBy [l] = [])
    (h : ∀ st st', R st st' → l.apply cx st = some st') : Replays cx root s (s.withLine l) R where
  grows := Grows.withLine s l
  keeps := fun _ _ h => h
  fresh := by simp [hnew]
  hasValues := by simp [hnew]
  spelled := by
    intro l' hl'
    rw [linesSince_withLine] at hl'
    cases List.mem_singleton.mp hl'
    exact hl
  replay_eq := by
    intro st st' hR
    rw [linesSince_withLine, createdSince_withLine, hnew, replay_singleton, h st st' hR,
      Store.settle_nil]

end Replays

/-! ### Written values -/

/-- From `s` to `t`, the lines added turn the value `b` of a place into `v`. -/
def Writes (cx : Context) (root : String) (s t : State) (p : Place) (b v : Value) : Prop :=
  ∃ f : Value → Option Value, f b = some v ∧
    Replays cx root s t fun st st' => st.change cx.schema p f = some st'

namespace Writes

variable {p : Place} {b v w : Value}

theorem keeps (h : Writes cx root s t p b v) : Keeps s.names t.names := by
  obtain ⟨f, -, h⟩ := h
  exact h.keeps

theorem refl (s : State) (p : Place) (b : Value) : Writes cx root s s p b b :=
  ⟨some, rfl, Replays.refl s fun _ _ h =>
    Store.change_keeps (fun _ _ hxy => (Option.some.inj hxy).symm) h⟩

theorem trans (h₁ : Writes cx root s t p b v) (h₂ : Writes cx root t u p v w)
    (hp : p.Spelled cx.schema root s.names) : Writes cx root s u p b w := by
  obtain ⟨f, hf, h₁⟩ := h₁
  obtain ⟨g, hg, h₂⟩ := h₂
  refine ⟨fun x => (f x).bind g, by simp only [hf, Option.bind_some, hg], ?_⟩
  refine (h₁.trans h₂ (Framed.change hp g)).imp fun st st' h => ?_
  rw [← Store.change_bind] at h
  exact Option.bind_eq_some_iff.mp h

/-- Lines that change nothing at hand may come first. -/
theorem after (h₁ : Replays cx root s t Eq) (h₂ : Writes cx root t u p b v)
    (hp : p.Spelled cx.schema root s.names) : Writes cx root s u p b v := by
  obtain ⟨f, hf, h₂⟩ := h₂
  exact ⟨f, hf, (h₁.trans h₂ (Framed.change hp f)).imp fun st st' h => ⟨st, rfl, h⟩⟩

/-- A line that changes a place. -/
theorem line {l : Line} {f : Value → Option Value} (hl : l.Spelled cx root s.names)
    (hnew : createdBy [l] = []) (happly : ∀ st, l.apply cx st = st.change cx.schema p f)
    (hf : f b = some v) : Writes cx root s (s.withLine l) p b v :=
  ⟨f, hf, Replays.line hl hnew fun st _ h => (happly st).trans h⟩

/-- A change of a part changes the whole. -/
theorem step {step : PathStep} {b' v' : Value} (hp : p.steps ≠ [])
    (hpart : ∀ f, f b = some v → change cx.schema [step] f b' = some v')
    (h : Writes cx root s t { p with steps := p.steps ++ [step] } b v) :
    Writes cx root s t p b' v' := by
  obtain ⟨f, hf, h⟩ := h
  exact ⟨change cx.schema [step] f, hpart f hf,
    h.imp fun st st' hst => (Store.change_step hp step f).trans hst⟩

/-- A change of an item of an array changes the array. -/
theorem element {pre post : List Value} {i : Nat} (hi : pre.length = i) (hp : p.steps ≠ [])
    (h : Writes cx root s t (p.element i) b v) :
    Writes cx root s t p (.array (pre ++ b :: post)) (.array (pre ++ v :: post)) := by
  refine step hp (fun f hf => ?_) h
  simp only [change, changeAt_append hi, hf, Option.map_some]

/-- A change of a member of a struct changes the struct. -/
theorem member {type : TypeId} {field : FieldId} {name : String} {pre post : List Value}
    (hslot : slot? cx.schema type field = some pre.length) (hp : p.steps ≠ [])
    (h : Writes cx root s t (p.member field name) b v) :
    Writes cx root s t p (.struct type (pre ++ b :: post)) (.struct type (pre ++ v :: post)) := by
  refine step hp (fun f hf => ?_) h
  simp only [change, hslot, changeAt_append rfl, hf, Option.map_some, Option.bind_some]

end Writes
end GraphLowering.Defaults
