import GraphLowering.Defaults.Constructor
import GraphLowering.Proofs.Defaults.LocalNames
import GraphLowering.Proofs.Defaults.Objects
import Mathlib.Logic.Relation

/-!
# Defaults — the moves of emission

Whatever values are emitted, emission does three things only: it reports a problem, it stores a
value in an object at hand, and it creates an object that is not at hand under an owner that is.

* `Move`, `Moves`: one such thing, and a row of them.  Some listed objects may also be created when
  they are at hand; where values are emitted there are none of these.
* `Moves.rebase`: moves below an object that was created are moves below any root.
* `Moves.keeps`: an object at hand keeps its expression.
-/

namespace GraphLowering.Defaults

variable {cx : Context} {root : String} {again : List ObjectId} {s t : State}

/-! ### Moves -/

/-- The place lies below the given root, or below an object that was created. -/
def State.HasRoot (s : State) (root : String) (p : Place) : Prop :=
  p.root = root ∨ ∃ c, Line.create c ∈ s.lines ∧ p.root = c.localName ++ "->"

/-- A line that stores a value, spelled by what is at hand. -/
inductive Stores (cx : Context) (root : String) (s : State) : Line → Prop
  | assign {p : Place} {source : Source} (hp : s.HasRoot root p)
      (hs : source.Spelled cx s.names) : Stores cx root s (.assign p source)
  | clear {p : Place} (hp : s.HasRoot root p) : Stores cx root s (.clear p)
  | reserve {p : Place} {count : Nat} (hp : s.HasRoot root p) :
      Stores cx root s (.reserve p count)
  | append {p : Place} {source : Source} (hp : s.HasRoot root p)
      (hs : source.Spelled cx s.names) : Stores cx root s (.append p source)

/-- The creation of an object under an owner at hand, with the next free local. -/
structure Creation.Under (cx : Context) (n : LocalNames) (owner : LocalNames.Owner)
    (c : Creation) : Prop where
  record : ∃ o, cx.objects.object c.object = .ok o ∧ n.owner? o.outer = some owner ∧
    archetypeFor cx n o = .ok c.archetype ∧ cx.schema.cppName o.cls = .ok c.cls ∧ c.name = o.name
  localName : c.localName = n.fresh
  outer : c.outer = owner.expression

/-- The state after a creation, and after the statement that registers the object if there is
one. -/
def State.withCreation (s : State) (c : Creation) (afterCreate : Option String) : State :=
  let created := (s.withObject c.object c.archetype).withLine (.create c)
  match afterCreate with
  | some text => (created.withLine (.register c.object c.localName text)).withRegistered c.object
  | none => created

/-- One thing that emission does. -/
inductive Move (cx : Context) (root : String) (again : List ObjectId) (s : State) : State → Prop
  | report (p : Problem) : Move cx root again s { s with sink := s.sink.report p }
  | store {l : Line} (h : Stores cx root s l) : Move cx root again s (s.withLine l)
  | create {c : Creation} {owner : LocalNames.Owner} (h : c.Under cx s.names owner)
      (hnew : s.names.find? c.object = none ∨ c.object ∈ again) :
      Move cx root again s (s.withCreation c owner.afterCreate)

/-- What emission does, one thing after another. -/
abbrev Moves (cx : Context) (root : String) (again : List ObjectId) : State → State → Prop :=
  Relation.ReflTransGen (Move cx root again)

/-! ### Creations -/

section

variable (s : State) (c : Creation) (afterCreate : Option String)

theorem names_withCreation : (s.withCreation c afterCreate).names =
    let names := (s.names.addNew c.object c.archetype).2
    if afterCreate.isSome then names.register c.object else names := by
  cases afterCreate <;> rfl

theorem lines_withCreation : (s.withCreation c afterCreate).lines =
    s.lines ++ .create c ::
      afterCreate.toList.map (.register c.object c.localName) := by
  cases afterCreate <;> simp [State.withCreation, State.withLine, State.withObject,
    State.withRegistered]

@[simp] theorem sink_withCreation : (s.withCreation c afterCreate).sink = s.sink := by
  cases afterCreate <;> rfl

@[simp] theorem generated_withCreation :
    (s.withCreation c afterCreate).names.generated = s.names.generated := by
  cases afterCreate <;> rfl

theorem registered_withCreation : (s.withCreation c afterCreate).names.registered =
    s.names.registered ++ (afterCreate.toList.map fun _ => c.object) := by
  cases afterCreate <;> simp [names_withCreation]

theorem taken_withCreation :
    (s.withCreation c afterCreate).names.taken = s.names.fresh :: s.names.taken := by
  cases afterCreate <;> rfl

theorem created_withCreation :
    (s.withCreation c afterCreate).names.created = s.names.created ++ [c.object] := by
  cases afterCreate <;> rfl

theorem find?_withCreation (o : ObjectId) : (s.withCreation c afterCreate).names.find? o =
    if o = c.object then some s.names.fresh else s.names.find? o := by
  cases afterCreate <;> simp [names_withCreation, LocalNames.find?_addNew]

end

theorem Grows.withCreation (s : State) (c : Creation) (afterCreate : Option String) :
    Grows s (s.withCreation c afterCreate) := by
  refine ⟨?_, by simp [sink_withCreation]⟩
  rw [lines_withCreation]
  exact List.prefix_append _ _

theorem Move.grows (h : Move cx root again s t) : Grows s t := by
  cases h with
  | report p => exact ⟨List.prefix_rfl, List.prefix_append _ _⟩
  | store _ => exact Grows.withLine s _
  | create _ _ => exact Grows.withCreation s _ _

theorem Moves.grows (h : Moves cx root again s t) : Grows s t := by
  induction h with
  | refl => exact Grows.refl s
  | tail _ hmove ih => exact ih.trans hmove.grows

/-! ### Roots -/

theorem State.HasRoot.rebase {p : Place} {c : Creation} (hc : Line.create c ∈ s.lines)
    (h : s.HasRoot (c.localName ++ "->") p) : s.HasRoot root p := by
  rcases h with h | h
  · exact .inr ⟨c, hc, h⟩
  · exact .inr h

theorem Move.rebase {c : Creation} (hc : Line.create c ∈ s.lines)
    (h : Move cx (c.localName ++ "->") again s t) : Move cx root again s t := by
  cases h with
  | report p => exact .report p
  | store h =>
      refine .store ?_
      cases h with
      | assign hp hs => exact .assign (hp.rebase hc) hs
      | clear hp => exact .clear (hp.rebase hc)
      | reserve hp => exact .reserve (hp.rebase hc)
      | append hp hs => exact .append (hp.rebase hc) hs
  | create h hnew => exact .create h hnew

/-- Moves below an object that was created are moves below any root. -/
theorem Moves.rebase {c : Creation} (hc : Line.create c ∈ s.lines)
    (h : Moves cx (c.localName ++ "->") again s t) : Moves cx root again s t := by
  induction h with
  | refl => exact .refl
  | tail hmoves hmove ih =>
      exact ih.tail (hmove.rebase (Moves.grows hmoves |>.lines.subset hc))

/-! ### Names -/

/-- An object at hand keeps its expression, for only objects that are not at hand are created. -/
theorem Moves.keeps (h : Moves cx root [] s t) : Keeps s.names t.names := by
  induction h with
  | refl => exact fun _ _ h => h
  | tail _ hmove ih =>
      intro object name hname
      have hname := ih object name hname
      cases hmove with
      | report p => exact hname
      | store _ => exact hname
      | @create c owner _ hnew =>
          have hnew := hnew.resolve_right List.not_mem_nil
          have hne : object ≠ c.object := fun heq => by rw [heq, hnew] at hname; cases hname
          rwa [find?_withCreation, if_neg hne]

theorem mem_lines_withCreation (s : State) (c : Creation) (afterCreate : Option String) :
    Line.create c ∈ (s.withCreation c afterCreate).lines := by
  simp [lines_withCreation]

end GraphLowering.Defaults
