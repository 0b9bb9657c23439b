import GraphLowering.Defaults.StructFactory
import GraphLowering.Proofs.Defaults.Constructors
import GraphLowering.Proofs.Sinks

/-!
# Defaults — what emission reports

Emission reports where the sink stands and never moves it, and nothing that it reports is fatal.

* `Trace.gains`: this along a trace.
* `constructorCode_gains`, `structFactoryCode_gains`: for a whole constructor and for the function
  that gives the default of a struct.
-/

namespace GraphLowering.Defaults

variable {α β : Type} {cx : Context} {K : ObjectId → Prop} {base : Place} {s t : State}

/-- What a trace reports is placed where the sink stands, and not fatal. -/
theorem Trace.gains (h : Trace cx K base s t) : ∃ ds, s.sink.Gains t.sink [] ds := by
  induction h with
  | refl => exact ⟨[], .refl _⟩
  | report p hp => exact ⟨_, .report _ hp⟩
  | store _ => exact ⟨[], .refl _⟩
  | create _ _ _ _ ih => rwa [sink_withCreation] at ih
  | trans _ _ ih ih' =>
      obtain ⟨ds, hds⟩ := ih
      obtain ⟨es, hes⟩ := ih'
      exact ⟨ds ++ es, hds.trans hes⟩

/-! ### Steps -/

/-- A run of `x` that succeeds reports where the sink stands, and nothing fatal. -/
def ReportsMildly (x : Emit α) : Prop :=
  ∀ ⦃s a t⦄, x.run s = (.ok a, t) → ∃ ds, s.sink.Gains t.sink [] ds

namespace ReportsMildly

theorem pure (a : α) : ReportsMildly (Pure.pure a : Emit α) := by
  intro s b t h
  cases h
  exact ⟨[], .refl _⟩

theorem bind {x : Emit α} {f : α → Emit β} (hx : ReportsMildly x)
    (hf : ∀ a, ReportsMildly (f a)) : ReportsMildly (x >>= f) := by
  intro s b u h
  obtain ⟨a, t, hxs, hfs⟩ := run_bind_ok h
  obtain ⟨ds, hds⟩ := hx hxs
  obtain ⟨es, hes⟩ := hf a hfs
  exact ⟨ds ++ es, hds.trans hes⟩

theorem liftBind {e : Except Fault α} {f : α → Emit β} (hf : ∀ a, ReportsMildly (f a)) :
    ReportsMildly (liftM e >>= f) := by
  intro s b t h
  obtain ⟨a, -, hfs⟩ := run_liftBind_ok h
  exact hf a hfs

/-- A step that does not touch the sink. -/
theorem of_sink {x : Emit α} (hx : ∀ s, (x.run s).2.sink = s.sink) : ReportsMildly x := by
  intro s a t h
  have hsink := hx s
  rw [h] at hsink
  exact ⟨[], hsink ▸ .refl _⟩

theorem forM {xs : List α} {f : α → Emit PUnit} (hf : ∀ x ∈ xs, ReportsMildly (f x)) :
    ReportsMildly (xs.forM f) := by
  induction xs with
  | nil => exact .pure _
  | cons x xs ih =>
      exact .bind (hf x List.mem_cons_self) fun _ => ih fun y hy => hf y (List.mem_cons_of_mem _ hy)

end ReportsMildly

theorem discard_emitSubobject_reports (o : ObjectId) :
    ReportsMildly (discard (emitSubobject cx o)) := by
  intro s unused t h
  obtain ⟨record, -, ⟨-, rfl⟩ | ⟨owner, c, -, -, htrace⟩⟩ := discard_emitSubobject_run h
  · exact ⟨[], .refl _⟩
  · have hgains := htrace.gains
    rwa [sink_withCreation] at hgains

theorem collectLines_reports {step : Emit Unit} (hstep : ReportsMildly step) :
    ReportsMildly (collectLines step) := by
  intro s ls t h
  obtain ⟨ds, hds⟩ := hstep (collectLines_run h).1
  exact ⟨ds, hds⟩

/-! ### Constructors and struct factories -/

theorem emitConstructor_reports : ReportsMildly (emitConstructor cx) := by
  unfold emitConstructor
  refine .liftBind fun unit => .liftBind fun cls => .liftBind fun parent =>
    .bind (.of_sink fun _ => rfl) fun _ =>
    .bind (collectLines_reports (.forM fun o _ => discard_emitSubobject_reports o)) fun stored =>
    .bind (.of_sink fun _ => rfl) fun s => .liftBind fun rebindings => ?_
  split
  · have hvalues : ∀ o, ReportsMildly (emitInstanceValues cx o parent) := fun o s _ t h =>
      (emitInstanceValues_trace (K := fun _ => True) (fun _ _ => trivial) h).gains
    exact .bind (.bind (collectLines_reports (hvalues _)) fun _ => .pure _) fun _ => .pure _
  · exact .bind (.pure _) fun _ => .pure _

/-- What a constructor reports is placed where the sink stands, and not fatal. -/
theorem constructorCode_gains {sink sink' : Sink} {code : List Code}
    (h : constructorCode cx sink = .ok (code, sink')) : ∃ ds, sink.Gains sink' [] ds := by
  unfold constructorCode at h
  cases hrun : (emitConstructor cx).run { sink } with
  | mk result s =>
      rw [hrun] at h
      cases result with
      | error fault => cases h
      | ok c =>
          cases h
          exact emitConstructor_reports hrun

/-- What the function for the default of a struct reports is placed where the sink stands, and not
fatal. -/
theorem structFactoryCode_gains {type : TypeId} {sink sink' : Sink} {code : List Code}
    (h : structFactoryCode cx type sink = .ok (code, sink')) : ∃ ds, sink.Gains sink' [] ds := by
  obtain ⟨name, -, h⟩ := Lookup.of_bind_ok h
  obtain ⟨defaults, -, h⟩ := Lookup.of_bind_ok h
  obtain ⟨fields, -, h⟩ := Lookup.of_bind_ok h
  have hmembers : ReportsMildly (emitDefaultMembers cx ⟨none, "DefaultData__.", []⟩
      (fields.zip defaults.members)) := .forM fun m _ s _ t hm =>
    (emitField_traced emitSubobject_recreates.spawns false m.1 m.2 none _ (fun _ ho => ho)
      ⟨rfl, rfl⟩ s _ t trivial hm).1.gains
  dsimp only at h
  split at h
  · cases h
  · rename_i s hrun
    cases h
    exact hmembers hrun

end GraphLowering.Defaults
