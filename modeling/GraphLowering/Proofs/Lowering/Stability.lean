import GraphLowering.Proofs.Dispatch.Numbering
import GraphLowering.Proofs.Lowering.Renderings
import GraphLowering.Proofs.Lowering.Statements

/-!
# Lowering — expressions are settled

Of the state, the text of an expression depends only on the numbers of the labels that its calls
resume at.  A label has its number from its first mention on, so an expression that has been
rendered once is settled: rendered again at any later time, it has the same text.

* `State.resumeMap`: the numbering that calls resume in.
* `Settles x a t`: from `t` on, `x` gives `a`.
* `rendererFrom_stable`: what renders a term settles it.
* `resumeMap_closed`: no step of lowering takes a number back.
-/

namespace GraphLowering.Lowering

variable {α β : Type} {env : Env} {r r' : Renderer} {s t u : State}

/-! ### The numbering that calls resume in -/

/-- The numbering of the event graph; the function's own when it is the event graph itself. -/
def State.resumeMap (s : State) : StateMap := s.resumeStates.getD s.states

theorem run_resumeState (label : StmtId) (s : State) :
    ∃ t, (resumeState label).run s = (.ok (s.resumeMap.stateOf label).1, t) ∧
      t.resumeMap = (s.resumeMap.stateOf label).2 := by
  cases h : s.resumeStates with
  | none =>
      have hmap : s.resumeMap = s.states := by rw [State.resumeMap, h]; rfl
      rw [run_resumeState_none h, run_localState, hmap]
      exact ⟨_, rfl, by rw [State.resumeMap, h]; rfl⟩
  | some m =>
      have hmap : s.resumeMap = m := by rw [State.resumeMap, h]; rfl
      rw [run_resumeState_some h, hmap]
      exact ⟨_, rfl, rfl⟩

theorem resumeMap_le_localState (target : StmtId) (s : State) :
    s.resumeMap ≤ ((localState target).run s).2.resumeMap := by
  rw [run_localState]
  cases h : s.resumeStates with
  | none =>
      simp only [State.resumeMap, h, Option.getD_none]
      exact StateMap.le_stateOf _ _
  | some m => simp only [State.resumeMap, h, Option.getD_some, le_refl]

theorem resumeMap_le_resumeState (label : StmtId) (s : State) :
    s.resumeMap ≤ ((resumeState label).run s).2.resumeMap := by
  obtain ⟨t, hrun, hmap⟩ := run_resumeState label s
  rw [hrun, hmap]
  exact StateMap.le_stateOf _ _

/-- No step of lowering takes a number back. -/
theorem resumeMap_closed (s : State) (env : Env) :
    Closed (fun u v => u = v ∧ s.resumeMap ≤ u.resumeMap) env where
  report _ := .of_keeps fun _ h => h
  atStatement _ := .of_keeps fun _ h => h
  localState target := .of_keeps fun u h => le_trans h (resumeMap_le_localState target u)
  recordInline _ := .of_keeps fun _ h => h
  callArguments hr hs hf := callArguments_respects (fun _ _ => .of_keeps fun _ h => h)
    (fun _ => .of_keeps fun _ h => h) hr hs.operands
    (fun label _ => .of_keeps fun u h => le_trans h (resumeMap_le_resumeState label u)) hf

/-! ### Settled steps -/

/-- From `t` on, `x` gives `a` and gives out no more numbers. -/
def Settles (x : Lower α) (a : α) (t : State) : Prop :=
  ∀ u, t.resumeMap ≤ u.resumeMap → ∃ v, x.run u = (.ok a, v) ∧ v.resumeMap = u.resumeMap

theorem Settles.mono {x : Lower α} {a : α} (h : Settles x a t) (htu : t.resumeMap ≤ u.resumeMap) :
    Settles x a u :=
  fun v huv => h v (le_trans htu huv)

theorem Settles.result {x : Lower α} {a : α} (h : Settles x a t) : (x.run t).1 = .ok a := by
  obtain ⟨v, hrun, -⟩ := h t (le_refl _)
  rw [hrun]

/-- A run of `x` that succeeds settles it. -/
def Stable (x : Lower α) : Prop :=
  ∀ ⦃s a t⦄, x.run s = (.ok a, t) → s.resumeMap ≤ t.resumeMap ∧ Settles x a t

namespace Stable

variable {x : Lower α} {f : α → Lower β}

theorem quiet (h : Quiet x) : Stable x := by
  obtain ⟨result, hx⟩ := h
  intro s a t hrun
  obtain ⟨sink, hs⟩ := hx s
  rw [hs] at hrun
  cases hrun
  refine ⟨le_refl _, fun u _ => ?_⟩
  obtain ⟨sink', hu⟩ := hx u
  exact ⟨_, hu, rfl⟩

theorem throw (e : Fault) : Stable (MonadExcept.throw e : Lower α) := by
  intro s a t hrun
  cases hrun

theorem recordCall (c : LoweredCall) : Stable (recordCall c) := by
  intro s a t hrun
  cases hrun
  exact ⟨le_refl _, fun u _ => ⟨_, rfl, rfl⟩⟩

theorem recordInline (id : StmtId) : Stable (recordInline id) := by
  intro s a t hrun
  cases hrun
  exact ⟨le_refl _, fun u _ => ⟨_, rfl, rfl⟩⟩

theorem resumeState (label : StmtId) : Stable (resumeState label) := by
  intro s n t hrun
  obtain ⟨t', hrun', hmap⟩ := run_resumeState label s
  rw [hrun'] at hrun
  cases hrun
  rw [Settles, hmap]
  refine ⟨StateMap.le_stateOf _ _, fun u hu => ?_⟩
  -- The label has its number by now, and keeps it.
  have hget := StateMap.get?_of_le hu (StateMap.get?_stateOf s.resumeMap label)
  obtain ⟨v, hv, hvmap⟩ := run_resumeState label u
  rw [StateMap.stateOf_of_get? hget] at hv hvmap
  exact ⟨v, hv, hvmap⟩

theorem lookUp {e : Except Fault α} (hf : ∀ a, Stable (f a)) :
    Stable ((liftM e : Lower α) >>= f) := by
  intro s b t hrun
  obtain ⟨a, rfl, hrun⟩ := run_liftBind_ok hrun
  exact hf a hrun

theorem bind (hx : Stable x) (hf : ∀ a, Stable (f a)) : Stable (x >>= f) := by
  intro s b t hrun
  obtain ⟨a, u, hxs, hfs⟩ := run_bind_ok hrun
  obtain ⟨hsu, hxa⟩ := hx hxs
  obtain ⟨hut, hfb⟩ := hf a hfs
  refine ⟨le_trans hsu hut, fun v hv => ?_⟩
  obtain ⟨w, hw, hwmap⟩ := hxa v (le_trans hut hv)
  obtain ⟨w', hw', hwmap'⟩ := hfb w (hwmap ▸ hv)
  refine ⟨w', ?_, hwmap'.trans hwmap⟩
  rw [run_bind, hw]
  exact hw'

end Stable

/-! ### Expressions -/

theorem Parallel.stable_left {x y : Lower α} (h : Parallel r r' x y)
    (hr : ∀ t, Stable (r.guarded t) ∧ Stable (r.bare t)) : Stable x := by
  induction h with
  | quiet hx _ => exact .quiet hx
  | guarded t => exact (hr t).1
  | bare t => exact (hr t).2
  | resume label => exact .resumeState label
  | call c _ => exact .recordCall c
  | lookUp _ ih => exact .lookUp ih
  | bind _ _ ih ihf => exact .bind ih fun a => ihf a a

/-- What is put together from stable renderings is stable. -/
theorem Parallel.stable {x : Lower α} (h : Parallel r r x x)
    (hr : ∀ t, Stable (r.guarded t) ∧ Stable (r.bare t)) : Stable x :=
  h.stable_left hr

theorem termText_stable (hr : ∀ t, Stable (r.guarded t) ∧ Stable (r.bare t)) (checked : Bool)
    (t : TermId) : Stable (termText env r checked t) := by
  refine .lookUp fun term => ?_
  split
  · exact .quiet (.pure _)
  · exact .quiet (literalText_quiet _ _)
  · exact .lookUp fun stmt => .bind (.recordInline _) fun _ => (valueText_parallel stmt).stable hr
  · exact (referenceText_parallel checked term _).stable hr

theorem rendererFrom_stable (env : Env) (n : Nat) (t : TermId) :
    Stable ((rendererFrom env n).guarded t) ∧ Stable ((rendererFrom env n).bare t) := by
  induction n generalizing t with
  | zero => exact ⟨.throw _, .throw _⟩
  | succ n ih => exact ⟨termText_stable ih true t, termText_stable ih false t⟩

theorem path_stable (env : Env) (t : TermId) : Stable (env.path t) :=
  (rendererFrom_stable env _ t).2

theorem guardChecks_stable (env : Env) (start : Option TermId) :
    Stable (guardChecks env env.renderer start) :=
  (guardChecks_parallel start).stable (rendererFrom_stable env _)

end GraphLowering.Lowering
