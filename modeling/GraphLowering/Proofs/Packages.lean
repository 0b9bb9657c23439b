import GraphLowering.Package
import GraphLowering.Proofs.Lookup
import GraphLowering.World
import Mathlib

/-!
# Packages — units compiled one by one

A run over a package adds nothing to its units and takes nothing from them: it hands on what each of
them gives by itself, up to the first one at which the options ask it to stop.

* `Package.emitAlone`: what a unit gives by itself, with an empty sink.
* `FailsAt`: the run stops at a result, and why.
* `Package.compile_by_units`: a run gives the results of the units, or the failure of the first
  result at which it stops; and a unit compiled by its name is the one that the run has under it.
-/

namespace GraphLowering

/-- The failure that stops a run at result number `i`, with `errors` errors before the first result.
A fatal diagnostic counts before the limit does. -/
inductive FailsAt (options : CompileOptions) (errors : Nat) (rs : List CompiledUnit) (i : Nat) :
    CompileError → Prop
  | fatal {r : CompiledUnit} {d : Diagnostic} (hr : rs[i]? = some r)
      (hasked : options.failOnFatal = true) (hd : r.diagnostics.find? (·.isFatal) = some d) :
      FailsAt options errors rs i (.fatal r.output.name d.message)
  | limit {r : CompiledUnit} {limit total : Nat} (hr : rs[i]? = some r)
      (hfatal : options.failOnFatal = true → r.hasFatal = false)
      (hlimit : options.errorLimit = some limit)
      (htotal : total = errors + ((rs.take (i + 1)).map (·.errorCount)).sum)
      (hmore : limit < total) : FailsAt options errors rs i (.errorLimitReached limit total)

/-- The failure of the first result at which a run stops. -/
def FailsFirst (options : CompileOptions) (errors : Nat) (rs : List CompiledUnit)
    (e : CompileError) : Prop :=
  ∃ i, FailsAt options errors rs i e ∧ ∀ j < i, ∀ e', ¬ FailsAt options errors rs j e'

/-- The results pass: they have no more errors than the limit allows, and no fatal diagnostic if
that is asked for. -/
structure Passes (options : CompileOptions) (errors : Nat) (rs : List CompiledUnit) : Prop where
  limit : ∀ limit, options.errorLimit = some limit →
    errors + (rs.map (·.errorCount)).sum ≤ limit
  fatal : options.failOnFatal = true → ∀ r ∈ rs, r.hasFatal = false

variable {options : CompileOptions} {errors i : Nat} {r : CompiledUnit} {rs : List CompiledUnit}
  {e : CompileError}

/-! ### Results in turn -/

theorem CompiledUnit.hasFatal_eq_false_iff :
    r.hasFatal = false ↔ r.diagnostics.find? (·.isFatal) = none := by
  simp [CompiledUnit.hasFatal]

/-- Behind the first result, its errors are some of those before. -/
theorem failsAt_cons : FailsAt options errors (r :: rs) (i + 1) e ↔
    FailsAt options (errors + r.errorCount) rs i e := by
  constructor
  · intro h
    cases h with
    | fatal hr hasked hd => exact .fatal hr hasked hd
    | limit hr hfatal hlimit htotal hmore =>
        refine .limit hr hfatal hlimit ?_ hmore
        rw [htotal, List.take_succ_cons, List.map_cons, List.sum_cons, Nat.add_assoc]
  · intro h
    cases h with
    | fatal hr hasked hd => exact .fatal hr hasked hd
    | limit hr hfatal hlimit htotal hmore =>
        refine .limit hr hfatal hlimit ?_ hmore
        rw [htotal, List.take_succ_cons, List.map_cons, List.sum_cons, Nat.add_assoc]

theorem not_failsAt_nil : ¬ FailsAt options errors [] i e := by
  intro h
  cases h with
  | fatal hr _ _ => cases hr
  | limit hr _ _ _ _ => cases hr

/-- A run that stops, stops at the first result or goes on and stops behind it. -/
theorem failsFirst_cons : FailsFirst options errors (r :: rs) e ↔
    FailsAt options errors (r :: rs) 0 e ∨
      (∀ e', ¬ FailsAt options errors (r :: rs) 0 e') ∧
        FailsFirst options (errors + r.errorCount) rs e := by
  constructor
  · rintro ⟨i, hi, hbefore⟩
    cases i with
    | zero => exact .inl hi
    | succ i =>
        refine .inr ⟨hbefore 0 (Nat.succ_pos i), i, failsAt_cons.mp hi, fun j hj e' he' => ?_⟩
        exact hbefore (j + 1) (Nat.succ_lt_succ hj) e' (failsAt_cons.mpr he')
  · rintro (hfirst | ⟨hpass, i, hi, hbefore⟩)
    · exact ⟨0, hfirst, fun j hj => absurd hj (Nat.not_lt_zero j)⟩
    · refine ⟨i + 1, failsAt_cons.mpr hi, fun j hj e' he' => ?_⟩
      cases j with
      | zero => exact hpass e' he'
      | succ j => exact hbefore j (Nat.lt_of_succ_lt_succ hj) e' (failsAt_cons.mp he')

theorem passes_cons : Passes options errors (r :: rs) ↔
    (options.failOnFatal = true → r.hasFatal = false) ∧
      Passes options (errors + r.errorCount) rs := by
  constructor
  · intro h
    refine ⟨fun hask => h.fatal hask r List.mem_cons_self, fun limit hlimit => ?_, ?_⟩
    · have hle := h.limit limit hlimit
      rwa [List.map_cons, List.sum_cons, ← Nat.add_assoc] at hle
    · exact fun hask r' hr' => h.fatal hask r' (List.mem_cons_of_mem _ hr')
  · rintro ⟨hfirst, h⟩
    refine ⟨fun limit hlimit => ?_, fun hask r' hr' => ?_⟩
    · rw [List.map_cons, List.sum_cons, ← Nat.add_assoc]
      exact h.limit limit hlimit
    · rcases List.mem_cons.mp hr' with rfl | hr'
      · exact hfirst hask
      · exact h.fatal hask r' hr'

/-- A run that does not stop at a result finds no fatal diagnostic there, if it looks for one. -/
theorem hasFatal_of_passes (h : ∀ e, ¬ FailsAt options errors (r :: rs) 0 e)
    (hasked : options.failOnFatal = true) : r.hasFatal = false := by
  cases hd : r.diagnostics.find? (·.isFatal) with
  | none => exact CompiledUnit.hasFatal_eq_false_iff.mpr hd
  | some d => exact absurd (.fatal rfl hasked hd) (h _)

theorem errors_le_of_passes (h : ∀ e, ¬ FailsAt options errors (r :: rs) 0 e) {limit : Nat}
    (hlimit : options.errorLimit = some limit) : errors + r.errorCount ≤ limit := by
  refine Nat.le_of_not_lt fun hmore => h _ (.limit rfl (hasFatal_of_passes h) hlimit rfl ?_)
  simpa using hmore

/-- Results that pass do not stop a run at the first of them. -/
theorem Passes.not_failsAt_zero (h : Passes options errors (r :: rs)) (e : CompileError) :
    ¬ FailsAt options errors (r :: rs) 0 e := by
  intro he
  cases he with
  | fatal hr hasked hd =>
      cases hr
      have hnone := CompiledUnit.hasFatal_eq_false_iff.mp (h.fatal hasked r List.mem_cons_self)
      rw [hnone] at hd
      cases hd
  | limit hr hfatal hlimit htotal hmore =>
      have hle := h.limit _ hlimit
      simp only [Nat.zero_add, List.take_succ_cons, List.take_zero, List.map_cons, List.map_nil,
        List.sum_cons, List.sum_nil] at htotal hle
      omega

/-- Results that are within the limit so far pass, or there is a first one at which a run stops. -/
theorem passes_or_failsFirst (rs : List CompiledUnit)
    (hstart : ∀ limit, options.errorLimit = some limit → errors ≤ limit) :
    Passes options errors rs ∨ ∃ e, FailsFirst options errors rs e := by
  induction rs generalizing errors with
  | nil => exact .inl ⟨hstart, fun _ _ hr => by cases hr⟩
  | cons r rs ih =>
      by_cases hfirst : ∃ e, FailsAt options errors (r :: rs) 0 e
      · obtain ⟨e, he⟩ := hfirst
        exact .inr ⟨e, failsFirst_cons.mpr (.inl he)⟩
      have hpass : ∀ e, ¬ FailsAt options errors (r :: rs) 0 e := not_exists.mp hfirst
      rcases ih (fun _ => errors_le_of_passes hpass) with hrest | ⟨e, he⟩
      · exact .inl (passes_cons.mpr ⟨hasFatal_of_passes hpass, hrest⟩)
      · exact .inr ⟨e, failsFirst_cons.mpr (.inr ⟨hpass, he⟩)⟩

namespace Package

variable {p : Package} {u : ScriptUnit} {units : List ScriptUnit}

/-! ### One unit -/

/-- What a unit gives by itself: its output, and what is reported to an empty sink. -/
def emitAlone (p : Package) (options : CompileOptions) (u : ScriptUnit) :
    Except Fault CompiledUnit := do
  let (source, sink) ← u.emit options.comments ⟨p.schema, p.objects, u.type⟩ {}
  return ⟨source.render options.indent, sink.diagnostics⟩

/-- The output of a unit bears the name of its type. -/
theorem typeName_of_emitAlone (h : p.emitAlone options u = .ok r) :
    p.schema.typeName u.type = .ok r.output.name := by
  obtain ⟨⟨source, sink⟩, hemit, h⟩ := Lookup.of_bind_ok h
  cases h
  obtain ⟨t, ht, hemit⟩ := Lookup.of_bind_ok hemit
  obtain ⟨deps, -, hemit⟩ := Lookup.of_bind_ok hemit
  obtain ⟨code, -, hemit⟩ := Lookup.of_bind_ok hemit
  cases hemit
  rw [Schema.typeName, ht]
  rfl

/-- A run gives what a unit gives by itself, unless it is to stop at a fatal diagnostic. -/
theorem compileScript_of_emitAlone (h : p.emitAlone options u = .ok r) :
    p.compileScript options u = match r.diagnostics.find? (·.isFatal) with
      | some d => if options.failOnFatal then .error (.fatal r.output.name d.message) else .ok r
      | none => .ok r := by
  have hname : p.unitName u = .ok r.output.name := by
    rw [unitName, typeName_of_emitAlone h]
    rfl
  obtain ⟨⟨source, sink⟩, hemit, h⟩ := Lookup.of_bind_ok h
  cases h
  rw [compileScript, Lookup.bind_of_ok hname, hemit]
  cases hd : sink.diagnostics.find? (·.isFatal) with
  | none => simp [orFault, bind, Except.bind, pure, Except.pure, hd]
  | some d =>
      simp only [orFault, bind, Except.bind, hd]
      rfl

theorem compileScript_eq_ok (h : p.emitAlone options u = .ok r)
    (hfatal : options.failOnFatal = true → r.hasFatal = false) :
    p.compileScript options u = .ok r := by
  rw [compileScript_of_emitAlone h]
  split
  · rename_i d hd
    split
    · rename_i hasked
      rw [CompiledUnit.hasFatal_eq_false_iff.mp (hfatal hasked)] at hd
      cases hd
    · rfl
  · rfl

/-! ### Units in turn -/

/-- The run stops at a unit. -/
theorem compileFrom_of_failsAt (h : p.emitAlone options u = .ok r)
    (he : FailsAt options errors (r :: rs) 0 e) :
    p.compileFrom options errors (u :: units) = .error e := by
  cases he with
  | @fatal _ d hr hasked hd =>
      cases hr
      have hfatal : p.compileScript options u = .error (.fatal r.output.name d.message) := by
        rw [compileScript_of_emitAlone h, hd]
        exact if_pos hasked
      rw [compileFrom, hfatal]
      rfl
  | @limit _ limit total hr hfatal hlimit htotal hmore =>
      cases hr
      have htotal : errors + r.errorCount = total := by simpa using htotal.symm
      rw [compileFrom, Lookup.bind_of_ok (compileScript_eq_ok h hfatal)]
      dsimp only
      rw [htotal, checkLimit, hlimit]
      dsimp only
      rw [if_pos hmore]
      rfl

/-- The run takes the result of a unit and goes on. -/
theorem compileFrom_of_passes (h : p.emitAlone options u = .ok r)
    (hpass : ∀ e, ¬ FailsAt options errors (r :: rs) 0 e) :
    p.compileFrom options errors (u :: units) =
      return r :: (← p.compileFrom options (errors + r.errorCount) units) := by
  have hfatal := hasFatal_of_passes hpass
  rw [compileFrom, Lookup.bind_of_ok (compileScript_eq_ok h hfatal)]
  dsimp only
  have hlimit : checkLimit options (errors + r.errorCount) = .ok () := by
    unfold checkLimit
    split
    · rename_i limit hlimit
      exact if_neg (Nat.not_lt_of_le (errors_le_of_passes hpass hlimit))
    · rfl
  rw [Lookup.bind_of_ok hlimit]

/-- A run gives the results of its units, if they pass. -/
theorem compileFrom_eq_ok (h : List.Forall₂ (fun u r => p.emitAlone options u = .ok r) units rs)
    (hpass : Passes options errors rs) : p.compileFrom options errors units = .ok rs := by
  induction h generalizing errors with
  | nil => rfl
  | @cons u r units rs hu _ ih =>
      have hrest := ih (passes_cons.mp hpass).2
      rw [compileFrom_of_passes hu hpass.not_failsAt_zero, hrest]
      rfl

/-- A run fails with the failure of the first result at which it stops. -/
theorem compileFrom_eq_error (h : List.Forall₂ (fun u r => p.emitAlone options u = .ok r) units rs)
    (he : FailsFirst options errors rs e) : p.compileFrom options errors units = .error e := by
  induction h generalizing errors with
  | nil =>
      obtain ⟨i, hi, -⟩ := he
      exact absurd hi not_failsAt_nil
  | cons hu _ ih =>
      rcases failsFirst_cons.mp he with hfirst | ⟨hpass, hrest⟩
      · exact compileFrom_of_failsAt hu hfirst
      · rw [compileFrom_of_passes hu hpass, ih hrest]
        rfl

/-! ### Units by name -/

theorem findM?_cons {n name : String} (h : p.unitName u = .ok n) :
    (u :: units).findM? (fun u => return (← p.unitName u) == name) =
      if n = name then .ok (some u)
      else units.findM? fun u => return (← p.unitName u) == name := by
  rw [List.findM?, Lookup.bind_of_ok h]
  by_cases heq : n = name
  · rw [if_pos heq, beq_iff_eq.mpr heq]
    rfl
  · rw [if_neg heq, beq_false_of_ne heq]
    rfl

/-- The first unit of a name, and what it gives by itself, stand at the same place. -/
theorem findM?_cases (h : List.Forall₂ (fun u r => p.emitAlone options u = .ok r) units rs)
    (name : String) :
    (units.findM? (fun u => return (← p.unitName u) == name) = .ok none ∧
      rs.find? (·.output.name = name) = none ∧
      ∀ u ∈ units, p.schema.typeName u.type ≠ .ok name) ∨
    ∃ u ∈ units, ∃ r ∈ rs, units.findM? (fun u => return (← p.unitName u) == name) = .ok (some u) ∧
      rs.find? (·.output.name = name) = some r ∧ p.emitAlone options u = .ok r := by
  induction h with
  | nil => exact .inl ⟨rfl, rfl, fun _ hu => by cases hu⟩
  | @cons u r units rs hu _ ih =>
      have htype := typeName_of_emitAlone hu
      have hname : p.unitName u = .ok r.output.name := by
        rw [unitName, htype]
        rfl
      by_cases heq : r.output.name = name
      · refine .inr ⟨u, List.mem_cons_self, r, List.mem_cons_self, ?_, by simp [heq], hu⟩
        rw [findM?_cons hname, if_pos heq]
      rw [findM?_cons hname, if_neg heq, List.find?_cons_of_neg (by simpa using heq)]
      rcases ih with ⟨hunit, hfind, hnone⟩ | ⟨v, hv, w, hw, hrest⟩
      · refine .inl ⟨hunit, hfind, fun v hv => ?_⟩
        rcases List.mem_cons.mp hv with rfl | hv
        · rw [htype]
          exact fun hok => heq (Except.ok.inj hok)
        · exact hnone v hv
      · exact .inr ⟨v, List.mem_cons_of_mem _ hv, w, List.mem_cons_of_mem _ hw, hrest⟩

/-- A unit compiled by its name is the first that the results have under it. -/
theorem compileUnit_of_passes
    (h : List.Forall₂ (fun u r => p.emitAlone options u = .ok r) p.units rs)
    (hpass : Passes options errors rs) (name : String) :
    (p.compileUnit name options = .error (.unknownUnit name) ↔
      ∀ u ∈ p.units, p.schema.typeName u.type ≠ .ok name) ∧
    p.compileUnit name options = match rs.find? (·.output.name = name) with
      | some r => .ok r
      | none => .error (.unknownUnit name) := by
  rcases findM?_cases h name with ⟨hunit, hfind, hnone⟩ | ⟨u, hu, r, hr, hunit, hfind, hur⟩
  · have hresult : p.compileUnit name options = .error (.unknownUnit name) := by
      rw [compileUnit, unit?, hunit]
      rfl
    exact ⟨⟨fun _ => hnone, fun _ => hresult⟩, by rw [hresult, hfind]⟩
  · have hname : r.output.name = name := by simpa using List.find?_some hfind
    have hresult : p.compileUnit name options = .ok r := by
      rw [compileUnit, unit?, hunit]
      exact compileScript_eq_ok hur fun hasked => hpass.fatal hasked r hr
    refine ⟨⟨fun hunknown => ?_, fun hnone => ?_⟩, by rw [hresult, hfind]⟩
    · rw [hresult] at hunknown
      cases hunknown
    · exact absurd (hname ▸ typeName_of_emitAlone hur) (hnone u hu)

/-- **A run over a package is its units compiled one by one.**  If every unit has an output by
itself, the run gives exactly these outputs when they pass, and else fails with the failure of the
first one at which it stops.  When it does not fail, a unit compiled by its name is the first one
that the run has under that name, and none only if no unit has it. -/
theorem compile_by_units (h : p.units.mapM (p.emitAlone options) = .ok rs) :
    (∀ c, p.compile options = .ok c ↔ c.units = rs ∧ Passes options 0 rs) ∧
    (∀ e, p.compile options = .error e ↔ FailsFirst options 0 rs e) ∧
    ∀ c, p.compile options = .ok c → ∀ name,
      (p.compileUnit name options = .error (.unknownUnit name) ↔
        ∀ u ∈ p.units, p.schema.typeName u.type ≠ .ok name) ∧
      p.compileUnit name options = match c.unit? name with
        | some r => .ok r
        | none => .error (.unknownUnit name) := by
  have hunits := Lookup.of_mapM_ok h
  have hok : Passes options 0 rs → p.compile options = .ok ⟨rs⟩ := fun hpass => by
    rw [compile, compileFrom_eq_ok hunits hpass]
    rfl
  have herror : ∀ e, FailsFirst options 0 rs e → p.compile options = .error e := fun e he => by
    rw [compile, compileFrom_eq_error hunits he]
    rfl
  have hcases : Passes options 0 rs ∨ ∃ e, FailsFirst options 0 rs e :=
    passes_or_failsFirst rs fun limit _ => Nat.zero_le limit
  have hpasses : ∀ c, p.compile options = .ok c → c.units = rs ∧ Passes options 0 rs := by
    intro c hc
    rcases hcases with hpass | ⟨e, he⟩
    · rw [hok hpass] at hc
      cases hc
      exact ⟨rfl, hpass⟩
    · rw [herror e he] at hc
      cases hc
  refine ⟨fun c => ⟨hpasses c, ?_⟩, fun e => ⟨fun he => ?_, herror e⟩, fun c hc name => ?_⟩
  · rintro ⟨rfl, hpass⟩
    exact hok hpass
  · rcases hcases with hpass | ⟨e', he'⟩
    · rw [hok hpass] at he
      cases he
    · rw [herror e' he'] at he
      cases he
      exact he'
  · obtain ⟨rfl, hpass⟩ := hpasses c hc
    exact compileUnit_of_passes hunits hpass name

/-! ### A patrol -/

def patrolEdits : List Edit :=
  [.addClass "Guard" none, .addEnum "Mood" ["Calm"], .addFunction ⟨0⟩ "Patrol"]

/-- A function of one statement. -/
def patrolGraph (kind : StatementKind) : FunctionGraph :=
  { name := "Patrol", function := ⟨0⟩, statements := #[{ kind }], nodes := [[⟨0⟩]] }

/-- Two units of one name, the first with an error and the last with a fatal one. -/
def patrolPackage : Package :=
  let world := (World.build patrolEdits).toOption.getD {}
  ⟨world.schema, world.objects, [⟨⟨0⟩, [patrolGraph .returnStatement]⟩, ⟨⟨1⟩, []⟩,
    ⟨⟨0⟩, [patrolGraph (.compileError "Lost")]⟩]⟩

/-- What the units of the patrol give by themselves. -/
def patrolResults (options : CompileOptions) : List CompiledUnit :=
  (patrolPackage.units.mapM (patrolPackage.emitAlone options)).toOption.getD []

theorem emitAlone_patrol (options : CompileOptions) :
    patrolPackage.units.mapM (patrolPackage.emitAlone options) = .ok (patrolResults options) := rfl

/-- With a limit of one error the last unit is one too many, and its fatal diagnostic comes first if
it is to stop the run.  Without a limit the run gives all three, and the first under their name. -/
theorem compile_by_units_patrol :
    (patrolResults {}).map (fun r => (r.output.name, r.errorCount, r.hasFatal)) =
      [("Guard", 1, false), ("Mood", 0, false), ("Guard", 1, true)] ∧
    FailsFirst { errorLimit := some 1 } 0 (patrolResults { errorLimit := some 1 })
      (.errorLimitReached 1 2) ∧
    FailsFirst { errorLimit := some 1, failOnFatal := true } 0
      (patrolResults { errorLimit := some 1, failOnFatal := true })
      (.fatal "Guard" "compile error: Lost") ∧
    ∃ c r, patrolPackage.compile {} = .ok c ∧ c.units = patrolResults {} ∧ c.units[0]? = some r ∧
      patrolPackage.compileUnit "Guard" {} = .ok r ∧
      patrolPackage.compileUnit "Ghost" {} = .error (.unknownUnit "Ghost") := by
  have hpass : Passes {} 0 (patrolResults {}) := ⟨nofun, nofun⟩
  obtain ⟨hok, -, hunit⟩ := compile_by_units (emitAlone_patrol {})
  have hcompile := (hok ⟨patrolResults {}⟩).mpr ⟨rfl, hpass⟩
  refine ⟨by decide +kernel, ?_, ?_, _, _, hcompile, rfl, rfl, (hunit _ hcompile "Guard").2, ?_⟩
  · exact ((compile_by_units (emitAlone_patrol _)).2.1 _).mp rfl
  · exact ((compile_by_units (emitAlone_patrol _)).2.1 _).mp rfl
  · exact (hunit _ hcompile "Ghost").1.mpr (by decide +kernel)

end Package

end GraphLowering
