import GraphLowering.Dispatch.StateMap
import Mathlib.Algebra.Group.Nat.Defs
import Mathlib.Data.List.Induction
import Mathlib.Data.List.Nodup
import Mathlib.Order.Basic

/-!
# Dispatch — laws of the numbering

A state map only ever grows at its end, so a number once given stays.  `m ≤ m'` says that `m'` has
the statements of `m` first and in the same order.

* `get?_of_le`: a larger map gives a statement the number it had.
* `get?_stateOf`, `le_stateOf`: what one mention does.
* `get?_inj`: below the greatest number, different statements have different numbers.
* `order_after`: however often statements are mentioned, the order is that of first mention.
* `numbered_by_first_mention`: what a run of mentions answers, and the map behind it.
-/

namespace GraphLowering.StateMap

/-- `m'` numbers the statements of `m` alike, and perhaps some more. -/
instance : Preorder StateMap where
  le m m' := m.order <+: m'.order
  le_refl m := List.prefix_refl m.order
  le_trans _ _ _ h h' := List.IsPrefix.trans h h'

/-- No statement is listed twice. -/
def Distinct (m : StateMap) : Prop := m.order.Nodup

/-! ### Looking up -/

/-- A look-up finds the state of the first place in the order. -/
theorem get?_eq_some_iff {m : StateMap} {s : StmtId} {n : Int} :
    m.get? s = some n ↔ ∃ i, m.order.idxOf? s = some i ∧ stateAt i = n := by
  have hplace : ∀ i, m.order.idxOf? s = some i → m.get? s = some (stateAt i) := by
    intro i hi
    obtain ⟨hlt, hs, -⟩ := List.idxOf?_eq_some_iff.mp hi
    exact m.numbered i s (List.getElem?_eq_some_iff.mpr ⟨hlt, hs⟩)
  constructor
  · intro h
    obtain ⟨i, hi⟩ := Option.isSome_iff_exists.mp (List.isSome_idxOf?.mpr (m.mentioned s n h))
    exact ⟨i, hi, Option.some.inj ((hplace i hi).symm.trans h)⟩
  · rintro ⟨i, hi, rfl⟩
    exact hplace i hi

theorem get?_eq_none_iff {m : StateMap} {s : StmtId} : m.get? s = none ↔ s ∉ m.order := by
  constructor
  · intro h hs
    simpa [h] using m.isSome_get? hs
  · intro hs
    exact Option.eq_none_iff_forall_not_mem.mpr fun n hn => hs (m.mentioned s n hn)

theorem lt_size_of_idxOf? {m : StateMap} {s : StmtId} {i : Nat} (h : m.order.idxOf? s = some i) :
    i < m.size := by
  obtain ⟨hi, -, -⟩ := List.idxOf?_eq_some_iff.mp h
  exact hi

/-- A larger map gives a statement the number it had. -/
theorem get?_of_le {m m' : StateMap} {s : StmtId} {n : Int} (h : m ≤ m')
    (hn : m.get? s = some n) : m'.get? s = some n := by
  obtain ⟨i, hi, rfl⟩ := get?_eq_some_iff.mp hn
  exact get?_eq_some_iff.mpr ⟨i, List.IsPrefix.findIdx?_eq_some h hi, rfl⟩

/-- Numbers start at 1. -/
theorem pos_of_get? {m : StateMap} {s : StmtId} {n : Int} (h : m.get? s = some n) : 0 < n := by
  obtain ⟨i, -, rfl⟩ := get?_eq_some_iff.mp h
  simp only [stateAt, maxState, Int.ofNat_eq_natCast]
  omega

theorem le_maxState_of_get? {m : StateMap} {s : StmtId} {n : Int} (h : m.get? s = some n) :
    n ≤ maxState := by
  obtain ⟨i, -, rfl⟩ := get?_eq_some_iff.mp h
  simp only [stateAt, maxState, Int.ofNat_eq_natCast]
  omega

theorem stateAt_of_lt {i : Nat} (h : i < maxState) : stateAt i = i + 1 := by
  simp only [stateAt, maxState, Int.ofNat_eq_natCast] at h ⊢
  omega

/-- Below the greatest number, different statements have different numbers. -/
theorem get?_inj {m : StateMap} (hm : m.size < maxState) {s t : StmtId} {n : Int}
    (hs : m.get? s = some n) (ht : m.get? t = some n) : s = t := by
  obtain ⟨i, hi, rfl⟩ := get?_eq_some_iff.mp hs
  obtain ⟨j, hj, hij⟩ := get?_eq_some_iff.mp ht
  have hilt := lt_size_of_idxOf? hi
  have hjlt := lt_size_of_idxOf? hj
  rw [stateAt_of_lt (Nat.lt_trans hilt hm), stateAt_of_lt (Nat.lt_trans hjlt hm)] at hij
  obtain rfl : j = i := by omega
  obtain ⟨_, hsi, -⟩ := List.idxOf?_eq_some_iff.mp hi
  obtain ⟨_, htj, -⟩ := List.idxOf?_eq_some_iff.mp hj
  exact hsi.symm.trans htj

/-! ### Mentioning -/

theorem stateOf_of_get? {m : StateMap} {s : StmtId} {n : Int} (h : m.get? s = some n) :
    m.stateOf s = (n, m) := by
  unfold stateOf
  split <;> simp_all

theorem stateOf_of_get?_none {m : StateMap} {s : StmtId} (h : m.get? s = none) :
    m.stateOf s = (stateAt m.order.length, m.add s h) := by
  unfold stateOf
  split <;> simp_all

theorem le_stateOf (m : StateMap) (s : StmtId) : m ≤ (m.stateOf s).2 := by
  cases h : m.get? s with
  | some n => rw [stateOf_of_get? h]
  | none => rw [stateOf_of_get?_none h]; exact List.prefix_append _ _

/-- A mention gives the number that the statement has from then on. -/
theorem get?_stateOf (m : StateMap) (s : StmtId) :
    (m.stateOf s).2.get? s = some (m.stateOf s).1 := by
  cases h : m.get? s with
  | some n => rw [stateOf_of_get? h, h]
  | none =>
      rw [stateOf_of_get?_none h]
      exact List.lookup_cons_self

theorem Distinct.stateOf {m : StateMap} (h : m.Distinct) (s : StmtId) :
    (m.stateOf s).2.Distinct := by
  cases hs : m.get? s with
  | some n => rwa [stateOf_of_get? hs]
  | none =>
      rw [stateOf_of_get?_none hs]
      exact List.nodup_append.mpr ⟨h, by simp, fun a ha b hb e =>
        get?_eq_none_iff.mp hs (by rw [List.mem_singleton] at hb; rwa [e, hb] at ha)⟩

/-! ### Listing -/

/-- The numbers in the listing are those of the places in the order. -/
theorem toList_eq (m : StateMap) : m.toList = m.order.mapIdx fun i s => (s, stateAt i) := by
  refine List.ext_getElem (by simp [toList]) fun i hi _ => ?_
  have hlt : i < m.order.length := by simpa [toList] using hi
  have hstate : m.get? m.order[i] = some (stateAt i) :=
    m.numbered i _ (List.getElem?_eq_getElem hlt)
  simp [toList, hstate]

/-- The listing pairs each statement with its number. -/
theorem mem_toList_iff {m : StateMap} (hm : m.Distinct) {s : StmtId} {n : Int} :
    (s, n) ∈ m.toList ↔ m.get? s = some n := by
  rw [toList_eq, List.mem_mapIdx, get?_eq_some_iff]
  constructor
  · rintro ⟨i, hi, e⟩
    obtain ⟨rfl, rfl⟩ := Prod.mk.inj e
    refine ⟨i, List.idxOf?_eq_some_iff.mpr ⟨hi, by simp, fun j hj => ?_⟩, rfl⟩
    exact fun e => Nat.ne_of_lt hj ((List.Nodup.getElem_inj_iff hm).mp e)
  · rintro ⟨i, hi, rfl⟩
    obtain ⟨hlt, e, -⟩ := List.idxOf?_eq_some_iff.mp hi
    exact ⟨i, hlt, by rw [e]⟩

/-- The numbers of a small map are 1, 2, 3 and so on, without gaps. -/
theorem toList_snd {m : StateMap} (hm : m.size < maxState) :
    m.toList.map Prod.snd = (List.range m.size).map fun i : Nat => (i : Int) + 1 := by
  refine List.ext_getElem (by simp [toList_eq, size]) fun i hi _ => ?_
  have hlt : i < m.size := by simpa [toList_eq, size] using hi
  simp [toList_eq, stateAt_of_lt (Nat.lt_trans hlt hm)]

theorem toList_fst (m : StateMap) : m.toList.map Prod.fst = m.order := by
  refine List.ext_getElem (by simp [toList_eq]) fun i _ _ => ?_
  simp [toList_eq]

/-! ### Mentions in turn -/

/-- The map behind mentions in turn, from a new one on. -/
def after (mentions : List StmtId) : StateMap := mentions.foldl (fun m s => (m.stateOf s).2) {}

/-- One plus the place of a statement among the distinct ones of a list, by first mention. -/
def numberIn (mentions : List StmtId) (s : StmtId) : Int := mentions.eraseDups.idxOf s + 1

theorem after_concat (mentions : List StmtId) (s : StmtId) :
    after (mentions ++ [s]) = ((after mentions).stateOf s).2 := by
  simp [after]

/-- Later mentions only add to the map. -/
theorem after_le_append (before later : List StmtId) : after before ≤ after (before ++ later) := by
  induction later using List.reverseRecOn with
  | nil => rw [List.append_nil]
  | append_singleton later s ih =>
      rw [← List.append_assoc, after_concat]
      exact le_trans ih (le_stateOf _ s)

theorem order_stateOf (m : StateMap) (s : StmtId) :
    (m.stateOf s).2.order = if s ∈ m.order then m.order else m.order ++ [s] := by
  split
  · rename_i hs
    obtain ⟨n, hn⟩ := Option.isSome_iff_exists.mp (m.isSome_get? hs)
    rw [stateOf_of_get? hn]
  · rename_i hs
    rw [stateOf_of_get?_none (get?_eq_none_iff.mpr hs)]
    rfl

/-- **The order is that of first mention**, each statement once. -/
theorem order_after (mentions : List StmtId) : (after mentions).order = mentions.eraseDups := by
  induction mentions using List.reverseRecOn with
  | nil => rfl
  | append_singleton mentions s ih =>
      rw [after_concat, order_stateOf, ih, List.eraseDups_append]
      simp only [List.mem_eraseDups]
      by_cases hs : s ∈ mentions <;> simp [List.removeAll, hs, List.eraseDups_cons]

/-- A statement that was mentioned has the number of its place. -/
theorem get?_after {mentions : List StmtId} (hfew : mentions.eraseDups.length < maxState)
    {s : StmtId} (hs : s ∈ mentions) : (after mentions).get? s = some (numberIn mentions s) := by
  have hplace : mentions.eraseDups.idxOf s < mentions.eraseDups.length :=
    List.idxOf_lt_length_of_mem (List.mem_eraseDups.mpr hs)
  have hget : (after mentions).order[mentions.eraseDups.idxOf s]? = some s := by
    rw [order_after, List.getElem?_eq_getElem hplace, List.getElem_idxOf hplace]
  rw [numberIn, ← stateAt_of_lt (Nat.lt_trans hplace hfew)]
  exact (after mentions).numbered _ s hget

/-- **Numbers are dense, stable and in the order of first mention.**  Along any mentions of few
enough distinct statements, each is answered with one plus the place of its statement among them,
whatever is mentioned later; the map behind them finds these numbers and no others, and it lists the
statements by first mention with the numbers that are looked up for them. -/
theorem numbered_by_first_mention (mentions : List StmtId)
    (hfew : mentions.eraseDups.length < 2 ^ 31 - 1) :
    (∀ before s later, mentions = before ++ s :: later →
      ((after before).stateOf s).1 = numberIn mentions s ∧
      ((after mentions).stateOf s).1 = numberIn mentions s) ∧
    (∀ before later, mentions = before ++ later → ∀ s n, (after before).get? s = some n →
      (after mentions).get? s = some n) ∧
    (∀ s, (after mentions).get? s = if s ∈ mentions then some (numberIn mentions s) else none) ∧
    (after mentions).size = mentions.eraseDups.length ∧
    (after mentions).order = mentions.eraseDups ∧
    (∀ s ∈ (after mentions).order,
      (after mentions).states.lookup s = some (numberIn mentions s)) ∧
    (after mentions).toList = mentions.eraseDups.map fun s => (s, numberIn mentions s) := by
  have hfound : ∀ s ∈ mentions, (after mentions).get? s = some (numberIn mentions s) :=
    fun s hs => get?_after hfew hs
  have hkept : ∀ before later, mentions = before ++ later → after before ≤ after mentions := by
    rintro before later rfl
    exact after_le_append before later
  have hmem : ∀ s ∈ mentions.eraseDups, s ∈ mentions := fun s hs => List.mem_eraseDups.mp hs
  refine ⟨?_, ?_, fun s => ?_, ?_, order_after mentions, ?_, ?_⟩
  · intro before s later hsplit
    have hs : s ∈ mentions := hsplit ▸ List.mem_append_right _ List.mem_cons_self
    -- The answer is the number that the statement has from then on, to the end.
    have hanswer : (after (before ++ [s])).get? s = some ((after before).stateOf s).1 := by
      rw [after_concat]
      exact get?_stateOf _ s
    have hlast := get?_of_le (hkept (before ++ [s]) later (by simp [hsplit])) hanswer
    refine ⟨Option.some.inj (hlast.symm.trans (hfound s hs)), ?_⟩
    rw [stateOf_of_get? (hfound s hs)]
  · intro before later hsplit s n hn
    exact get?_of_le (hkept before later hsplit) hn
  · split
    · exact hfound s ‹_›
    · rename_i hs
      rw [get?_eq_none_iff, order_after]
      exact fun h => hs (hmem s h)
  · rw [size, order_after]
  · intro s hs
    rw [order_after] at hs
    exact hfound s (hmem s hs)
  · refine List.ext_getElem (by simp [toList_eq, order_after]) fun i hi hi' => ?_
    have hlt : i < mentions.eraseDups.length := by simpa using hi'
    have hget : (after mentions).get? mentions.eraseDups[i] =
        some (numberIn mentions mentions.eraseDups[i]) :=
      hfound _ (hmem _ (List.getElem_mem hlt))
    simp [toList, order_after, hget]

/-- Three statements, mentioned five times. -/
def returns : List StmtId := [⟨7⟩, ⟨2⟩, ⟨7⟩, ⟨0⟩, ⟨2⟩]

/-- The last mention is answered as the second, and all are listed once. -/
theorem numbered_by_first_mention_returns : returns.eraseDups.length < 2 ^ 31 - 1 ∧
    ((after [⟨7⟩, ⟨2⟩, ⟨7⟩, ⟨0⟩]).stateOf ⟨2⟩).1 = numberIn returns ⟨2⟩ ∧
    (after returns).toList = returns.eraseDups.map (fun s => (s, numberIn returns s)) ∧
    returns.eraseDups.map (fun s => (s, numberIn returns s)) = [(⟨7⟩, 1), (⟨2⟩, 2), (⟨0⟩, 3)] := by
  have hfew : returns.eraseDups.length < 2 ^ 31 - 1 := by decide
  obtain ⟨hanswer, -, -, -, -, -, hlisting⟩ := numbered_by_first_mention returns hfew
  exact ⟨hfew, (hanswer [⟨7⟩, ⟨2⟩, ⟨7⟩, ⟨0⟩] ⟨2⟩ [] rfl).1, hlisting, by decide⟩

end GraphLowering.StateMap
