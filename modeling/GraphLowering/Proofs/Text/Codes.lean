import GraphLowering.Proofs.Text.Quoted
import GraphLowering.Text.Number
import Mathlib

/-!
# Text — codes that can be told apart

What is written in a row stands between brackets, with commas in between.  A way of writing things
is separable when a comma, a closing bracket or the end of the text is enough to tell from it what
was written and where it ends.  Numbers are, as they hold no comma and no bracket; quoted texts are,
as they tell their own end; and so is a row of things that are.

* `Separable.of_plain`: a code without commas and brackets.
* `separable_quote`: quoted texts, which may hold both.
* `Separable.joined`, `Separable.bracketed`: rows of any length.
-/

namespace GraphLowering.Text

variable {α κ : Type} {P : α → List Char → Prop}

/-- A comma or a closing bracket. -/
def isStop (c : Char) : Bool := c = ',' || c = ')' || c = '\x7d'

/-- Nothing follows, or a comma or a closing bracket does. -/
def Stops (cs : List Char) : Prop := ∀ c ∈ cs.head?, isStop c = true

/-- Nothing follows, or a closing bracket does. -/
def Closes (cs : List Char) : Prop := Stops cs ∧ cs.head? ≠ some ','

theorem stops_cons {c : Char} (hstop : isStop c = true) (cs : List Char) : Stops (c :: cs) := by
  simp [Stops, hstop]

theorem closes_cons {c : Char} (hstop : isStop c = true) (hcomma : c ≠ ',') (cs : List Char) :
    Closes (c :: cs) :=
  ⟨stops_cons hstop cs, by simpa using hcomma⟩

/-- In front of a stop it can be told what was written, and where it ends. -/
def Separable (P : α → List Char → Prop) : Prop :=
  ∀ ⦃a b ca cb x y⦄, P a ca → P b cb → Stops x → Stops y → ca ++ x = cb ++ y → a = b ∧ x = y

theorem stops_nil : Stops [] := by simp [Stops]

namespace Separable

/-- What is written alike is the same. -/
theorem injective (h : Separable P) {a b : α} {cs : List Char} (ha : P a cs) (hb : P b cs) :
    a = b :=
  (h ha hb stops_nil stops_nil rfl).1

/-- A code of other things, from which those are made. -/
theorem of_code {Q : κ → List Char → Prop} (h : Separable Q) (make : κ → α)
    (hP : ∀ a cs, P a cs → ∃ k, a = make k ∧ Q k cs) : Separable P := by
  intro a b ca cb x y ha hb hx hy heq
  obtain ⟨k, rfl, hk⟩ := hP a ca ha
  obtain ⟨l, rfl, hl⟩ := hP b cb hb
  obtain ⟨rfl, hxy⟩ := h hk hl hx hy heq
  exact ⟨rfl, hxy⟩

/-- Up to the first stop, a code without stops is all there is. -/
theorem of_plain (hplain : ∀ a cs, P a cs → ∀ c ∈ cs, isStop c = false)
    (hinj : ∀ a b cs, P a cs → P b cs → a = b) : Separable P := by
  intro a b ca cb x y ha hb hx hy heq
  have hcut : ∀ {d cd z}, P d cd → Stops z → (cd ++ z).takeWhile (!isStop ·) = cd := by
    intro d cd z hd hz
    rw [List.takeWhile_append_of_pos fun c hc => by simp [hplain d cd hd c hc]]
    cases z with
    | nil => simp
    | cons c z => simp [hz c rfl]
  have hcode : ca = cb := by rw [← hcut ha hx, heq, hcut hb hy]
  subst hcode
  exact ⟨hinj a b ca ha hb, List.append_cancel_left heq⟩

/-- A code between a fixed text and a closing bracket. -/
theorem between (h : Separable P) (before : List Char) (bracket : Char)
    (hstop : isStop bracket = true) :
    Separable fun a cs => ∃ ca, P a ca ∧ cs = before ++ ca ++ [bracket] := by
  rintro a b _ _ x y ⟨ca, ha, rfl⟩ ⟨cb, hb, rfl⟩ - - heq
  have hinner : ca ++ bracket :: x = cb ++ bracket :: y := by simpa using heq
  obtain ⟨hab, hrest⟩ := h ha hb (stops_cons hstop x) (stops_cons hstop y) hinner
  exact ⟨hab, List.tail_eq_of_cons_eq hrest⟩

/-! ### Rows -/

/-- What follows the first of a row. -/
def behindFirst (sep : List Char) (codes : List (List Char)) (x : List Char) : List Char :=
  if codes = [] then x else sep ++ (sep.intercalate codes ++ x)

theorem intercalate_cons_append (sep c : List Char) (codes : List (List Char)) (x : List Char) :
    sep.intercalate (c :: codes) ++ x = c ++ behindFirst sep codes x := by
  cases codes with
  | nil => simp [behindFirst]
  | cons d codes => simp [behindFirst, List.intercalate_cons_cons]

theorem stops_behindFirst {sep : List Char} (hsep : sep.head? = some ',')
    (codes : List (List Char)) {x : List Char} (hx : Closes x) :
    Stops (behindFirst sep codes x) := by
  unfold behindFirst
  split
  · exact hx.1
  · obtain ⟨rest, rfl⟩ := List.head?_eq_some_iff.mp hsep
    simp [Stops, isStop]

/-- A row ends where no comma follows. -/
theorem ne_sep_append {sep x : List Char} (hsep : sep.head? = some ',') (hx : Closes x)
    (rest : List Char) : x ≠ sep ++ rest := by
  rintro rfl
  obtain ⟨tail, rfl⟩ := List.head?_eq_some_iff.mp hsep
  exact hx.2 rfl

/-- **Rows are told apart**, however long they are, if what they are made of is. -/
theorem joined (h : Separable P) {sep : List Char} (hsep : sep.head? = some ',') {as bs : List α}
    {cas cbs : List (List Char)} {x y : List Char} (has : List.Forall₂ P as cas)
    (hbs : List.Forall₂ P bs cbs) (hane : as ≠ []) (hbne : bs ≠ []) (hx : Closes x) (hy : Closes y)
    (heq : sep.intercalate cas ++ x = sep.intercalate cbs ++ y) : as = bs ∧ x = y := by
  induction has generalizing bs cbs with
  | nil => exact absurd rfl hane
  | @cons a ca as cas ha has ih =>
      cases hbs with
      | nil => exact absurd rfl hbne
      | @cons b cb bs cbs hb hbs =>
          rw [intercalate_cons_append, intercalate_cons_append] at heq
          obtain ⟨rfl, hrest⟩ := h ha hb (stops_behindFirst hsep cas hx)
            (stops_behindFirst hsep cbs hy) heq
          -- One row is longer than the other only if a comma follows where the other ends.
          cases has with
          | nil =>
              cases hbs with
              | nil => exact ⟨rfl, hrest⟩
              | cons => exact absurd hrest (by simpa [behindFirst] using ne_sep_append hsep hx _)
          | cons =>
              cases hbs with
              | nil =>
                  exact absurd hrest.symm (by simpa [behindFirst] using ne_sep_append hsep hy _)
              | cons hb' hbs' =>
                  simp only [behindFirst, reduceCtorEq, if_false] at hrest
                  obtain ⟨htail, hxy⟩ := ih (.cons hb' hbs') (by simp) (by simp)
                    (List.append_cancel_left hrest)
                  exact ⟨by rw [htail], hxy⟩

/-- A row that is not empty, between a fixed text and a closing bracket. -/
theorem bracketed (h : Separable P) (before : List Char) {sep : List Char}
    (hsep : sep.head? = some ',') (bracket : Char) (hstop : isStop bracket = true)
    (hcomma : bracket ≠ ',') :
    Separable fun as cs => as ≠ [] ∧ ∃ codes, List.Forall₂ P as codes ∧
      cs = before ++ sep.intercalate codes ++ [bracket] := by
  rintro as bs _ _ x y ⟨hane, cas, has, rfl⟩ ⟨hbne, cbs, hbs, rfl⟩ - - heq
  have hinner : sep.intercalate cas ++ (bracket :: x) = sep.intercalate cbs ++ (bracket :: y) := by
    simpa using heq
  obtain ⟨hab, hrest⟩ := h.joined hsep has hbs hane hbne (closes_cons hstop hcomma x)
    (closes_cons hstop hcomma y) hinner
  exact ⟨hab, List.tail_eq_of_cons_eq hrest⟩

/-- The arguments of a constructor. -/
theorem arguments {code : α → String} (h : Separable fun a cs => cs = (code a).toList)
    (before sep : String) (hsep : sep.toList.head? = some ',') :
    Separable fun as cs => as ≠ [] ∧
      cs = (before ++ "(" ++ sep.intercalate (as.map code) ++ ")").toList := by
  refine (h.bracketed (before ++ "(").toList hsep ')' rfl (by decide)).of_code id ?_
  rintro as _ ⟨hne, rfl⟩
  exact ⟨as, rfl, hne, as.map fun a => (code a).toList, by simp, by simp [Function.comp_def]⟩

end Separable

/-! ### Quoted texts and numbers -/

/-- **Quoted texts are told apart**, whatever they hold. -/
theorem separable_quote : Separable fun s cs => cs = (quote s).toList := by
  rintro s t _ _ x y rfl rfl - - heq
  have hbody : (escape s).toList ++ '"' :: x = (escape t).toList ++ '"' :: y := by
    simpa [quote] using heq
  have hclosing := congrArg closing? hbody
  rw [closing?_escape, closing?_escape] at hclosing
  obtain ⟨hescape, rfl⟩ := Prod.mk.inj (Option.some.inj hclosing)
  have hread := congrArg unescape? hescape
  rw [unescape?_escape, unescape?_escape] at hread
  exact ⟨String.toList_injective (Option.some.inj hread), rfl⟩

theorem isStop_of_isDigit {c : Char} (h : c.isDigit = true) : isStop c = false := by
  cases hstop : isStop c with
  | false => rfl
  | true =>
      simp only [isStop, Bool.or_eq_true, decide_eq_true_eq] at hstop
      rcases hstop with (rfl | rfl) | rfl <;> cases h

theorem isStop_of_mem_decimal {n : Nat} {c : Char} (h : c ∈ (toString n).toList) :
    isStop c = false := by
  rw [Nat.toString_eq_ofList_toDigits, String.toList_ofList] at h
  exact isStop_of_isDigit (Nat.isDigit_of_mem_toDigits (by decide) (by decide) h)

theorem separable_decimal : Separable fun (n : Nat) cs => cs = (toString n).toList := by
  refine .of_plain ?_ ?_
  · rintro n _ rfl c hc
    exact isStop_of_mem_decimal hc
  · rintro n m _ hn hm
    exact Nat.repr_inj.mp (String.toList_injective (hn.symm.trans hm))

theorem separable_signedDecimal : Separable fun (n : Int) cs => cs = (toString n).toList := by
  refine .of_plain ?_ ?_
  · rintro n _ rfl c hc
    rw [Int.toString_eq_repr, Int.repr_eq_if] at hc
    split at hc
    · exact isStop_of_mem_decimal hc
    · have hsign : c = '-' ∨ c ∈ (toString (-n).toNat).toList := by simpa using hc
      rcases hsign with rfl | hc
      · rfl
      · exact isStop_of_mem_decimal hc
  · rintro n m _ hn hm
    rw [hn, Int.toString_eq_repr, Int.toString_eq_repr] at hm
    exact Int.repr_inj.mp (String.toList_injective hm)

/-! ### Hexadecimal digits -/

theorem hexDigit_inj : ∀ m < 16, ∀ n < 16, hexDigit m = hexDigit n → m = n := by decide

theorem isStop_hexDigit : ∀ n < 16, isStop (hexDigit n) = false := by decide

theorem isStop_of_mem_hexDigits {width n : Nat} {c : Char} (h : c ∈ hexDigits width n) :
    isStop c = false := by
  induction width generalizing n with
  | zero => cases h
  | succ width ih =>
      rcases List.mem_append.mp h with h | h
      · exact ih h
      · rw [List.mem_singleton.mp h]
        exact isStop_hexDigit _ (Nat.mod_lt _ (by decide))

/-- Enough digits give the number. -/
theorem hexDigits_inj {width m n : Nat} (hm : m < 16 ^ width) (hn : n < 16 ^ width)
    (h : hexDigits width m = hexDigits width n) : m = n := by
  induction width generalizing m n with
  | zero => omega
  | succ width ih =>
      rw [Nat.pow_succ] at hm hn
      obtain ⟨hupper, hlast⟩ := List.append_inj' h rfl
      have hquotient : m / 16 = n / 16 := ih (by omega) (by omega) hupper
      have hremainder : m % 16 = n % 16 := hexDigit_inj _ (Nat.mod_lt _ (by decide)) _
        (Nat.mod_lt _ (by decide)) (List.cons.inj hlast).1
      omega

end GraphLowering.Text
