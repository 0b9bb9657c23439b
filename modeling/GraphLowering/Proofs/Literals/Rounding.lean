import GraphLowering.Binary32
import Mathlib.Algebra.Order.Field.Basic
import Mathlib.Data.Rat.Cast.Order
import Mathlib.Tactic.FieldSimp
import Mathlib.Tactic.Linarith
import Mathlib.Tactic.NormNum
import Mathlib.Tactic.Ring

/-!
# Literals — rounding of single-precision numbers

The literal of a finite number is a numeral with six places (`FixedNumeral`), whose value is the
multiple of a millionth nearest to the number; of two that are equally near, the numeral with an
even last digit is taken.  Values are exact rational numbers.

* `roundHalfEven_near`: a rounded quotient is off by at most a half, and even if by just that.
* `Binary32.magnitude_eq`: the exact value as a quotient of natural numbers.
* `FixedNumeral.ofMillionths`: the numeral of a count of millionths, and what it denotes.
* `Binary32.literal_correctly_rounded`: the literal of every bit pattern.
-/

namespace GraphLowering

/-! ### Nearest whole numbers -/

/-- What is off by at most a half is nearest. -/
theorem abs_sub_le_of_le_half {x : ℚ} {n : ℤ} (h : |x - n| ≤ 1 / 2) (k : ℤ) :
    |x - n| ≤ |x - k| ∧ (k ≠ n → |x - k| = |x - n| → |x - n| = 1 / 2) := by
  by_cases hk : k = n
  · exact ⟨by rw [hk], fun hne => absurd hk hne⟩
  have hone : (1 : ℚ) ≤ |(n : ℚ) - k| := by
    have hpos : 0 < |n - k| := abs_pos.mpr (sub_ne_zero.mpr (Ne.symm hk))
    exact_mod_cast hpos
  have htriangle : |(n : ℚ) - k| ≤ |x - n| + |x - k| := by
    rw [abs_sub_comm x n]
    exact abs_sub_le _ _ _
  exact ⟨by linarith, fun _ htie => by linarith⟩

theorem div_lt_half_iff {r d : Nat} (hd : 0 < d) : (r : ℚ) / d < 1 / 2 ↔ 2 * r < d := by
  rw [div_lt_div_iff₀ (by exact_mod_cast hd) two_pos, one_mul, mul_comm]
  exact_mod_cast Iff.rfl

theorem half_lt_div_iff {r d : Nat} (hd : 0 < d) : 1 / 2 < (r : ℚ) / d ↔ d < 2 * r := by
  rw [div_lt_div_iff₀ two_pos (by exact_mod_cast hd), one_mul, mul_comm]
  exact_mod_cast Iff.rfl

/-- A rounded quotient is off by at most a half, and even if by just that. -/
theorem roundHalfEven_near (n : Nat) {d : Nat} (hd : 0 < d) :
    |(n : ℚ) / d - roundHalfEven n d| ≤ 1 / 2 ∧
      (|(n : ℚ) / d - roundHalfEven n d| = 1 / 2 → Even (roundHalfEven n d)) := by
  have hdpos : (0 : ℚ) < d := by exact_mod_cast hd
  have hquotient : (n : ℚ) / d = (n / d : Nat) + (n % d : Nat) / d := by
    rw [div_eq_iff hdpos.ne', add_mul, div_mul_cancel₀ _ hdpos.ne']
    exact_mod_cast (Nat.div_add_mod' n d).symm
  have hrest : (0 : ℚ) ≤ (n % d : Nat) / d := div_nonneg (Nat.cast_nonneg _) hdpos.le
  have hlt : (n % d : Nat) / d < (1 : ℚ) :=
    (div_lt_one hdpos).mpr (by exact_mod_cast Nat.mod_lt n hd)
  -- The rest is below a half, above it, or a half.
  rw [hquotient]
  simp only [roundHalfEven, ← div_lt_half_iff hd, ← half_lt_div_iff hd]
  split
  · rename_i hless
    rw [add_sub_cancel_left, abs_of_nonneg hrest]
    exact ⟨hless.le, fun htie => absurd htie hless.ne⟩
  split
  · rename_i hmore
    rw [Nat.cast_add_one, add_sub_add_left_eq_sub, abs_sub_comm, abs_of_pos (by linarith)]
    exact ⟨by linarith, fun htie => absurd htie (by linarith)⟩
  · have hhalf : (n % d : Nat) / d = (1 / 2 : ℚ) := le_antisymm (by linarith) (by linarith)
    rw [hhalf]
    split
    · rename_i heven
      rw [add_sub_cancel_left, abs_of_pos one_half_pos]
      exact ⟨le_rfl, fun _ => Nat.even_iff.mpr heven⟩
    · rename_i hodd
      rw [Nat.cast_add_one, add_sub_add_left_eq_sub, abs_sub_comm]
      refine ⟨by norm_num, fun _ => Nat.even_add_one.mpr ?_⟩
      exact fun heven => hodd (Nat.even_iff.mp heven)

/-! ### Numerals -/

/-- A numeral with six decimal places. -/
structure FixedNumeral where
  negative : Bool
  whole : List Char
  places : List Char
  whole_ne_nil : whole ≠ []
  whole_digits : ∀ c ∈ whole, c.isDigit = true
  /-- No superfluous zero stands in front. -/
  whole_head : whole.head? = some '0' → whole = ['0']
  places_digits : ∀ c ∈ places, c.isDigit = true
  length_places : places.length = 6

namespace FixedNumeral

def text (n : FixedNumeral) : String :=
  String.ofList ((if n.negative then ['-'] else []) ++ n.whole ++ '.' :: n.places)

/-- The number without its sign. -/
def magnitude (n : FixedNumeral) : ℚ :=
  Nat.ofDigitChars 10 n.whole 0 + Nat.ofDigitChars 10 n.places 0 / 10 ^ 6

/-- The number that the numeral denotes. -/
def value (n : FixedNumeral) : ℚ := if n.negative then -n.magnitude else n.magnitude

def EndsEven (n : FixedNumeral) : Prop :=
  ∀ c ∈ n.places.getLast?, c ∈ ['0', '2', '4', '6', '8']

/-- The numeral denotes the multiple of a millionth nearest to `x`; if another one is as near, the
numeral ends in an even digit. -/
structure Rounds (n : FixedNumeral) (x : ℚ) : Prop where
  nearest : ∀ k : ℤ, |x - n.value| ≤ |x - k / 10 ^ 6|
  tie : ∀ k : ℤ, k / 10 ^ 6 ≠ n.value → |x - k / 10 ^ 6| = |x - n.value| → n.EndsEven

end FixedNumeral

namespace Text

theorem length_decimalDigits (width n : Nat) : (decimalDigits width n).length = width := by
  induction width generalizing n with
  | zero => rfl
  | succ width ih => simp [decimalDigits, ih]

/-- The character of a digit. -/
theorem ofNat_add_eq_digitChar {d : Nat} (hd : d < 10) :
    Char.ofNat ('0'.toNat + d) = d.digitChar := by
  revert d
  decide

theorem isDigit_of_mem_decimalDigits {width n : Nat} {c : Char} (h : c ∈ decimalDigits width n) :
    c.isDigit = true := by
  induction width generalizing n with
  | zero => cases h
  | succ width ih =>
      rw [decimalDigits, ofNat_add_eq_digitChar (Nat.mod_lt n (by decide)), List.mem_append,
        List.mem_singleton] at h
      rcases h with h | rfl
      · exact ih h
      · simp [Nat.isDigit_digitChar, Nat.mod_lt n]

theorem ofDigitChars_decimalDigits (width n : Nat) :
    Nat.ofDigitChars 10 (decimalDigits width n) 0 = n % 10 ^ width := by
  induction width generalizing n with
  | zero => simp [decimalDigits, Nat.mod_one]
  | succ width ih =>
      rw [decimalDigits, ofNat_add_eq_digitChar (Nat.mod_lt n (by decide)),
        Nat.ofDigitChars_append, ih,
        Nat.ofDigitChars_cons_digitChar_of_lt_ten (Nat.mod_lt n (by decide)),
        Nat.ofDigitChars_nil, Nat.pow_succ', Nat.mod_mul, Nat.add_comm]

/-- A numeral does not start with a zero, unless it is zero. -/
theorem head?_toDigits {n : Nat} (h : (Nat.toDigits 10 n).head? = some '0') : n = 0 := by
  induction n using Nat.strongRecOn with
  | ind n ih =>
      by_cases hn : n < 10
      · rw [Nat.toDigits_of_lt_base hn] at h
        simpa using h
      · rw [Nat.toDigits_of_base_le (by decide) (Nat.not_lt.mp hn),
          List.head?_append_of_ne_nil _ Nat.toDigits_ne_nil] at h
        have hzero : n / 10 = 0 := ih (n / 10) (by omega) h
        omega

end Text

namespace FixedNumeral

/-- The numeral of so many millionths. -/
def ofMillionths (negative : Bool) (m : Nat) : FixedNumeral where
  negative
  whole := Nat.toDigits 10 (m / 1000000)
  places := Text.decimalDigits 6 (m % 1000000)
  whole_ne_nil := Nat.toDigits_ne_nil
  whole_digits _ := Nat.isDigit_of_mem_toDigits (by decide) (by decide)
  whole_head h := by rw [Text.head?_toDigits h, Nat.toDigits_zero]
  places_digits _ := Text.isDigit_of_mem_decimalDigits
  length_places := Text.length_decimalDigits _ _

theorem text_ofMillionths (negative : Bool) (m : Nat) : (ofMillionths negative m).text =
    (if negative then "-" else "") ++ toString (m / 1000000) ++ "." ++
      String.ofList (Text.decimalDigits 6 (m % 1000000)) := by
  apply String.toList_injective
  cases negative <;> simp [text, ofMillionths]

theorem magnitude_ofMillionths (negative : Bool) (m : Nat) :
    (ofMillionths negative m).magnitude = m / 10 ^ 6 := by
  have hsplit : (m : ℚ) = 1000000 * (m / 1000000 : Nat) + (m % 1000000 : Nat) := by
    exact_mod_cast (Nat.div_add_mod m 1000000).symm
  simp only [magnitude, ofMillionths, Nat.ofDigitChars_ten_toDigits,
    Text.ofDigitChars_decimalDigits, Nat.reducePow, Nat.mod_mod]
  rw [hsplit]
  ring

/-- The number of millionths with the sign of the numeral. -/
theorem value_ofMillionths (negative : Bool) (m : Nat) :
    (ofMillionths negative m).value = ((if negative then -m else m : ℤ) : ℚ) / 10 ^ 6 := by
  rw [value, magnitude_ofMillionths]
  cases negative
  · simp [ofMillionths]
  · simp [ofMillionths, neg_div]

theorem endsEven_ofMillionths {m : Nat} (h : Even m) (negative : Bool) :
    (ofMillionths negative m).EndsEven := by
  intro c hc
  have hlast : Char.ofNat ('0'.toNat + m % 1000000 % 10) = c := by
    simpa [ofMillionths, Text.decimalDigits] using hc
  have hdigit : m % 1000000 % 10 < 10 := Nat.mod_lt _ (by decide)
  have heven : m % 1000000 % 10 % 2 = 0 := by
    have := Nat.even_iff.mp h
    omega
  rw [← hlast]
  revert hdigit heven
  generalize m % 1000000 % 10 = d
  revert d
  decide

theorem abs_sub_millionths (x : ℚ) (k : ℤ) : |x - k / 10 ^ 6| = |x * 10 ^ 6 - k| / 10 ^ 6 := by
  have hscale : x - k / 10 ^ 6 = (x * 10 ^ 6 - k) / 10 ^ 6 := by field_simp
  rw [hscale, abs_div, abs_of_pos (by positivity : (0 : ℚ) < 10 ^ 6)]

/-- The numeral of a rounded count of millionths. -/
theorem rounds_ofMillionths {x : ℚ} {m : Nat} (hnear : |x * 10 ^ 6 - m| ≤ 1 / 2)
    (htie : |x * 10 ^ 6 - m| = 1 / 2 → Even m) (negative : Bool) :
    (ofMillionths negative m).Rounds (if negative then -x else x) := by
  have hsign : |(if negative then -x else x) * 10 ^ 6 - (if negative then -m else m : ℤ)| =
      |x * 10 ^ 6 - m| := by
    cases negative
    · simp
    · simp [abs_sub_comm, neg_add_eq_sub]
  rw [← hsign] at hnear htie
  refine ⟨fun k => ?_, fun k hk heq => ?_⟩
  all_goals rw [value_ofMillionths] at *
  · rw [abs_sub_millionths, abs_sub_millionths]
    exact div_le_div_of_nonneg_right (abs_sub_le_of_le_half hnear k).1 (by positivity)
  · rw [abs_sub_millionths, abs_sub_millionths, div_left_inj' (by positivity)] at heq
    refine endsEven_ofMillionths (htie ((abs_sub_le_of_le_half hnear k).2 ?_ heq)) negative
    rintro rfl
    exact hk rfl

end FixedNumeral

/-! ### Bit patterns -/

namespace Binary32

variable {f : Binary32}

/-- The exact number without its sign: the fraction counts parts of `2 ^ 23`, on top of a leading
one unless the number is subnormal. -/
def magnitude (f : Binary32) : ℚ :=
  if f.exponent = 0 then f.fraction / 2 ^ 23 * 2 ^ (-126 : ℤ)
  else (1 + f.fraction / 2 ^ 23) * 2 ^ ((f.exponent : ℤ) - 127)

/-- The exact number. -/
def value (f : Binary32) : ℚ := if f.isNegative then -f.magnitude else f.magnitude

theorem magnitude_eq (f : Binary32) :
    f.magnitude = (f.significand * 2 ^ f.scale : Nat) / (2 ^ 149 : Nat) := by
  unfold magnitude significand scale
  split
  · rename_i hzero
    rw [hzero, zpow_neg]
    norm_num
    ring
  · rename_i hpos
    obtain ⟨e, he⟩ := Nat.exists_eq_add_one_of_ne_zero hpos
    have hpower : (2 : ℚ) ^ ((f.exponent : ℤ) - 127) = 2 ^ e / 2 ^ 126 := by
      rw [he, ← zpow_natCast 2 e, ← zpow_natCast 2 126, ← zpow_sub₀ two_ne_zero]
      congr 1
      push_cast
      ring
    rw [hpower, he, Nat.add_sub_cancel]
    push_cast
    ring

theorem millionths_near (f : Binary32) :
    |f.magnitude * 10 ^ 6 - f.millionths| ≤ 1 / 2 ∧
      (|f.magnitude * 10 ^ 6 - f.millionths| = 1 / 2 → Even f.millionths) := by
  have hmillion : (10 : ℚ) ^ 6 = (1000000 : Nat) := by norm_num
  have hquotient : f.magnitude * 10 ^ 6 =
      (f.significand * 2 ^ f.scale * 1000000 : Nat) / (2 ^ 149 : Nat) := by
    rw [magnitude_eq, div_mul_eq_mul_div, hmillion, ← Nat.cast_mul]
  rw [hquotient]
  exact roundHalfEven_near _ (Nat.pow_pos two_pos)

/-- The fields are those of the bit pattern. -/
theorem toNat_bits (f : Binary32) :
    f.bits.toNat = (if f.isNegative then 2 ^ 31 else 0) + f.exponent * 2 ^ 23 + f.fraction := by
  have hlt : f.bits.toNat < 2 ^ 32 := f.bits.toNat_lt
  simp only [isNegative, exponent, fraction, decide_eq_true_eq]
  split <;> omega

/-- **Literals are correctly rounded**: the fields of a bit pattern say which of the names a number
has that is not finite; any other has a numeral with its sign, rounded to six places. -/
theorem literal_correctly_rounded (f : Binary32) :
    f.bits.toNat = (if f.isNegative then 2 ^ 31 else 0) + f.exponent * 2 ^ 23 + f.fraction ∧
    (f.exponent = 255 ∧ f.fraction ≠ 0 → f.literal = "NAN") ∧
    (f.exponent = 255 ∧ f.fraction = 0 →
      f.literal = if f.isNegative then "-INFINITY" else "INFINITY") ∧
    (f.exponent < 255 → ∃ n : FixedNumeral,
      f.literal = n.text ∧ n.negative = f.isNegative ∧ n.Rounds f.value) := by
  refine ⟨toNat_bits f, fun hnan => ?_, fun hinf => ?_, fun hfinite => ?_⟩
  · simp [literal, isNaN, hnan]
  · simp [literal, isNaN, isInfinite, hinf]
  · have hliteral : f.literal = f.fixedText := by
      simp [literal, isNaN, isInfinite, hfinite.ne]
    have htext := FixedNumeral.text_ofMillionths f.isNegative f.millionths
    exact ⟨.ofMillionths f.isNegative f.millionths, hliteral.trans htext.symm, rfl,
      FixedNumeral.rounds_ofMillionths (millionths_near f).1 (millionths_near f).2 _⟩

-- `2 ^ -7` and `3 * 2 ^ -7` lie halfway between two numerals.
example : (⟨0x3C000000⟩ : Binary32).literal = "0.007812" ∧
    (⟨0x3CC00000⟩ : Binary32).literal = "0.023438" := by decide +kernel

/-- A quiet NaN, negative infinity, negative zero and a tie, `2 ^ -7`. -/
theorem literal_correctly_rounded_patterns :
    (⟨0x7FC00000⟩ : Binary32).literal = "NAN" ∧
    (⟨0xFF800000⟩ : Binary32).literal = "-INFINITY" ∧
    (∃ n : FixedNumeral, (⟨0x80000000⟩ : Binary32).literal = n.text ∧ n.negative = true ∧
      n.Rounds (⟨0x80000000⟩ : Binary32).value) ∧
    ∃ n : FixedNumeral, (⟨0x3C000000⟩ : Binary32).literal = n.text ∧ n.negative = false ∧
      n.Rounds (⟨0x3C000000⟩ : Binary32).value :=
  ⟨(literal_correctly_rounded _).2.1 (by decide), (literal_correctly_rounded _).2.2.1 (by decide),
    (literal_correctly_rounded _).2.2.2 (by decide),
    (literal_correctly_rounded _).2.2.2 (by decide)⟩

end Binary32
end GraphLowering
