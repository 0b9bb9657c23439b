/-!
# Text — numbers

Reading and writing of the numbers that options and literals hold.
-/

namespace GraphLowering.Text

/-- The value of a decimal digit. -/
def digit? (c : Char) : Option Nat :=
  if '0' ≤ c ∧ c ≤ '9' then some (c.toNat - '0'.toNat) else none

/-- The value of a run of digits, most significant first, after `acc`. -/
def digits? : Nat → List Char → Option Nat
  | acc, [] => some acc
  | acc, c :: cs =>
    match digit? c with
    | some d => digits? (acc * 10 + d) cs
    | none => none

/-- A count below `2 ^ 64`: at least one digit, with an optional plus sign in front. -/
def count? (text : String) : Option Nat :=
  let body := match text.toList with
    | '+' :: cs => cs
    | cs => cs
  if body.isEmpty then none
  else (digits? 0 body).filter (· < 0x10000000000000000)

/-- The hexadecimal digit of `n`, upper case. -/
def hexDigit (n : Nat) : Char :=
  if n < 10 then Char.ofNat ('0'.toNat + n) else Char.ofNat ('A'.toNat + (n - 10))

/-- The last `width` hexadecimal digits of `n`. -/
def hexDigits : Nat → Nat → List Char
  | 0, _ => []
  | width + 1, n => hexDigits width (n / 16) ++ [hexDigit (n % 16)]

/-- The last `width` decimal digits of `n`. -/
def decimalDigits : Nat → Nat → List Char
  | 0, _ => []
  | width + 1, n => decimalDigits width (n / 10) ++ [Char.ofNat ('0'.toNat + n % 10)]

end GraphLowering.Text
