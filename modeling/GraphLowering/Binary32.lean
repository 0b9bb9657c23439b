import GraphLowering.Text.Number

/-!
# Binary32

Single-precision numbers as bit patterns, and their text with six decimal places.  A finite
number is `± significand · 2 ^ scale / 2 ^ 149`, so its text is one rounded division of natural
numbers: the nearest multiple of a millionth, a tie going to the even one.
-/

namespace GraphLowering

/-- A single-precision number, given by its bit pattern. -/
structure Binary32 where
  bits : UInt32
  deriving DecidableEq, Repr, Inhabited

/-- The nearest natural number to `n / d`, a tie going to the even one. -/
def roundHalfEven (n d : Nat) : Nat :=
  let q := n / d
  let r := n % d
  if 2 * r < d then q
  else if d < 2 * r then q + 1
  else if q % 2 = 0 then q else q + 1

namespace Binary32

/-- The sign bit. -/
def isNegative (f : Binary32) : Bool := 0x80000000 ≤ f.bits.toNat

/-- The biased exponent. -/
def exponent (f : Binary32) : Nat := f.bits.toNat / 0x800000 % 0x100

/-- The stored bits of the significand. -/
def fraction (f : Binary32) : Nat := f.bits.toNat % 0x800000

def isNaN (f : Binary32) : Bool := f.exponent = 255 ∧ f.fraction ≠ 0

def isInfinite (f : Binary32) : Bool := f.exponent = 255 ∧ f.fraction = 0

/-- The significand, with its leading bit unless the number is subnormal. -/
def significand (f : Binary32) : Nat :=
  if f.exponent = 0 then f.fraction else 0x800000 + f.fraction

/-- The last bit of the significand weighs `2 ^ scale / 2 ^ 149`. -/
def scale (f : Binary32) : Nat := f.exponent - 1

/-- The magnitude in millionths, rounded. -/
def millionths (f : Binary32) : Nat :=
  roundHalfEven (f.significand * Nat.pow 2 f.scale * 1000000) (Nat.pow 2 149)

/-- A finite number with six decimal places. -/
def fixedText (f : Binary32) : String :=
  let m := f.millionths
  (if f.isNegative then "-" else "") ++ toString (m / 1000000) ++ "." ++
    String.ofList (Text.decimalDigits 6 (m % 1000000))

/-- The number as a source literal. -/
def literal (f : Binary32) : String :=
  if f.isNaN then "NAN"
  else if f.isInfinite then (if f.isNegative then "-INFINITY" else "INFINITY")
  else f.fixedText

end Binary32
end GraphLowering
