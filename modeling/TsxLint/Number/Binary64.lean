/-
Module: TsxLint.Number.Binary64
Purpose: Double-precision numbers as bit patterns, with exact reading and rounding.
Main exports: Binary64, Binary64.ofQuotient, Binary64.ofDecimal, Binary64.magnitude
-/

namespace TsxLint

/-!
Settings and number literals may hold double-precision numbers.  They are kept
as their 64 bits and every operation on them is exact integer arithmetic: a
finite number is decoded to a quotient of naturals, and a quotient is rounded
back to the nearest bit pattern, ties going to the even significand.  No
hardware arithmetic takes part, so every value below can be computed in a proof.
-/

/-- A double-precision number, given by its bit pattern. -/
structure Binary64 where
  bits : UInt64
deriving DecidableEq, Repr, Inhabited

namespace Binary64

/-- Whether the sign bit is set.  Zero has a sign too. -/
def negative (x : Binary64) : Bool :=
  decide (Nat.pow 2 63 ≤ x.bits.toNat)

/-- The eleven exponent bits. -/
def exponentField (x : Binary64) : Nat :=
  x.bits.toNat / Nat.pow 2 52 % Nat.pow 2 11

/-- The fifty-two fraction bits. -/
def fractionField (x : Binary64) : Nat :=
  x.bits.toNat % Nat.pow 2 52

/-- Not a number: the largest exponent with a fraction. -/
def isNaN (x : Binary64) : Bool :=
  x.exponentField == 2047 && x.fractionField != 0

/-- An infinity: the largest exponent without a fraction. -/
def isInfinite (x : Binary64) : Bool :=
  x.exponentField == 2047 && x.fractionField == 0

/-- Neither an infinity nor a NaN. -/
def isFinite (x : Binary64) : Bool :=
  x.exponentField != 2047

/-- The integer significand of a finite number. -/
def significand (x : Binary64) : Nat :=
  if x.exponentField = 0 then x.fractionField else Nat.pow 2 52 + x.fractionField

/-- The power of two that goes with `significand`. -/
def power (x : Binary64) : Int :=
  if x.exponentField = 0 then -1074 else (x.exponentField : Int) - 1075

/-- Absolute value of a finite number as numerator and positive denominator. -/
def magnitude (x : Binary64) : Nat × Nat :=
  match x.power with
  | .ofNat p => (x.significand * Nat.pow 2 p, 1)
  | .negSucc p => (x.significand, Nat.pow 2 (p + 1))

/-- Whether a number is one of the two zeros. -/
def isZero (x : Binary64) : Bool :=
  x.isFinite && x.significand == 0

/-! ### Rounding -/

/-- Nearest natural to `num / den`, ties going to the even neighbour. -/
def roundHalfEven (num den : Nat) : Nat :=
  let floor := num / den
  let rest := num % den
  if 2 * rest < den then floor
  else if den < 2 * rest then floor + 1
  else if floor % 2 = 0 then floor else floor + 1

/-- The bits of the positive number nearest to `num / den`, sign excluded.

The exponent is guessed from the binary lengths and corrected by one step, so
that the scaled quotient has fifty-three bits (fewer below the normal range).
A significand that rounds up to the next power of two carries into the exponent
field, which is where it belongs. -/
def roundedBits (num den : Nat) : Nat :=
  let guess : Int := max ((num.log2 : Int) - den.log2 - 53) (-1074)
  let scaled (e : Int) : Nat × Nat :=
    match e with
    | .ofNat p => (num, den * Nat.pow 2 p)
    | .negSucc p => (num * Nat.pow 2 (p + 1), den)
  let e := if Nat.pow 2 53 ≤ (scaled guess).1 / (scaled guess).2 then guess + 1 else guess
  let bits := (e + 1074).toNat * Nat.pow 2 52 + roundHalfEven (scaled e).1 (scaled e).2
  min bits (2047 * Nat.pow 2 52)

/-- The number nearest to `num / den`, negated when `neg` is set.  A quotient
beyond the largest finite number becomes an infinity. -/
def ofQuotient (neg : Bool) (num den : Nat) : Binary64 :=
  let sign := if neg then Nat.pow 2 63 else 0
  ⟨UInt64.ofNat (sign + if num = 0 then 0 else roundedBits num den)⟩

/-- Positive or negative infinity. -/
def infinity (neg : Bool) : Binary64 :=
  ⟨UInt64.ofNat ((if neg then Nat.pow 2 63 else 0) + 2047 * Nat.pow 2 52)⟩

/-- The quiet NaN that text denotes. -/
def nan : Binary64 :=
  ⟨0x7ff8000000000000⟩

/-- How many decimal digits a natural has; zero has none. -/
def decimalLength (n : Nat) : Nat :=
  if n = 0 then 0 else (Nat.toDigits 10 n).length

/-- The number nearest to `digits * 10 ^ exponent`.  Exponents far outside the
range are answered without computing the power. -/
def ofDecimal (neg : Bool) (digits : Nat) (exponent : Int) : Binary64 :=
  let top := (decimalLength digits : Int) + exponent
  if digits = 0 then ofQuotient neg 0 1
  else if 400 < top then infinity neg
  else if top < -400 then ofQuotient neg 0 1
  else
    match exponent with
    | .ofNat p => ofQuotient neg (digits * Nat.pow 10 p) 1
    | .negSucc p => ofQuotient neg digits (Nat.pow 10 (p + 1))

/-- The number nearest to an integer. -/
def ofInt (n : Int) : Binary64 :=
  ofQuotient (decide (n < 0)) n.natAbs 1

/-! ### Comparison -/

/-- Numeric equality: the two zeros agree and a NaN equals nothing. -/
def equal (x y : Binary64) : Bool :=
  !x.isNaN && !y.isNaN && (x.bits == y.bits || x.isZero && y.isZero)

/-- Exact equality with an integer, without rounding the integer. -/
def equalInt (x : Binary64) (n : Int) : Bool :=
  x.isFinite && x.magnitude.1 == n.natAbs * x.magnitude.2 &&
    (n == 0 || x.negative == decide (n < 0))

/-- Whether a number is below a positive natural. -/
def belowNat (x : Binary64) (n : Nat) : Bool :=
  if x.isNaN then false
  else if x.negative then true
  else x.isFinite && decide (x.magnitude.1 < n * x.magnitude.2)

/-- The quotient by a positive natural, rounded once. -/
def divNat (x : Binary64) (n : Nat) : Binary64 :=
  if x.isFinite then ofQuotient x.negative x.magnitude.1 (x.magnitude.2 * n) else x

/-- The sum with one, rounded once. -/
def successor (x : Binary64) : Binary64 :=
  if x.isFinite then
    let sum : Int := (if x.negative then -(x.magnitude.1 : Int) else x.magnitude.1) + x.magnitude.2
    ofQuotient (decide (sum < 0)) sum.natAbs x.magnitude.2
  else x

end Binary64

end TsxLint
