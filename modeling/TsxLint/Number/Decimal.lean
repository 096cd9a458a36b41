/-
Module: TsxLint.Number.Decimal
Purpose: Decimal text of numbers: fewest digits that read back, and fixed places.
Main exports: Decimal, Binary64.shortest, DecimalStyle, Binary64.render, Binary64.fixed
-/
import TsxLint.Number.Binary64

namespace TsxLint

/-!
Writing a number has two stages.  `Binary64.shortest` chooses the digits: the
fewest that read back to the same bits and, among those, the nearest.  A
`DecimalStyle` then lays them out: where positional notation ends and how
exponents look is a decision of the output format, not of the digits.
-/

/-- A positive decimal `digits * 10 ^ exponent`. -/
structure Decimal where
  digits : Nat
  exponent : Int
deriving DecidableEq, Repr, Inhabited

namespace Decimal

/-- The number a decimal denotes. -/
def read (d : Decimal) : Binary64 :=
  Binary64.ofDecimal false d.digits d.exponent

/-- The digit characters, most significant first. -/
def chars (d : Decimal) : List Char :=
  Nat.toDigits 10 d.digits

end Decimal

namespace Binary64

/-- The least `k` with `num / den < 10 ^ k`, searched downwards from `1`. -/
def leadingPlaceBelow (num den : Nat) : Nat → Int
  | 0 => -400
  | fuel + 1 => if den ≤ num then 1 else leadingPlaceBelow (num * 10) den fuel - 1

/-- The `k` with `10 ^ (k - 1) ≤ num / den < 10 ^ k`. -/
def leadingPlace (num den : Nat) : Int :=
  if den ≤ num then decimalLength (num / den) else leadingPlaceBelow num den 400

/-- The decimals with last place `10 ^ place` just below and just above
`num / den`, and whether the lower one is the nearer (an exact tie prefers the
even one). -/
def neighbours (num den : Nat) (place : Int) : Decimal × Decimal × Bool :=
  let scaled : Nat × Nat :=
    match place with
    | .ofNat p => (num, den * Nat.pow 10 p)
    | .negSucc p => (num * Nat.pow 10 (p + 1), den)
  let low := scaled.1 / scaled.2
  (⟨low, place⟩, ⟨low + 1, place⟩, roundHalfEven scaled.1 scaled.2 == low)

/-- The candidate with `count` digits that reads back to `x`, the nearer one if
both neighbours do. -/
def candidate (x : Binary64) (lead : Int) (count : Nat) : Option Decimal :=
  let (low, high, preferLow) := neighbours x.magnitude.1 x.magnitude.2 (lead - count)
  let hit (d : Decimal) : Bool := d.read.bits.toNat == x.bits.toNat % Nat.pow 2 63
  match hit low, hit high with
  | true, true => some (if preferLow then low else high)
  | true, false => some low
  | false, true => some high
  | false, false => none

/-- The exact decimal expansion of a finite number. -/
def expansion (x : Binary64) : Decimal :=
  match x.power with
  | .ofNat p => ⟨x.significand * Nat.pow 2 p, 0⟩
  | .negSucc p => ⟨x.significand * Nat.pow 5 (p + 1), .negSucc p⟩

/-- The fewest digits that read back to the absolute value of a finite number. -/
def shortest (x : Binary64) : Decimal :=
  let lead := leadingPlace x.magnitude.1 x.magnitude.2
  ((List.range 17).findSome? fun i => x.candidate lead (i + 1)).getD x.expansion

end Binary64

/-! ### Layout -/

/-- The decisions of a text format for numbers. -/
structure DecimalStyle where
  /-- Positional notation is used from this place of the leading digit on … -/
  lowest : Int
  /-- … up to this one. -/
  highest : Int
  /-- The least number of exponent digits. -/
  exponentDigits : Nat
  nanText : String
  infinityText : String
deriving Repr

/-- Numbers inside messages and plain output. -/
def DecimalStyle.plain : DecimalStyle :=
  ⟨-3, 16, 2, "nan", "inf"⟩

/-- Numbers inside written objects. -/
def DecimalStyle.object : DecimalStyle :=
  ⟨-3, 16, 2, "NaN", "Infinity"⟩

/-- Pads a digit string on the left with zeros. -/
def padZeros (width : Nat) (digits : List Char) : List Char :=
  List.replicate (width - digits.length) '0' ++ digits

namespace Binary64

/-- Digits without trailing zeros, and the place of the decimal point after the
first digit position: `0.d₁d₂… * 10 ^ point`. -/
def digitsAndPoint (d : Decimal) : List Char × Int :=
  let all := d.chars
  ((all.reverse.dropWhile (· == '0')).reverse, (all.length : Int) + d.exponent)

/-- Positional notation, with a point and at least one digit on both sides. -/
def positional (digits : List Char) (point : Int) : List Char :=
  match point with
  | .negSucc p => '0' :: '.' :: List.replicate (p + 1) '0' ++ digits
  | .ofNat p =>
    if p = 0 then '0' :: '.' :: digits
    else
      let whole := digits.take p ++ List.replicate (p - digits.length) '0'
      let rest := digits.drop p
      whole ++ '.' :: (if rest.isEmpty then ['0'] else rest)

/-- Scientific notation with a signed exponent of at least two digits. -/
def scientific (style : DecimalStyle) (digits : List Char) (point : Int) : List Char :=
  let rest := digits.drop 1
  let exponent := point - 1
  digits.take 1 ++ (if rest.isEmpty then [] else '.' :: rest) ++
    'e' :: (if exponent < 0 then '-' else '+') ::
      padZeros style.exponentDigits (Nat.toDigits 10 exponent.natAbs)

/-- The text of a number: shortest digits laid out by `style`. -/
def render (style : DecimalStyle) (x : Binary64) : String :=
  if x.isNaN then style.nanText
  else
    let sign := if x.negative then "-" else ""
    if x.isInfinite then sign ++ style.infinityText
    else if x.isZero then sign ++ "0.0"
    else
      let (digits, point) := digitsAndPoint x.shortest
      let body :=
        if style.lowest ≤ point ∧ point ≤ style.highest then positional digits point
        else scientific style digits point
      sign ++ String.ofList body

/-- The text with a fixed number of places, rounded once from the exact value,
ties to even.  The sign is kept when the rounded value is zero. -/
def fixed (places : Nat) (x : Binary64) : String :=
  if x.isNaN then "nan"
  else
    let sign := if x.negative then "-" else ""
    if x.isInfinite then sign ++ "inf"
    else
      let units := roundHalfEven (x.magnitude.1 * Nat.pow 10 places) x.magnitude.2
      let whole := toString (units / Nat.pow 10 places)
      if places = 0 then sign ++ whole
      else
        sign ++ whole ++ "." ++
          String.ofList (padZeros places (Nat.toDigits 10 (units % Nat.pow 10 places)))

end Binary64

end TsxLint
