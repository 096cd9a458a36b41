/-
Module: TsxLint.Number.Literal
Purpose: Values of number literals in source text.
Main exports: Literal.readInteger?, Literal.readDecimal?, Literal.readNumber?
-/
import TsxLint.Json.Reader
import TsxLint.Text.Blank
import TsxLint.Text.Digit

namespace TsxLint.Literal

/-!
A literal is read as an integer if it is one: decimal digits, or digits in a
base announced by `0x`, `0o` or `0b`, with single underscores between digits.  A
leading zero is allowed only if every digit is zero.  Anything else is tried as
a decimal number, underscores dropped.  Digits of every script count as decimal
digits, and blanks around the literal are ignored.
-/

/-- A character in the form in which literals are read: digits of other scripts
as ASCII digits, other blanks as spaces. -/
def plainChar (c : Char) : Char :=
  if c.toNat < 127 then c
  else if Text.isBlank c then ' '
  else
    match Text.digitValue? c with
    | some d => Nat.digitChar d
    | none => c

/-- The blanks that may surround a literal. -/
def isMargin (c : Char) : Bool :=
  c == ' ' || (0x9 ≤ c.toNat && c.toNat ≤ 0xd)

/-- The characters of a literal in plain form, without blanks around them. -/
def plainChars (s : String) : List Char :=
  (((s.toList.map plainChar).dropWhile isMargin).reverse.dropWhile isMargin).reverse

/-- The value of a digit in a base. -/
def digitIn? (base : Nat) (c : Char) : Option Nat :=
  match Json.hexValue? c with
  | some d => if d < base then some d else none
  | none => none

/-- The number written by digits with single underscores between them.
`value` is what was read so far and `ready` whether a digit was the last
character. -/
def separatedDigits (base : Nat) (value : Nat) (ready : Bool) : List Char → Option Nat
  | [] => if ready then some value else none
  | c :: rest =>
    if c == '_' then
      if ready then separatedDigits base value false rest else none
    else
      match digitIn? base c with
      | some d => separatedDigits base (value * base + d) true rest
      | none => none

/-- Digits in a base announced by a mark; one underscore may follow the mark. -/
def markedDigits (base : Nat) (cs : List Char) : Option Nat :=
  match cs with
  | '_' :: rest => separatedDigits base 0 false rest
  | cs => separatedDigits base 0 false cs

/-- The natural that an unsigned integer literal writes. -/
def natural? (cs : List Char) : Option Nat :=
  let decimal : Option Nat :=
    if JsonError.digitLimit < (cs.filter (· != '_')).length then none
    else separatedDigits 10 0 false cs
  match cs with
  | '0' :: mark :: rest =>
    if mark == 'x' || mark == 'X' then markedDigits 16 rest
    else if mark == 'o' || mark == 'O' then markedDigits 8 rest
    else if mark == 'b' || mark == 'B' then markedDigits 2 rest
    else decimal.filter (· == 0)
  | _ => decimal

/-- Splits a sign off: whether it is a minus, and the rest. -/
def splitSign (cs : List Char) : Bool × List Char :=
  match cs with
  | '-' :: rest => (true, rest)
  | '+' :: rest => (false, rest)
  | cs => (false, cs)

/-- The integer that a literal writes, if it is an integer literal. -/
def readInteger? (s : String) : Option Int :=
  let (neg, body) := splitSign (plainChars s)
  (natural? body).map fun n => if neg then -(n : Int) else n

/-- The words for numbers that no digits write. -/
def numberWord? (neg : Bool) (cs : List Char) : Option Binary64 :=
  let word := String.ofList (cs.map Char.toLower)
  if word = "inf" || word = "infinity" then some (.infinity neg)
  else if word = "nan" then some (if neg then ⟨0xfff8000000000000⟩ else .nan)
  else none

/-- The number that an unsigned decimal writes: digits with a point among or
beside them, and an exponent or none. -/
def decimal? (neg : Bool) (cs : List Char) : Option Binary64 :=
  let whole := cs.takeWhile Char.isDigit
  let afterWhole := cs.dropWhile Char.isDigit
  let (places, afterPlaces) :=
    match afterWhole with
    | '.' :: rest => (rest.takeWhile Char.isDigit, rest.dropWhile Char.isDigit)
    | rest => ([], rest)
  if whole.isEmpty && places.isEmpty then none
  else
    let number (exponent : Int) : Binary64 :=
      Binary64.ofDecimal neg (Json.digitsValue (whole ++ places)) (exponent - places.length)
    match afterPlaces with
    | [] => some (number 0)
    | rest =>
      match Json.exponent? rest with
      | some (exponent, []) => some (number exponent)
      | _ => none

/-- The number that a literal writes as a decimal. -/
def readDecimal? (s : String) : Option Binary64 :=
  let (neg, body) := splitSign (plainChars (String.ofList (s.toList.filter (· != '_'))))
  (decimal? neg body).or (numberWord? neg body)

/-- The value of a number literal: an integer if it is one, else a decimal. -/
def readNumber? (s : String) : Option Value :=
  match readInteger? s with
  | some n => some (.int n)
  | none => (readDecimal? s).map .float

end TsxLint.Literal
