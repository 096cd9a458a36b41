/-
Module: TsxLint.Text.Quoted
Purpose: Text in quotes, as messages show it.
Main exports: Text.quote
-/
import TsxLint.Text.Printable

namespace TsxLint.Text

/-!
Messages show a text in single quotes, or in double quotes when it holds a
single quote and no double quote.  The chosen quote, backslashes and characters
that do not show are escaped.
-/

/-- The quote that is used unless the text calls for the other one. -/
def singleQuote : Char := '\x27'

/-- The quote for texts that hold a single quote only. -/
def doubleQuote : Char := '\x22'

/-- Lowercase hexadecimal digits, padded to a width. -/
def hexDigits (width n : Nat) : List Char :=
  let digits := Nat.toDigits 16 n
  List.replicate (width - digits.length) '0' ++ digits

/-- One character between `mark`s. -/
def quoteChar (mark c : Char) : List Char :=
  if c == mark || c == '\\' then ['\\', c]
  else if c == '\n' then ['\\', 'n']
  else if c == '\r' then ['\\', 'r']
  else if c == '\t' then ['\\', 't']
  else if isPrintable c then [c]
  else if c.toNat < 0x100 then '\\' :: 'x' :: hexDigits 2 c.toNat
  else if c.toNat < 0x10000 then '\\' :: 'u' :: hexDigits 4 c.toNat
  else '\\' :: 'U' :: hexDigits 8 c.toNat

/-- The quoted form of a text. -/
def quote (s : String) : String :=
  let cs := s.toList
  let mark :=
    if cs.contains singleQuote && !cs.contains doubleQuote then doubleQuote else singleQuote
  String.ofList (mark :: cs.flatMap (quoteChar mark) ++ [mark])

end TsxLint.Text
