/-
Module: TsxLint.Json.Reader
Purpose: Reading JSON text into dynamic values.
Main exports: Json.read, JsonError, JsonError.message
-/
import TsxLint.Value.Basic
import TsxLint.Number.Decimal

namespace TsxLint

/-!
The reader accepts JSON together with `NaN`, `Infinity` and `-Infinity`.  A
number with a fraction or an exponent is a double-precision number, any other is
an integer of any size.  When a key is repeated the last value wins and the
first position is kept.  Every failure names one problem and the place where it
was noticed, counted in characters.
-/

/-- Why a text is not JSON. -/
inductive JsonError where
  /-- A problem at a character offset, with its line and column from one. -/
  | malformed (problem : String) (line column offset : Nat)
  /-- An integer with more digits than the limit. -/
  | longInteger (digits : Nat)
deriving DecidableEq, Repr, Inhabited

/-- The longest integer that is read, in digits. -/
def JsonError.digitLimit : Nat := 4300

/-- One line that names the problem and its place. -/
def JsonError.message : JsonError → String
  | .malformed problem line column offset =>
    s!"{problem}: line {line} column {column} (char {offset})"
  | .longInteger digits =>
    s!"Exceeds the limit ({digitLimit} digits) for integer string conversion: value has " ++
      s!"{digits} digits; use sys.set_int_max_str_digits() to increase the limit"

namespace Json

/-- A failure while reading: the problem and the text that was left. -/
inductive Failure where
  | at (problem : String) (left : List Char)
  | longInteger (digits : Nat)

/-- The result of reading one part: what was read and the text that is left. -/
abbrev Read (α : Type) := Except Failure (α × List Char)

/-- Blank characters between the parts of a JSON text. -/
def isGap (c : Char) : Bool :=
  c == ' ' || c == '\t' || c == '\n' || c == '\r'

/-- Skips blank characters. -/
def skip (cs : List Char) : List Char := cs.dropWhile isGap

/-! ### Texts -/

/-- The value of a hexadecimal digit. -/
def hexValue? (c : Char) : Option Nat :=
  if c.isDigit then some (c.toNat - 48)
  else if 'a' ≤ c && c ≤ 'f' then some (c.toNat - 87)
  else if 'A' ≤ c && c ≤ 'F' then some (c.toNat - 55)
  else none

/-- The code unit written by four hexadecimal digits. -/
def unit? (cs : List Char) : Option Nat :=
  match cs with
  | [a, b, c, d] => do
    let a ← hexValue? a
    let b ← hexValue? b
    let c ← hexValue? c
    let d ← hexValue? d
    pure (((a * 16 + b) * 16 + c) * 16 + d)
  | _ => none

/-- What one escape stands for after the backslash, and how many characters it
takes.  A pair of surrogate units is one character; an unpaired one cannot be
kept and becomes the replacement character.  `mark` is the text from the
backslash on. -/
def escape (mark : List Char) (cs : List Char) : Except Failure (Char × Nat) :=
  match cs with
  | 'u' :: rest =>
    if rest.length < 5 then .error (.at "Invalid \\uXXXX escape" cs)
    else
      match unit? (rest.take 4) with
      | none => .error (.at "Invalid \\uXXXX escape" cs)
      | some high =>
        let after := rest.drop 4
        if 0xd800 ≤ high && high < 0xdc00 then
          match after with
          | '\\' :: 'u' :: more =>
            if more.length < 5 then .ok (Char.ofNat 0xfffd, 5)
            else
              match unit? (more.take 4) with
              | none => .error (.at "Invalid \\uXXXX escape" ('u' :: more))
              | some low =>
                if 0xdc00 ≤ low && low < 0xe000 then
                  .ok (Char.ofNat (0x10000 + (high - 0xd800) * 0x400 + (low - 0xdc00)), 11)
                else .ok (Char.ofNat 0xfffd, 5)
          | _ => .ok (Char.ofNat 0xfffd, 5)
        else if 0xdc00 ≤ high && high < 0xe000 then .ok (Char.ofNat 0xfffd, 5)
        else .ok (Char.ofNat high, 5)
  | 'b' :: _ => .ok ('\x08', 1)
  | 'f' :: _ => .ok ('\x0c', 1)
  | 'n' :: _ => .ok ('\n', 1)
  | 'r' :: _ => .ok ('\r', 1)
  | 't' :: _ => .ok ('\t', 1)
  | c :: _ =>
    if c == '\x22' || c == '\\' || c == '/' then .ok (c, 1)
    else .error (.at "Invalid \\escape" mark)
  | [] => .error (.at "Invalid \\escape" mark)

/-- The rest of a text after its opening quote.  `start` is the text from that
quote on; `skipped` characters belong to an escape that was read already. -/
def text (start : List Char) (done : List Char) : (skipped : Nat) → List Char → Read String
  | _, [] => .error (.at "Unterminated string starting at" start)
  | skipped + 1, _ :: rest => text start done skipped rest
  | 0, c :: rest =>
    if c == '\x22' then .ok (String.ofList done.reverse, rest)
    else if c == '\\' then
      if rest.isEmpty then .error (.at "Unterminated string starting at" start)
      else
        match escape (c :: rest) rest with
        | .error e => .error e
        | .ok (value, width) => text start (value :: done) width rest
    else if c.toNat < 0x20 then .error (.at "Invalid control character at" (c :: rest))
    else text start (c :: done) 0 rest

/-! ### Numbers -/

/-- The natural that decimal digits write. -/
def digitsValue (cs : List Char) : Nat :=
  cs.foldl (fun n c => n * 10 + (c.toNat - 48)) 0

/-- The parts of a number: digits before the point, digits after it if there is
a point, the exponent if there is one, and the text that is left. -/
structure NumberParts where
  whole : List Char
  fraction : Option (List Char)
  exponent : Option Int
  left : List Char

/-- The fraction at the head of a text: a point and at least one digit. -/
def fraction? (cs : List Char) : Option (List Char × List Char) :=
  match cs with
  | '.' :: rest =>
    let digits := rest.takeWhile Char.isDigit
    if digits.isEmpty then none else some (digits, rest.dropWhile Char.isDigit)
  | _ => none

/-- The exponent at the head of a text: a mark, a sign or none, and digits. -/
def exponent? (cs : List Char) : Option (Int × List Char) :=
  let digitsOf (neg : Bool) (rest : List Char) : Option (Int × List Char) :=
    let digits := rest.takeWhile Char.isDigit
    if digits.isEmpty then none
    else
      let n : Int := digitsValue digits
      some (if neg then -n else n, rest.dropWhile Char.isDigit)
  match cs with
  | c :: rest =>
    if c == 'e' || c == 'E' then
      match rest with
      | '-' :: more => digitsOf true more
      | '+' :: more => digitsOf false more
      | more => digitsOf false more
    else none
  | [] => none

/-- The number at the head of a text, its sign removed. -/
def numberParts? (cs : List Char) : Option NumberParts :=
  let whole? : Option (List Char × List Char) :=
    match cs with
    | '0' :: rest => some (['0'], rest)
    | c :: rest =>
      if c.isDigit then some (c :: rest.takeWhile Char.isDigit, rest.dropWhile Char.isDigit)
      else none
    | [] => none
  match whole? with
  | none => none
  | some (whole, afterWhole) =>
    let (fraction, afterFraction) :=
      match fraction? afterWhole with
      | some (digits, left) => (some digits, left)
      | none => (none, afterWhole)
    match exponent? afterFraction with
    | some (e, left) => some ⟨whole, fraction, some e, left⟩
    | none => some ⟨whole, fraction, none, afterFraction⟩

/-- The value of a number with the given sign. -/
def numberValue (neg : Bool) (parts : NumberParts) : Except Failure Value :=
  match parts.fraction, parts.exponent with
  | none, none =>
    if JsonError.digitLimit < parts.whole.length then .error (.longInteger parts.whole.length)
    else
      let n : Int := digitsValue parts.whole
      .ok (.int (if neg then -n else n))
  | fraction, exponent =>
    let places := fraction.getD []
    .ok (.float (Binary64.ofDecimal neg (digitsValue (parts.whole ++ places))
      (exponent.getD 0 - places.length)))

/-- A word or a number at the head of a text. -/
def scalar (cs : List Char) : Read Value :=
  let word (expected : String) (value : Value) : Read Value :=
    if expected.toList.isPrefixOf cs then .ok (value, cs.drop expected.length)
    else .error (.at "Expecting value" cs)
  let number (neg : Bool) (body : List Char) : Read Value :=
    match numberParts? body with
    | none => .error (.at "Expecting value" cs)
    | some parts => (numberValue neg parts).map fun v => (v, parts.left)
  match cs with
  | 'n' :: _ => word "null" .null
  | 't' :: _ => word "true" (.bool true)
  | 'f' :: _ => word "false" (.bool false)
  | 'N' :: _ => word "NaN" (.float .nan)
  | 'I' :: _ => word "Infinity" (.float (.infinity false))
  | '-' :: 'I' :: _ => word "-Infinity" (.float (.infinity true))
  | '-' :: body => number true body
  | body => number false body

/-! ### Lists and objects -/

mutual

/-- The value at the head of a text.  `fuel` bounds the nesting and the number
of parts; twice the length of the text is always enough, since every two steps
take a character. -/
def value (fuel : Nat) (cs : List Char) : Read Value :=
  match fuel with
  | 0 => .error (.at "Expecting value" cs)
  | fuel + 1 =>
    match cs with
    | [] => .error (.at "Expecting value" cs)
    | c :: rest =>
      if c == '\x22' then
        match text cs [] 0 rest with
        | .error e => .error e
        | .ok (s, left) => .ok (.str s, left)
      else if c == '\x5b' then
        match skip rest with
        | ']' :: left => .ok (.list [], left)
        | body => items fuel [] body
      else if c == '\x7b' then
        match skip rest with
        | '\x7d' :: left => .ok (.object [], left)
        | body => members fuel [] body
      else scalar cs

/-- The items of a list up to its closing bracket. -/
def items (fuel : Nat) (done : List Value) (cs : List Char) : Read Value :=
  match fuel with
  | 0 => .error (.at "Expecting value" cs)
  | fuel + 1 =>
    match value fuel cs with
    | .error e => .error e
    | .ok (v, left) =>
      match skip left with
      | ']' :: left => .ok (.list (v :: done).reverse, left)
      | ',' :: left => items fuel (v :: done) (skip left)
      | left => .error (.at "Expecting ',' delimiter" left)

/-- The members of an object up to its closing brace. -/
def members (fuel : Nat) (done : Table Value) (cs : List Char) : Read Value :=
  match fuel with
  | 0 => .error (.at "Expecting value" cs)
  | fuel + 1 =>
    match cs with
    | '\x22' :: rest =>
      match text cs [] 0 rest with
      | .error e => .error e
      | .ok (key, left) =>
        match skip left with
        | ':' :: left =>
          match value fuel (skip left) with
          | .error e => .error e
          | .ok (v, left) =>
            match skip left with
            | '\x7d' :: left => .ok (.object (Table.put done key v), left)
            | ',' :: left => members fuel (Table.put done key v) (skip left)
            | left => .error (.at "Expecting ',' delimiter" left)
        | left => .error (.at "Expecting ':' delimiter" left)
    | cs => .error (.at "Expecting property name enclosed in double quotes" cs)

end

/-- A failure with its place worked out from the whole text. -/
def Failure.locate (whole : List Char) : Failure → JsonError
  | .longInteger digits => .longInteger digits
  | .at problem left =>
    let offset := whole.length - left.length
    let before := whole.take offset
    let column := (before.reverse.takeWhile (· != '\n')).length + 1
    .malformed problem (before.count '\n' + 1) column offset

/-- The value that a whole text writes. -/
def read (s : String) : Except JsonError Value :=
  let cs := s.toList
  match cs with
  | '\ufeff' :: _ =>
    .error ((Failure.at "Unexpected UTF-8 BOM (decode using utf-8-sig)" cs).locate cs)
  | _ =>
    match value (2 * cs.length + 2) (skip cs) with
    | .error e => .error (e.locate cs)
    | .ok (v, left) =>
      match skip left with
      | [] => .ok v
      | extra => .error ((Failure.at "Extra data" extra).locate cs)

end Json

end TsxLint
