/-
Module: TsxLint.Log.Template
Purpose: Texts with places that arguments are written into.
Main exports: Directive, Template.fill
-/
import TsxLint.Value.Order

namespace TsxLint

/-!
A place in a template begins with a percent sign and ends with a letter, which
says how an argument is written.  Between them there may be a name in brackets, flags,
a width and, behind a point, a precision; a star takes either of those two from the
arguments.  Two percent signs stand for one.  Arguments are used up in order, and all of
them have to be used.
-/

/-- A width or a precision. -/
inductive DirectiveSize where
  | absent
  | given (n : Nat)
  | fromArgument
deriving DecidableEq, Repr

/-- What stands between the percent sign of a place and its last letter. -/
structure Directive where
  name : Option String
  flags : List Char
  width : DirectiveSize
  precision : DirectiveSize
  /-- The last letter; none if the template ends before it. -/
  conversion : Option Char
deriving Repr

namespace Directive

/-! ### Reading -/

/-- The name behind an opening bracket, up to the bracket that closes it, and what
follows. -/
def readName (depth : Nat) : List Char → Outcome (List Char × List Char)
  | [] => .error (.unfilled .unfinishedName)
  | c :: rest => do
    if c = ')' ∧ depth = 0 then pure ([], rest)
    else
      let inner := if c = '(' then depth + 1 else if c = ')' then depth - 1 else depth
      let (name, after) ← readName inner rest
      pure (c :: name, after)

/-- The largest width. -/
def widthLimit : Nat := Nat.pow 2 63 - 1

/-- The largest precision. -/
def precisionLimit : Nat := Nat.pow 2 31 - 1

/-- A width or a precision, and what follows.  Without digits it is `empty`. -/
def readSize (what : String) (limit : Nat) (empty : DirectiveSize) (cs : List Char) :
    Outcome (DirectiveSize × List Char) :=
  match cs with
  | '*' :: rest => .ok (.fromArgument, rest)
  | cs =>
    let digits := cs.takeWhile Char.isDigit
    let n := Nat.ofDigitChars 10 digits 0
    if limit < n then .error (.unfilled (.sizeTooLarge what))
    else .ok (if digits.isEmpty then empty else .given n, cs.drop digits.length)

/-- A precision, if there is a point, and what follows. -/
def readPrecision (cs : List Char) : Outcome (DirectiveSize × List Char) :=
  match cs with
  | '.' :: rest => readSize "precision" precisionLimit (.given 0) rest
  | cs => .ok (.absent, cs)

/-- The optional name of a place, and what follows.  There is none unless arguments have
names. -/
def readKey (named : Bool) (cs : List Char) : Outcome (Option String × List Char) :=
  match cs with
  | '(' :: rest =>
    if named then do
      let (name, after) ← readName 0 rest
      pure (some (String.ofList name), after)
    else .error (.unfilled .noNamedArguments)
  | cs => .ok (none, cs)

/-- Flags: left alignment, zeros for padding, a sign always, a space for a plus, and a
mark of the base. -/
def isFlag (c : Char) : Bool := ['-', '0', '+', ' ', '#'].contains c

/-- The place behind a percent sign, and what follows it. -/
def read (named : Bool) (cs : List Char) : Outcome (Directive × List Char) := do
  let (name, afterName) ← readKey named cs
  let flags := afterName.takeWhile isFlag
  let (width, afterWidth) ← readSize "width" widthLimit .absent (afterName.drop flags.length)
  let (precision, afterPrecision) ← readPrecision afterWidth
  let rest :=
    match afterPrecision with
    | 'h' :: rest | 'l' :: rest | 'L' :: rest => rest
    | rest => rest
  pure (⟨name, flags, width, precision, rest.head?⟩, rest.drop 1)

/-! ### Writing -/

/-- A text with every character outside of ASCII escaped. -/
def escaped (s : String) : String :=
  String.ofList (s.toList.flatMap fun c =>
    if c.toNat < 0x80 then [c]
    else if c.toNat < 0x100 then '\\' :: 'x' :: Text.hexDigits 2 c.toNat
    else if c.toNat < 0x10000 then '\\' :: 'u' :: Text.hexDigits 4 c.toNat
    else '\\' :: 'U' :: Text.hexDigits 8 c.toNat)

/-- Whether a letter stands for integers only. -/
def takesIntegers (letter : Char) : Bool := ['x', 'X', 'o'].contains letter

/-- The integer that a value is written as; fractions are cut off. -/
def integerOf (letter : Char) (v : Value) : Outcome Int :=
  match v.numeral? with
  | some (.int n) => .ok n
  | some (.float x) =>
    if takesIntegers letter then .error (.unfilled (.notNumber letter v.typeName))
    else if x.isFinite then
      let whole : Int := x.magnitude.1 / x.magnitude.2
      .ok (if x.negative then -whole else whole)
    else .error (.unfilled (if x.isNaN then .notInteger else .tooLarge))
  | none => .error (.unfilled (.notNumber letter v.typeName))

/-- The double that a value is written as. -/
def doubleOf (letter : Char) (v : Value) : Outcome Binary64 :=
  match v.numeral? with
  | some (.int n) =>
    let x := Binary64.ofInt n
    if x.isFinite then .ok x else .error (.unfilled .tooLarge)
  | some (.float x) => .ok x
  | none => .error (.unfilled (.notNumber letter v.typeName))

/-- The character that a value is written as. -/
def characterOf (letter : Char) (v : Value) : Outcome String :=
  match v, v.numeral? with
  | .str s, _ =>
    if s.length = 1 then .ok s else .error (.unfilled (.notNumber letter v.typeName))
  | _, some (.int n) =>
    if 0 ≤ n ∧ n < 0x110000 then .ok (String.singleton (Char.ofNat n.toNat))
    else .error (.unfilled .tooLarge)
  | _, _ => .error (.unfilled (.notNumber letter v.typeName))

/-- The base that a letter stands for. -/
def baseOf (letter : Char) : Nat :=
  match letter with
  | 'o' => 8
  | 'x' | 'X' => 16
  | _ => 10

/-- A text in capitals, if the letter is one. -/
def inCaseOf (letter : Char) (cs : List Char) : String :=
  String.ofList (if letter.isUpper then cs.map Char.toUpper else cs)

/-- The mark of the base that a letter stands for, if it is asked for. -/
def baseMark (d : Directive) (letter : Char) : String :=
  if d.flags.contains '#' && baseOf letter != 10 then String.ofList ['0', letter] else ""

/-- The sign of a number. -/
def sign (d : Directive) (negative : Bool) : String :=
  if negative then "-"
  else if d.flags.contains '+' then "+"
  else if d.flags.contains ' ' then " "
  else ""

/-- What is written for an argument: what goes in front of padding zeros, the rest, and
whether there may be any. -/
structure Piece where
  lead : String
  body : String
  isNumber : Bool

/-- A text as far as a precision lets it. -/
def textPiece (precision : Option Nat) (s : String) : Piece :=
  ⟨"", match precision with
    | some n => String.ofList (s.toList.take n)
    | none => s, false⟩

/-- An integer with at least as many digits as the precision says. -/
def integerPiece (d : Directive) (letter : Char) (precision : Option Nat) (n : Int) : Piece :=
  ⟨d.sign (decide (n < 0)) ++ d.baseMark letter,
    inCaseOf letter (padZeros (precision.getD 1) (Nat.toDigits (baseOf letter) n.natAbs)), true⟩

/-- A double with as many places as the precision says. -/
def doublePiece (d : Directive) (letter : Char) (precision : Option Nat) (x : Binary64) : Piece :=
  let places := precision.getD 6
  let digits := (x.fixed places).toList.dropWhile (· == '-')
  let point := if places = 0 && x.isFinite && d.flags.contains '#' then ['.'] else []
  ⟨d.sign (x.negative && !x.isNaN), inCaseOf letter (digits ++ point), true⟩

/-- What an argument is written as, without regard to the width; none if the letter means
nothing. -/
def piece (d : Directive) (letter : Char) (precision : Option Nat) (v : Value) :
    Outcome (Option Piece) :=
  match letter with
  | 's' => .ok (some (textPiece precision v.display))
  | 'r' => .ok (some (textPiece precision v.quoted))
  | 'a' => .ok (some (textPiece precision (escaped v.quoted)))
  | 'c' => (characterOf letter v).map fun s => some (textPiece none s)
  | 'd' | 'i' | 'u' | 'x' | 'X' | 'o' =>
    (integerOf letter v).map fun n => some (d.integerPiece letter precision n)
  | 'f' | 'F' => (doubleOf letter v).map fun x => some (d.doublePiece letter precision x)
  | _ => .ok none

/-- A written argument at a width. -/
def padded (d : Directive) (width : Nat) (leftAligned : Bool) (p : Piece) : String :=
  let missing := width - (p.lead.length + p.body.length)
  if leftAligned then p.lead ++ p.body ++ String.ofList (List.replicate missing ' ')
  else if p.isNumber && d.flags.contains '0' then
    p.lead ++ String.ofList (List.replicate missing '0') ++ p.body
  else String.ofList (List.replicate missing ' ') ++ p.lead ++ p.body

end Directive

/-! ### Filling -/

/-- Arguments: those in order that are not used up yet, and those with names. -/
structure TemplateArguments where
  inOrder : List Value
  named : Option Options
deriving Repr

namespace TemplateArguments

/-- The arguments of a template.  A single object that is not empty names its members. -/
def ofList (arguments : List Value) : TemplateArguments :=
  match arguments with
  | [.object members] => ⟨arguments, if members.isEmpty then none else some members⟩
  | _ => ⟨arguments, none⟩

/-- The next argument. -/
def next (a : TemplateArguments) : Outcome (Value × TemplateArguments) :=
  match a.inOrder with
  | [] => .error (.unfilled .tooFewArguments)
  | v :: rest => .ok (v, { a with inOrder := rest })

/-- Makes the argument with a name the next one. -/
def choose (a : TemplateArguments) (name : Option String) : Outcome TemplateArguments :=
  match name, a.named with
  | none, _ => .ok a
  | some _, none => .error (.unfilled .noNamedArguments)
  | some key, some named => do
    let v ← Options.need named key
    pure { a with inOrder := [v] }

/-- A width or a precision, and the arguments behind it. -/
def size (a : TemplateArguments) (limit : Nat) (s : DirectiveSize) :
    Outcome (Option Int × TemplateArguments) :=
  match s with
  | .absent => .ok (none, a)
  | .given n => .ok (some n, a)
  | .fromArgument => do
    let (v, rest) ← a.next
    match v.numeral? with
    | some (.int n) =>
      if limit < n.natAbs then throw (.unfilled .tooLarge) else pure (some n, rest)
    | _ => throw (.unfilled (.notNumber '*' v.typeName))

end TemplateArguments

namespace Template

/-- What a place is written as, and the arguments behind it.  The index is that of the
place's last character, for complaints. -/
def fillPlace (d : Directive) (index : Nat) (a : TemplateArguments) :
    Outcome (String × TemplateArguments) := do
  let chosen ← a.choose d.name
  let (width, afterWidth) ← chosen.size Directive.widthLimit d.width
  let (precision, afterPrecision) ← afterWidth.size Directive.precisionLimit d.precision
  match d.conversion with
  | none => throw (.unfilled .unfinished)
  | some letter =>
    let (v, rest) ← afterPrecision.next
    match ← d.piece letter (precision.map Int.toNat) v with
    | none => throw (.unfilled (.unknownConversion letter index))
    | some p =>
      let w := width.getD 0
      pure (d.padded w.natAbs (d.flags.contains '-' || decide (w < 0)) p, rest)

/-- Fills what is left of a template of `length` characters, after leaving out `skip` of
them. -/
def fillFrom (length skip : Nat) (a : TemplateArguments) :
    List Char → Outcome (List Char × TemplateArguments)
  | [] => .ok ([], a)
  | c :: rest => do
    match skip with
    | k + 1 => fillFrom length k a rest
    | 0 =>
      if c ≠ '%' then
        let (filled, left) ← fillFrom length 0 a rest
        pure (c :: filled, left)
      else if rest.head? = some '%' then
        let (filled, left) ← fillFrom length 1 a rest
        pure (c :: filled, left)
      else
        let (d, after) ← Directive.read a.named.isSome rest
        let (text, others) ← fillPlace d (length - after.length - 1) a
        let (filled, left) ← fillFrom length (rest.length - after.length) others rest
        pure (text.toList ++ filled, left)

/-- A template with its arguments written into it. -/
def fill (template : String) (arguments : List Value) : Outcome String := do
  let cs := template.toList
  let (filled, left) ← fillFrom cs.length 0 (.ofList arguments) cs
  if left.inOrder.isEmpty || left.named.isSome then pure (String.ofList filled)
  else throw (.unfilled .tooManyArguments)

end Template

end TsxLint
