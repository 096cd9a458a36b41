/-
Module: TsxLint.Json.Writer
Purpose: Writing dynamic values as JSON text, on one line or indented.
Main exports: Json.compact, Json.indented
-/
import TsxLint.Value.Basic
import TsxLint.Number.Decimal
import TsxLint.Text.Quoted

namespace TsxLint.Json

/-!
Written JSON is pure ASCII: every other character is an escaped code unit, and a
character beyond the basic plane is a pair of them.  On one line a comma and a
colon are followed by a space; indented text puts every part on a line of its
own and leaves empty lists and objects closed up.
-/

/-- One escaped code unit. -/
def escapedUnit (n : Nat) : List Char :=
  '\\' :: 'u' :: Text.hexDigits 4 n

/-- One character inside a written text. -/
def writeChar (c : Char) : List Char :=
  if c == '\x22' || c == '\\' then ['\\', c]
  else if c == '\n' then ['\\', 'n']
  else if c == '\r' then ['\\', 'r']
  else if c == '\t' then ['\\', 't']
  else if c == '\x08' then ['\\', 'b']
  else if c == '\x0c' then ['\\', 'f']
  else if 0x20 ≤ c.toNat && c.toNat < 0x7f then [c]
  else if c.toNat < 0x10000 then escapedUnit c.toNat
  else
    let rest := c.toNat - 0x10000
    escapedUnit (0xd800 + rest / 0x400) ++ escapedUnit (0xdc00 + rest % 0x400)

/-- A text between double quotes. -/
def writeText (s : String) : String :=
  String.ofList ('\x22' :: s.toList.flatMap writeChar ++ ['\x22'])

/-- A value without parts. -/
def writeScalar : Value → String
  | .null => "null"
  | .bool b => if b then "true" else "false"
  | .int n => toString n
  | .float x => x.render .object
  | .str s => writeText s
  | .list _ => "[]"
  | .object _ => "\x7b\x7d"

mutual

/-- A value on one line. -/
def compact : Value → String
  | .list items => "[" ++ ", ".intercalate (compactItems items) ++ "]"
  | .object members => "\x7b" ++ ", ".intercalate (compactMembers members) ++ "\x7d"
  | v => writeScalar v

/-- The items of a list, each on one line. -/
def compactItems : List Value → List String
  | [] => []
  | v :: rest => compact v :: compactItems rest

/-- The members of an object, each on one line. -/
def compactMembers : List (String × Value) → List String
  | [] => []
  | (key, v) :: rest => (writeText key ++ ": " ++ compact v) :: compactMembers rest

end

/-- A line break and the indentation of a depth, two spaces a level. -/
def lineBreak (depth : Nat) : String :=
  String.ofList ('\n' :: List.replicate (2 * depth) ' ')

/-- Parts between brackets, one a line, or closed up when there are none. -/
def bracketed (opening closing : String) (depth : Nat) (parts : List String) : String :=
  if parts.isEmpty then opening ++ closing
  else
    opening ++ lineBreak (depth + 1) ++ (("," ++ lineBreak (depth + 1)).intercalate parts) ++
      lineBreak depth ++ closing

mutual

/-- A value whose parts go on lines of their own, at the given depth. -/
def indentedAt (depth : Nat) : Value → String
  | .list items => bracketed "[" "]" depth (indentedItems (depth + 1) items)
  | .object members => bracketed "\x7b" "\x7d" depth (indentedMembers (depth + 1) members)
  | v => writeScalar v

/-- The items of a list at the given depth. -/
def indentedItems (depth : Nat) : List Value → List String
  | [] => []
  | v :: rest => indentedAt depth v :: indentedItems depth rest

/-- The members of an object at the given depth. -/
def indentedMembers (depth : Nat) : List (String × Value) → List String
  | [] => []
  | (key, v) :: rest =>
    (writeText key ++ ": " ++ indentedAt depth v) :: indentedMembers depth rest

end

/-- A value over several lines. -/
def indented (v : Value) : String := indentedAt 0 v

end TsxLint.Json
