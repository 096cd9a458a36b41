/-
Module: TsxLint.Value.Display
Purpose: The text of dynamic values in messages and plain output.
Main exports: Value.quoted, Value.display
-/
import TsxLint.Value.Basic
import TsxLint.Number.Decimal
import TsxLint.Text.Quoted

namespace TsxLint

/-!
A value inside a message is shown with texts in quotes; on its own a text is
shown bare.  Lists and objects always show their parts quoted.
-/

namespace Value

mutual

/-- The text of a value with texts in quotes. -/
def quoted : Value → String
  | .null => "None"
  | .bool b => if b then "True" else "False"
  | .int n => toString n
  | .float x => x.render .plain
  | .str s => Text.quote s
  | .list items => "[" ++ ", ".intercalate (quotedItems items) ++ "]"
  | .object members => "\x7b" ++ ", ".intercalate (quotedMembers members) ++ "\x7d"

/-- The texts of the items of a list. -/
def quotedItems : List Value → List String
  | [] => []
  | v :: rest => quoted v :: quotedItems rest

/-- The texts of the members of an object. -/
def quotedMembers : List (String × Value) → List String
  | [] => []
  | (key, v) :: rest => (Text.quote key ++ ": " ++ quoted v) :: quotedMembers rest

end

/-- The text of a value on its own: a text stands for itself. -/
def display : Value → String
  | .str s => s
  | v => quoted v

end Value

end TsxLint
