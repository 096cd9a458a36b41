/-
Module: TsxLint.Value.Basic
Purpose: Dynamic values: the contents of settings files, rule options and literals.
Main exports: Value, Value.truthy, Value.typeName, Value.get?
-/
import TsxLint.Number.Binary64
import TsxLint.Table

namespace TsxLint

/-!
Settings files and rule options are open-ended: a rule receives whatever was
written for it.  One dynamic type holds such values.  Objects keep their members
in order, and integers and double-precision numbers stay apart.
-/

/-- A dynamic value. -/
inductive Value where
  | null
  | bool (b : Bool)
  | int (n : Int)
  | float (x : Binary64)
  | str (s : String)
  | list (items : List Value)
  | object (members : List (String × Value))
deriving Repr, Inhabited

namespace Value

/-! ### Deciding equality -/

mutual

/-- Whether two values are written alike. -/
def alike : Value → Value → Bool
  | .null, .null => true
  | .bool a, .bool b => a == b
  | .int m, .int n => m == n
  | .float x, .float y => x == y
  | .str s, .str t => s == t
  | .list items, .list others => alikeItems items others
  | .object members, .object others => alikeMembers members others
  | _, _ => false

/-- Whether two lists of values are written alike. -/
def alikeItems : List Value → List Value → Bool
  | [], [] => true
  | v :: rest, w :: others => alike v w && alikeItems rest others
  | _, _ => false

/-- Whether two lists of members are written alike. -/
def alikeMembers : List (String × Value) → List (String × Value) → Bool
  | [], [] => true
  | (key, v) :: rest, (other, w) :: others =>
    key == other && alike v w && alikeMembers rest others
  | _, _ => false

end

mutual

theorem alike_iff (v w : Value) : alike v w = true ↔ v = w := by
  cases v <;> cases w <;> simp [alike]
  case list.list items others => exact alikeItems_iff items others
  case object.object members others => exact alikeMembers_iff members others

theorem alikeItems_iff (vs ws : List Value) : alikeItems vs ws = true ↔ vs = ws := by
  match vs, ws with
  | [], [] => simp [alikeItems]
  | [], _ :: _ => simp [alikeItems]
  | _ :: _, [] => simp [alikeItems]
  | v :: rest, w :: others => simp [alikeItems, alike_iff v w, alikeItems_iff rest others]

theorem alikeMembers_iff (vs ws : List (String × Value)) :
    alikeMembers vs ws = true ↔ vs = ws := by
  match vs, ws with
  | [], [] => simp [alikeMembers]
  | [], _ :: _ => simp [alikeMembers]
  | _ :: _, [] => simp [alikeMembers]
  | (key, v) :: rest, (other, w) :: others =>
    simp [alikeMembers, alike_iff v w, alikeMembers_iff rest others]

end

instance : DecidableEq Value := fun v w => decidable_of_iff _ (alike_iff v w)

/-! ### What values are -/

/-- Whether a value counts as true: everything does but null, false, zeros and
what is empty. -/
def truthy : Value → Bool
  | .null => false
  | .bool b => b
  | .int n => n != 0
  | .float x => !x.isZero
  | .str s => s != ""
  | .list items => !items.isEmpty
  | .object members => !members.isEmpty

/-- The name of a value's type, as messages call it. -/
def typeName : Value → String
  | .null => "NoneType"
  | .bool _ => "bool"
  | .int _ => "int"
  | .float _ => "float"
  | .str _ => "str"
  | .list _ => "list"
  | .object _ => "dict"

/-- The member of an object under a key. -/
def get? (v : Value) (key : String) : Option Value :=
  match v with
  | .object members => Table.get? members key
  | _ => none

/-- An integer value from a natural. -/
def nat (n : Nat) : Value := .int n

/-- A list of texts. -/
def strs (items : List String) : Value := .list (items.map .str)

/-- The value of an optional part, null when it is absent. -/
def ofOption {α : Type} (f : α → Value) : Option α → Value
  | none => .null
  | some a => f a

end Value

end TsxLint
