/-
Module: TsxLint.Value.Equal
Purpose: Equality of dynamic values.
Main exports: Value.equal, Value.same
-/
import TsxLint.Value.Basic

namespace TsxLint

/-!
Two notions of equality are in use.  `Value.equal` compares numbers by their
value, whatever their type, and there a truth value counts as the number one or
zero.  `Value.same` is what a literal in markup is compared with a catalogued
default by: at the top a truth value is never a number.
-/

namespace Value

/-- The number that a numeric value or a truth value stands for. -/
inductive Numeral where
  | int (n : Int)
  | float (x : Binary64)
deriving DecidableEq, Repr

namespace Numeral

/-- Exact numeric equality. -/
def equal : Numeral → Numeral → Bool
  | .int a, .int b => a == b
  | .int a, .float y => y.equalInt a
  | .float x, .int b => x.equalInt b
  | .float x, .float y => x.equal y

end Numeral

/-- The number a value stands for in comparisons, if any. -/
def numeral? : Value → Option Numeral
  | .bool b => some (.int (if b then 1 else 0))
  | .int n => some (.int n)
  | .float x => some (.float x)
  | _ => none

mutual

/-- Equality of values: numbers by value, lists item by item, objects without
regard to the order of members. -/
def equal : Value → Value → Bool
  | .null, w => match w with | .null => true | _ => false
  | .bool b, w => match numeral? w with
    | some m => Numeral.equal (.int (if b then 1 else 0)) m
    | none => false
  | .int n, w => match numeral? w with
    | some m => Numeral.equal (.int n) m
    | none => false
  | .float x, w => match numeral? w with
    | some m => Numeral.equal (.float x) m
    | none => false
  | .str s, w => match w with | .str t => s == t | _ => false
  | .list items, w => match w with | .list others => equalItems items others | _ => false
  | .object members, w => match w with
    | .object others => members.length == others.length && equalMembers members others
    | _ => false

/-- Equality of lists of values. -/
def equalItems : List Value → List Value → Bool
  | [], others => others.isEmpty
  | v :: rest, others => match others with
    | [] => false
    | w :: more => equal v w && equalItems rest more

/-- Whether every member has an equal member under the same key in `others`. -/
def equalMembers : List (String × Value) → List (String × Value) → Bool
  | [], _ => true
  | (key, v) :: rest, others =>
    (match Table.get? others key with
      | some w => equal v w
      | none => false) && equalMembers rest others

end

/-- Equality with a catalogued default: truth values equal truth values only,
null equals null only, numbers are compared by value, and anything else must be
of the same type and equal. -/
def same (left right : Value) : Bool :=
  match left, right with
  | .bool a, .bool b => a == b
  | .bool _, _ => false
  | _, .bool _ => false
  | .null, .null => true
  | .null, _ => false
  | _, .null => false
  | .int a, .int b => a == b
  | .int a, .float y => y.equalInt a
  | .float x, .int b => x.equalInt b
  | .float x, .float y => x.equal y
  | .str s, .str t => s == t
  | .list items, .list others => equalItems items others
  | .object members, .object others => equal (.object members) (.object others)
  | _, _ => false

end Value

end TsxLint
