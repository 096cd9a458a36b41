/-
Module: TsxLint.Value.Order
Purpose: The order of dynamic numbers, and members that have to be there.
Main exports: Value.isBelow, Value.need, Value.needItems
-/
import TsxLint.Value.Equal
import TsxLint.Value.Options

namespace TsxLint

/-!
Numbers are ordered by value, whatever their type, and nothing is rounded on the
way: a finite double is compared as the fraction it denotes.  Nothing is below or
above a NaN.  Values that are no numbers have no order here.
-/

namespace Value.Numeral

/-- A finite number as numerator and positive denominator. -/
def fraction? : Numeral → Option (Int × Nat)
  | .int n => some (n, 1)
  | .float x =>
    if x.isFinite then
      some (if x.negative then -(x.magnitude.1 : Int) else x.magnitude.1, x.magnitude.2)
    else none

/-- Whether a number is an infinity with the given sign. -/
def isInfinity (negative : Bool) : Numeral → Bool
  | .int _ => false
  | .float x => x.isInfinite && x.negative == negative

/-- Whether the first of two numbers is below the second. -/
def isBelow (a b : Numeral) : Bool :=
  match fraction? a, fraction? b with
  | some (p, q), some (r, s) => decide (p * s < r * q)
  | none, some _ => a.isInfinity true
  | some _, none => b.isInfinity false
  | none, none => a.isInfinity true && b.isInfinity false

end Value.Numeral

namespace Value

/-- Whether the first of two values is below the second. -/
def isBelow (a b : Value) : Outcome Bool :=
  match a.numeral?, b.numeral? with
  | some x, some y => .ok (x.isBelow y)
  | _, _ => .error (.notComparable "<" a.typeName b.typeName)

/-- The member of an object that has to be there. -/
def need (v : Value) (name : String) : Outcome Value :=
  match v with
  | .object members =>
    match Table.get? members name with
    | some member => .ok member
    | none => .error (.missingKey name)
  | v => .error (.notIndexable v.typeName)

/-- The items of a value that has to have some. -/
def needItems (v : Value) : Outcome (List Value) :=
  match v.items? with
  | some items => .ok items
  | none => .error (.notIterable v.typeName)

/-- The member of an object, or a stand-in for it. -/
def getD (v : Value) (name : String) (default : Value) : Value :=
  (v.get? name).getD default

end Value

end TsxLint
