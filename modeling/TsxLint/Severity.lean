/-
Module: TsxLint.Severity
Purpose: Severities of findings and their order.
Main exports: Severity, Severity.rank, Severity.ofValue
-/
import TsxLint.Fault

namespace TsxLint

/-- How serious a finding is. -/
inductive Severity where
  /-- Breaks the build. -/
  | critical
  /-- Likely a bug or broken markup. -/
  | high
  /-- A structural issue that should be fixed. -/
  | medium
  /-- Style, informational. -/
  | low
deriving DecidableEq, Repr, Inhabited

namespace Severity

/-- Every severity, the most serious first. -/
def all : List Severity := [.critical, .high, .medium, .low]

/-- The name in settings and reports. -/
def name : Severity → String
  | .critical => "critical"
  | .high => "high"
  | .medium => "medium"
  | .low => "low"

/-- Position in the order, the least serious first. -/
def rank : Severity → Nat
  | .low => 0
  | .medium => 1
  | .high => 2
  | .critical => 3

instance : LT Severity := ⟨fun a b => a.rank < b.rank⟩
instance : LE Severity := ⟨fun a b => a.rank ≤ b.rank⟩
instance (a b : Severity) : Decidable (a < b) := inferInstanceAs (Decidable (a.rank < b.rank))
instance (a b : Severity) : Decidable (a ≤ b) := inferInstanceAs (Decidable (a.rank ≤ b.rank))

/-- The severity that a name stands for. -/
def ofName? (name : String) : Option Severity :=
  all.find? fun s => s.name == name

/-- The severity that a value names. -/
def ofValue (given : Value) : Outcome Severity :=
  match given with
  | .str name =>
    match ofName? name with
    | some s => .ok s
    | none => .error (.unknownName "Severity" given)
  | _ => .error (.unknownName "Severity" given)

/-- A severity is found under its own name. -/
@[simp] theorem ofName?_name (s : Severity) : ofName? s.name = some s := by
  cases s <;> decide

end Severity

end TsxLint
