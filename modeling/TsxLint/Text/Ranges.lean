/-
Module: TsxLint.Text.Ranges
Purpose: Membership in a table of code point runs.
Main exports: Text.inRuns
-/

namespace TsxLint.Text

/-- A run of code points: first, last and the distance between members. -/
abbrev Run := Nat × Nat × Nat

/-- Whether a code point belongs to one of the runs. -/
def inRuns (runs : List Run) (c : Char) : Bool :=
  runs.any fun (first, last, step) =>
    first ≤ c.toNat && c.toNat ≤ last && (c.toNat - first) % step == 0

end TsxLint.Text
