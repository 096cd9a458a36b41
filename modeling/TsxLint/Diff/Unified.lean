/-
Module: TsxLint.Diff.Unified
Purpose: Differences of two texts in unified form.
Main exports: Diff.Change, Diff.changes, Diff.hunks, Diff.unified
-/
import TsxLint.Diff.Matching
import TsxLint.Text.Blank

namespace TsxLint.Diff

/-!
The common runs of two texts, line by line, leave gaps; what fills a gap in the
first text is removed and what fills it in the second is added.  Changes are shown
with up to three unchanged lines on both sides, and changes that are near each
other share a hunk.
-/

/-- A stretch of both texts that is kept, or that differs. -/
structure Change where
  kept : Bool
  leftStart : Nat
  leftStop : Nat
  rightStart : Nat
  rightStop : Nat
deriving DecidableEq, Repr, Inhabited

/-- The stretches between and at the given runs, from `i` and `j` on. -/
def changesFrom (i j : Nat) : List Run → List Change
  | [] => []
  | r :: rest =>
    (if i < r.left ∨ j < r.right then [⟨false, i, r.left, j, r.right⟩] else []) ++
      (if r.size = 0 then []
        else [⟨true, r.left, r.left + r.size, r.right, r.right + r.size⟩]) ++
      changesFrom (r.left + r.size) (r.right + r.size) rest

/-- The stretches of two sequences of lines. -/
def changes (left right : List String) : List Change :=
  changesFrom 0 0 (matchingRuns left right ++ [⟨left.length, right.length, 0⟩])

/-! ### Hunks -/

/-- How many unchanged lines are shown on each side. -/
def context : Nat := 3

/-- The last lines of a kept stretch. -/
def keepEnd (c : Change) : Change :=
  { c with
    leftStart := max c.leftStart (c.leftStop - context)
    rightStart := max c.rightStart (c.rightStop - context) }

/-- The first lines of a kept stretch. -/
def keepBeginning (c : Change) : Change :=
  { c with
    leftStop := min c.leftStop (c.leftStart + context)
    rightStop := min c.rightStop (c.rightStart + context) }

/-- Cuts a kept stretch at the beginning down to its end. -/
def trimFirst : List Change → List Change
  | [] => []
  | c :: rest => (if c.kept then keepEnd c else c) :: rest

/-- Cuts a kept stretch at the end down to its beginning. -/
def trimLast : List Change → List Change
  | [] => []
  | [c] => [if c.kept then keepBeginning c else c]
  | c :: rest => c :: trimLast rest

/-- Splits stretches at long kept ones; `hunk` holds the current hunk. -/
def splitHunks (hunk : List Change) : List Change → List (List Change)
  | [] => [hunk]
  | c :: rest =>
    if c.kept && decide (2 * context < c.leftStop - c.leftStart) then
      (hunk ++ [keepBeginning c]) :: splitHunks [keepEnd c] rest
    else splitHunks (hunk ++ [c]) rest

/-- The hunks of two sequences of lines.  A hunk without a change is none. -/
def hunks (left right : List String) : List (List Change) :=
  (splitHunks [] (trimLast (trimFirst (changes left right)))).filter fun hunk =>
    hunk.any fun c => !c.kept

/-! ### The text -/

/-- A range of lines: where it begins and how long it is, unless it is one line.
An empty range is named by the line before it. -/
def range (start stop : Nat) : String :=
  let length := stop - start
  if length = 1 then toString (start + 1)
  else
    let first := if length = 0 then start else start + 1
    s!"{first},{length}"

/-- Lines with a sign in front. -/
def signed (sign : String) (lines : List String) (start stop : Nat) : List String :=
  ((lines.drop start).take (stop - start)).map (sign ++ ·)

/-- The lines of a stretch. -/
def changeLines (left right : List String) (c : Change) : List String :=
  if c.kept then signed " " left c.leftStart c.leftStop
  else signed "-" left c.leftStart c.leftStop ++ signed "+" right c.rightStart c.rightStop

/-- The line that opens a hunk. -/
def hunkHeader (hunk : List Change) : String :=
  match hunk.head?, hunk.getLast? with
  | some first, some last =>
    "@@ -" ++ range first.leftStart last.leftStop ++
      " +" ++ range first.rightStart last.rightStop ++ " @@\n"
  | _, _ => ""

/-- The differences of two texts under two names; nothing if there are none. -/
def unified (leftName rightName left right : String) : String :=
  let leftLines := (Text.splitLines left.toList).map String.ofList
  let rightLines := (Text.splitLines right.toList).map String.ofList
  match hunks leftLines rightLines with
  | [] => ""
  | found =>
    "--- " ++ leftName ++ "\n+++ " ++ rightName ++ "\n" ++
      String.join (found.map fun hunk =>
        hunkHeader hunk ++ String.join (hunk.flatMap (changeLines leftLines rightLines)))

end TsxLint.Diff
