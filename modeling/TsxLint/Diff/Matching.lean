/-
Module: TsxLint.Diff.Matching
Purpose: Runs that two sequences have in common.
Main exports: Diff.Run, Diff.longestRun, Diff.matchingRuns, Diff.closeMatches
-/

namespace TsxLint.Diff

/-!
Two sequences are compared by their longest common run, the earliest in the first
sequence and then in the second, and then by what lies before and behind it.  In
a long second sequence, items that occur very often do not start a run, but a run
found without them still grows over them.
-/

variable {α : Type} [BEq α]

/-- A run of `size` equal items, from `left` in the first and `right` in the
second sequence. -/
structure Run where
  left : Nat
  right : Nat
  size : Nat
deriving DecidableEq, Repr, Inhabited

/-- A part of both sequences. -/
structure Window where
  leftStart : Nat
  leftStop : Nat
  rightStart : Nat
  rightStop : Nat
deriving DecidableEq, Repr

/-! ### Where items occur -/

/-- The indices at which an item occurs, the first item being at `index`. -/
def occurrences (item : α) (index : Nat) : List α → List Nat
  | [] => []
  | x :: rest =>
    if x == item then index :: occurrences item (index + 1) rest
    else occurrences item (index + 1) rest

/-- Sequences shorter than this have no items that occur too often. -/
def popularityThreshold : Nat := 200

/-- Whether so many occurrences among so many items are too many. -/
def isPopular (count size : Nat) : Bool :=
  decide (popularityThreshold ≤ size) && decide (size / 100 + 1 < count)

/-- Where each item of the first sequence occurs in the second, nowhere if it
occurs too often. -/
def places (left right : List α) : List (List Nat) :=
  left.map fun item =>
    let found := occurrences item 0 right
    if isPopular found.length right.length then [] else found

/-! ### The longest run -/

/-- The length of the run that ends just before `index`, from the lengths of the
runs that end at given indices. -/
def lengthBefore (index : Nat) (lengths : List (Nat × Nat)) : Nat :=
  if index = 0 then 0
  else
    match lengths.find? fun entry => entry.1 == index - 1 with
    | some entry => entry.2
    | none => 0

/-- The lengths of the runs that end at `i` in the first sequence and at one of
the given indices in the second. -/
def extendRuns (lengths : List (Nat × Nat)) (found : List Nat) : List (Nat × Nat) :=
  found.map fun j => (j, lengthBefore j lengths + 1)

/-- The better of the best run so far and those that end at `i`; of equally long
ones the one seen first. -/
def better (i : Nat) (best : Run) (lengths : List (Nat × Nat)) : Run :=
  lengths.foldl (fun best entry =>
    if best.size < entry.2 then ⟨i + 1 - entry.2, entry.1 + 1 - entry.2, entry.2⟩ else best) best

/-- Goes through the items of the first sequence from `i` on. -/
def scanRuns (w : Window) (i : Nat) (lengths : List (Nat × Nat)) (best : Run) :
    List (List Nat) → Run
  | [] => best
  | found :: rest =>
    let inside := found.filter fun j => decide (w.rightStart ≤ j) && decide (j < w.rightStop)
    let lengths := extendRuns lengths inside
    scanRuns w (i + 1) lengths (better i best lengths) rest

/-- Whether two sequences have equal items at the given indices. -/
def agree (left right : Array α) (i j : Nat) : Bool :=
  match left[i]?, right[j]? with
  | some x, some y => x == y
  | _, _ => false

/-- Grows a run at its beginning, by at most `steps` items. -/
def growBack (left right : Array α) (w : Window) : (steps : Nat) → Run → Run
  | 0, r => r
  | steps + 1, r =>
    if w.leftStart < r.left && w.rightStart < r.right && agree left right (r.left - 1) (r.right - 1)
    then growBack left right w steps ⟨r.left - 1, r.right - 1, r.size + 1⟩
    else r

/-- Grows a run at its end, by at most `steps` items. -/
def growAhead (left right : Array α) (w : Window) : (steps : Nat) → Run → Run
  | 0, r => r
  | steps + 1, r =>
    if r.left + r.size < w.leftStop && r.right + r.size < w.rightStop &&
      agree left right (r.left + r.size) (r.right + r.size)
    then growAhead left right w steps { r with size := r.size + 1 }
    else r

/-- The longest common run in a window. -/
def longestRun (left right : Array α) (places : List (List Nat)) (w : Window) : Run :=
  let part := (places.drop w.leftStart).take (w.leftStop - w.leftStart)
  let found := scanRuns w w.leftStart [] ⟨w.leftStart, w.rightStart, 0⟩ part
  growAhead left right w w.leftStop (growBack left right w w.leftStop found)

/-! ### All runs -/

/-- The common runs in a window, in order: those before the longest one, the
longest one, and those behind it. -/
def runsIn (left right : Array α) (places : List (List Nat)) (w : Window) : List Run :=
  let r := longestRun left right places w
  if _inside : 0 < r.size ∧ w.leftStart ≤ r.left ∧ r.left + r.size ≤ w.leftStop then
    runsIn left right places ⟨w.leftStart, r.left, w.rightStart, r.right⟩ ++
      r :: runsIn left right places
        ⟨r.left + r.size, w.leftStop, r.right + r.size, w.rightStop⟩
  else []
termination_by w.leftStop - w.leftStart
decreasing_by
  all_goals
    simp only [r] at _inside
    omega

/-- Joins runs that follow each other in both sequences. -/
def joinRuns (current : Run) : List Run → List Run
  | [] => if current.size = 0 then [] else [current]
  | r :: rest =>
    if current.left + current.size = r.left ∧ current.right + current.size = r.right then
      joinRuns { current with size := current.size + r.size } rest
    else if current.size = 0 then joinRuns r rest
    else current :: joinRuns r rest

/-- The common runs of two sequences, in order. -/
def matchingRuns (left right : List α) : List Run :=
  joinRuns ⟨0, 0, 0⟩
    (runsIn left.toArray right.toArray (places left right) ⟨0, left.length, 0, right.length⟩)

/-! ### Similar words -/

/-- How many characters of two words are in common runs. -/
def commonCharacters (a b : String) : Nat :=
  (matchingRuns a.toList b.toList).foldl (fun total run => total + run.size) 0

/-- Whether at least six in ten characters of two words are in common runs. -/
def isClose (a b : String) : Bool :=
  decide (3 * (a.length + b.length) ≤ 10 * commonCharacters a b)

/-- Whether a word is at least as close to `word` as another one; of equally close
ones the later in the alphabet. -/
def notFarther (word a b : String) : Bool :=
  let x := commonCharacters a word * (b.length + word.length)
  let y := commonCharacters b word * (a.length + word.length)
  decide (y < x) || (x == y && !decide (a < b))

/-- The words that are close to a word, the closest first, three at most. -/
def closeMatches (word : String) (words : List String) : List String :=
  ((words.filter fun w => isClose w word).mergeSort (notFarther word)).take 3

end TsxLint.Diff
