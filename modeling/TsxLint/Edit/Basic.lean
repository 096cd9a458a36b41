/-
Module: TsxLint.Edit.Basic
Purpose: Replacements of byte ranges, and when two of them get in each other's way.
Main exports: Edit, Edit.between, Edit.overlaps, Edit.conflicts, Edit.inOrder, Edit.findOverlap?
-/
import TsxLint.Fault

namespace TsxLint

/-!
An edit replaces a half-open range of bytes by a text.  An empty range is an
insertion, an empty text a deletion.

Two relations say when edits clash.  Edits that *overlap* cannot be applied
together at all; ranges that merely touch may, but two insertions at one place
may not, since their order would be open.  Edits that *conflict* overlap or
touch; this wider relation keeps apart the edits of different findings, since a
text computed for one range may hold a copy of what the other replaces.
-/

/-- A replacement of the bytes `start … stop - 1`. -/
structure Edit where
  start : Nat
  stop : Nat
  text : String
  /-- A range ends where it begins or behind it. -/
  start_le_stop : start ≤ stop
deriving DecidableEq, Repr

namespace Edit

/-- The edit of a range; a range that begins before the text or ends before it
begins is a fault. -/
def between (start stop : Int) (text : String) : Outcome Edit :=
  if h : 0 ≤ start ∧ start ≤ stop then
    .ok ⟨start.toNat, stop.toNat, text, Int.toNat_le_toNat h.2⟩
  else .error (.invalidRange (.int start) (.int stop))

/-- Whether an edit only adds text. -/
def isInsertion (e : Edit) : Bool := e.start == e.stop

/-- Whether two edits cannot be applied together. -/
def overlaps (a b : Edit) : Bool :=
  a.start == b.start || (decide (a.start < b.stop) && decide (b.start < a.stop))

/-- Whether two edits overlap or touch. -/
def conflicts (a b : Edit) : Bool :=
  decide (a.start ≤ b.stop) && decide (b.start ≤ a.stop)

/-- Whether an edit comes no later than another: by where they begin, then by
where they end. -/
def notAfter (a b : Edit) : Bool :=
  decide (a.start < b.start) || (a.start == b.start && decide (a.stop ≤ b.stop))

/-- Edits by where they begin and then by where they end; equal ranges keep their
order. -/
def inOrder (edits : List Edit) : List Edit := edits.mergeSort notAfter

/-- The first two neighbours that overlap. -/
def firstOverlap? : List Edit → Option (Edit × Edit)
  | a :: b :: rest => if a.overlaps b then some (a, b) else firstOverlap? (b :: rest)
  | _ => none

/-- Two edits that overlap, looked for among neighbours in order. -/
def findOverlap? (edits : List Edit) : Option (Edit × Edit) := firstOverlap? (inOrder edits)

end Edit

end TsxLint
