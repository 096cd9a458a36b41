/-
Module: TsxLint.Source.Position
Purpose: Byte positions in a text: lines, columns, spans and slices.
Main exports: Document, Span, Document.span, Document.spanOf, Document.slice
-/
import TsxLint.Fault

namespace TsxLint

/-!
All offsets are byte offsets into the UTF-8 encoding of a text.  Lines are
counted from one and columns from zero, in bytes; only the line feed ends a line.

The position of an offset is defined by counting (`Document.rowAt`,
`Document.columnAt`).  For spans that are computed rather than taken from a
parse tree, `Document.span` finds the row by bisection in the table of line
starts.
-/

/-- A location: lines and columns of both ends, and the half-open byte range.

A span that is computed from the ends of an empty template string may lie before
the text, so the numbers are integers. -/
structure Span where
  startLine : Int
  startColumn : Int
  endLine : Int
  endColumn : Int
  start : Int
  stop : Int
deriving DecidableEq, Repr, Inhabited

/-- Whether a span ends on a later line than it begins. -/
def Span.isMultiline (s : Span) : Bool :=
  decide (s.startLine < s.endLine)

/-- A text with its encoding and the offsets at which its lines begin. -/
structure Document where
  text : String
  data : ByteArray
  bytes : List UInt8
  lineStarts : Array Nat

namespace Document

/-- The offsets just behind the line feeds of `bytes`, which begin at `place`. -/
def startsAfter (place : Nat) : List UInt8 → List Nat
  | [] => []
  | b :: rest =>
    if b = 10 then (place + 1) :: startsAfter (place + 1) rest else startsAfter (place + 1) rest

/-- Bytes as a document, of a text that they need not spell. -/
def ofBytes (text : String) (data : ByteArray) : Document :=
  ⟨text, data, data.data.toList, (0 :: startsAfter 0 data.data.toList).toArray⟩

/-- A text as a document. -/
def ofText (text : String) : Document := ofBytes text text.toUTF8

/-- The number of bytes. -/
def size (d : Document) : Nat := d.data.size

/-! ### Rows and columns by counting -/

/-- How many line feeds there are before an offset. -/
def rowAt (d : Document) (offset : Nat) : Nat :=
  (d.bytes.take offset).count 10

/-- How many bytes there are between the last line feed before an offset and the
offset. -/
def columnAt (d : Document) (offset : Nat) : Nat :=
  let before := d.bytes.take offset
  (before.reverse.takeWhile (· != 10)).length + (offset - before.length)

/-- The span of a byte range, positions counted. -/
def spanOf (d : Document) (start stop : Nat) : Span where
  startLine := d.rowAt start + 1
  startColumn := d.columnAt start
  endLine := d.rowAt stop + 1
  endColumn := d.columnAt stop
  start := start
  stop := stop

/-! ### Rows by bisection -/

end Document

/-- The least index of `low … high` from which on `before` fails, if `before`
holds on an initial part only: half of the range is dropped at each step. -/
def bisect (before : Nat → Bool) (low high : Nat) : Nat :=
  if low < high then
    let middle := (low + high) / 2
    if before middle then bisect before (middle + 1) high else bisect before low middle
  else low
termination_by high - low

namespace Document

/-- The row of an offset, found in the table of line starts: one less than the
number of lines that begin at or before it. -/
def rowByTable (d : Document) (offset : Int) : Int :=
  (bisect (fun i => decide ((d.lineStarts.getD i 0 : Int) ≤ offset)) 0 d.lineStarts.size : Int) - 1

/-- Where a row begins; a row before the first one wraps to the last. -/
def rowStart (d : Document) (row : Int) : Int :=
  (d.lineStarts.getD (if row < 0 then d.lineStarts.size - 1 else row.toNat) 0 : Int)

/-- The span of a byte range, positions looked up in the table of line starts. -/
def span (d : Document) (start stop : Int) : Span where
  startLine := d.rowByTable start + 1
  startColumn := start - d.rowStart (d.rowByTable start)
  endLine := d.rowByTable stop + 1
  endColumn := stop - d.rowStart (d.rowByTable stop)
  start := start
  stop := stop

/-! ### Slices -/

/-- An offset within the data: a negative one counts from the end, and both ends
limit it. -/
def clampOffset (d : Document) (offset : Int) : Nat :=
  if offset < 0 then (offset + d.size).toNat else min offset.toNat d.size

/-- The bytes of a half-open range. -/
def sliceBytes (d : Document) (start stop : Int) : ByteArray :=
  d.data.extract (d.clampOffset start) (d.clampOffset stop)

/-- The text of a half-open byte range; a fault if it cuts a character. -/
def slice (d : Document) (start stop : Int) : Outcome String :=
  match Text.decode (d.sliceBytes start stop) with
  | .ok s => .ok s
  | .error e => .error (.malformedText e)

/-- The text of a span. -/
def textOf (d : Document) (s : Span) : Outcome String :=
  d.slice s.start s.stop

end Document

end TsxLint
