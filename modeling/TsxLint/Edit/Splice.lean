/-
Module: TsxLint.Edit.Splice
Purpose: Applying edits to a text.
Main exports: Edit.apply, Edit.splice
-/
import TsxLint.Edit.Basic

namespace TsxLint.Edit

/-!
All edits refer to the same text, the one before any of them.  They are put in
order and joined with what lies between them in one pass, so no offset ever shifts.
-/

/-- The bytes of a text with edits applied: what lies between the edits, from
`cursor` on, joined with their texts.  The edits are in order. -/
def joined (bytes : List UInt8) (cursor : Nat) : List Edit → Outcome (List UInt8)
  | [] => .ok (bytes.drop cursor)
  | e :: rest =>
    if bytes.length < e.stop then .error (.editOutside e.start e.stop bytes.length)
    else do
      let tail ← joined bytes e.stop rest
      pure ((bytes.take e.start).drop cursor ++ e.text.toUTF8.data.toList ++ tail)

/-- The bytes of a text with edits applied, given in any order; a fault if two of
them overlap or one ends behind the text. -/
def splice (bytes : List UInt8) (edits : List Edit) : Outcome (List UInt8) :=
  match findOverlap? edits with
  | some (a, b) => .error (.overlappingEdits a.start a.stop b.start b.stop)
  | none => joined bytes 0 (inOrder edits)

/-- A text with edits applied; also a fault if the joined bytes are no text. -/
def apply (text : String) (edits : List Edit) : Outcome String :=
  if edits.isEmpty then .ok text
  else do
    let bytes ← splice text.toUTF8.data.toList edits
    match Text.decode ⟨bytes.toArray⟩ with
    | .ok s => pure s
    | .error e => throw (.malformedText e)

end TsxLint.Edit
