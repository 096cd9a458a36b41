/-
Module: TsxLint.Rules.SiblingSpacing
Purpose: Blank lines between neighbouring children of an element.
Main exports: SiblingSpacing.besideExpression, SiblingSpacing.beforeMultiline
-/
import TsxLint.Rule.Basic

namespace TsxLint

/-!
Both rules look at neighbouring children that count, and ask for a blank line
between pairs of some kind: an element beside an expression, or an element before
one that takes several lines.  They differ only in the pairs they cover and in the
indentation they write.

Whether there is a blank line is told by the tokens: fewer than two line breaks
between the last token of the earlier and the first token of the later child is
too close.  The gap is filled only if nothing but white space is in it.
-/

namespace SiblingSpacing

/-- Whether one of two nodes is an element and the other an expression. -/
def isMixedPair : Node → Node → Bool
  | .element _, .container _ => true
  | .container _, .element _ => true
  | _, _ => false

/-- Whether two nodes are elements and the later one takes several lines. -/
def isMultilinePair : Node → Node → Bool
  | .element _, .element later => later.span.isMultiline
  | _, _ => false

/-- The text of a blank line followed by an indentation. -/
def blankLine (source : SourceFile) (indent : Value) : Outcome String :=
  match indent with
  | .str s => .ok (source.newline ++ source.newline ++ s)
  | v => .error (.notJoinable v.typeName)

/-- The edits that put a blank line into a gap; none if the gap holds more than
white space. -/
def gapEdits (source : SourceFile) (start stop : Int) (indent : Value) : Outcome (List Edit) := do
  let gap ← source.document.slice start stop
  if Text.isBlankText gap then
    let filler ← blankLine source indent
    let edit ← Edit.between start stop filler
    pure [edit]
  else pure []

/-- Reports the later of two nodes if it is too close to the earlier one. -/
def checkPair (source : SourceFile) (earlier later : Node) (indent : Value) (message : String) :
    Outcome (List Violation) :=
  match source.lastToken? earlier.span, source.firstToken? later.span with
  | some before, some behind =>
    let lines := behind.span.startLine - before.span.endLine
    if 1 < lines then .ok []
    else do
      let edits ← gapEdits source before.span.stop behind.span.start indent
      pure [⟨later, message, edits, [.str "Add a blank line between the two siblings"],
        [("lines_between", .int lines)]⟩]
  | _, _ => .ok []

/-- Checks the neighbours among nodes that a rule covers. -/
def checkNeighbours (source : SourceFile) (options : Options) (covers : Node → Node → Bool)
    (message : String) : List Node → Outcome (List Violation)
  | earlier :: later :: rest => do
    let found ←
      if covers earlier later then do
        let indent ← options.need "indent"
        checkPair source earlier later indent message
      else pure []
    let others ← checkNeighbours source options covers message (later :: rest)
    pure (found ++ others)
  | _ => .ok []

/-- Checks the children of every element that has a closing tag. -/
def listener (covers : Node → Node → Bool) (message : String) : Listener Unit :=
  .atNodes [.element] fun visit n =>
    match n with
    | .element e =>
      if e.selfClosing then .ok []
      else checkNeighbours visit.source visit.options covers message e.significantChildren
    | _ => .ok []

/-- An indentation of so many spaces, as an option. -/
def spaces (n : Nat) : Value := .str (String.ofList (List.replicate n ' '))

/-- A blank line between an element and an expression beside it. -/
def besideExpression : Rule :=
  Rule.ofListener
    { id := "FORMATTING.JSX_EXPRESSION_SPACING"
      name := "JSX Expression Spacing"
      category := "formatting"
      description :=
        "Enforces a blank line between a markup element and an adjacent " ++
          "\x7bexpression\x7d child, in either order."
      parameters := [("indent", spaces 16)]
      fixable := true }
    (listener isMixedPair "JSX elements and expressions should be separated by a newline")

/-- A blank line before an element that takes several lines and follows another. -/
def beforeMultiline : Rule :=
  Rule.ofListener
    { id := "FORMATTING.JSX_MULTILINE_SPACING"
      name := "Multi-line JSX Spacing"
      category := "formatting"
      description :=
        "Enforces a blank line between an element and a following multi-line element " ++
          "inside the same parent."
      parameters := [("indent", spaces 6)]
      fixable := true }
    (listener isMultilinePair "Multi-line JSX elements should have a blank line before them")

end SiblingSpacing

end TsxLint
