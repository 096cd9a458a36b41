/-
Module: TsxLint.Rules.ArrowBody
Purpose: Arrow functions whose block holds one expression.
Main exports: ArrowBody.rule, ArrowBody.parameterList, ArrowBody.condensed
-/
import TsxLint.Rule.Basic

namespace TsxLint.ArrowBody

/-!
A block that holds exactly one expression statement can be the expression
itself.  The shorter function is put together from source texts: its
parameters, its type annotations and the expression.  A comment in the block
would be lost, so such a block is reported without an edit.
-/

/-- The parameters of the shorter function.  A lone plain name needs no
parentheses unless type annotations stand beside it. -/
def parameterList (source : SourceFile) (f : Arrow Node) : Outcome String := do
  let listed : Outcome String := do
    let texts ← f.params.mapM fun p => source.textOf p.span
    let list := "(" ++ ", ".intercalate texts ++ ")"
    pure (f.typeParameters.getD "" ++ list ++ f.returnType.getD "")
  match f.params with
  | [p] =>
    if p.isIdentifier && f.typeParameters.isNone && f.returnType.isNone then pure p.name
    else listed
  | _ => listed

/-- Whether an expression has to stand in parentheses to be the body of an arrow
function. -/
def needsParentheses (n : Node) : Bool :=
  match n with
  | .other o => o.typeName == "sequence_expression"
  | _ => false

/-- The text of the shorter function. -/
def condensed (source : SourceFile) (f : Arrow Node) (expression : Node) : Outcome String := do
  let bare ← source.textOf expression.span
  let text := if needsParentheses expression then "(" ++ bare ++ ")" else bare
  let params ← parameterList source f
  pure ((if f.isAsync then "async " else "") ++ params ++ " => " ++ text)

/-- The block of an arrow function that holds one expression statement, and the
expression. -/
def soleExpression? (f : Arrow Node) : Option (Block Node × Node) :=
  match f.body with
  | some (.block b) =>
    match b.body with
    | [.statement s] => s.expression.map fun expression => (b, expression)
    | _ => none
  | _ => none

/-- Reports an arrow function that can be condensed. -/
def checkArrow (source : SourceFile) (f : Arrow Node) : Outcome (List Violation) :=
  match soleExpression? f with
  | none => .ok []
  | some (block, expression) => do
    let edits ←
      if block.hasComments then pure []
      else do
        let text ← condensed source f expression
        let edit ← Edit.between f.span.start f.span.stop text
        pure [edit]
    pure [⟨.arrow f, "Arrow function with single statement should be condensed to single line",
      edits, [.str "Use an expression body instead of a block"], []⟩]

/-- Arrow functions that can be written with an expression as their body. -/
def rule : Rule :=
  Rule.ofListener
    { id := "SIMPLIFICATION.SINGLE_LINE_ARROW"
      name := "Single-Line Arrow Functions"
      category := "simplification"
      description :=
        "Detects arrow functions with a block body containing a single " ++
          "expression statement and rewrites them to an expression body."
      fixable := true }
    (.atNodes [.arrow] fun visit n =>
      match n with
      | .arrow f => checkArrow visit.source f
      | _ => .ok [])

end TsxLint.ArrowBody
