/-
Module: TsxLint.Rules.ComponentTypes
Purpose: Components without a type annotation.
Main exports: ComponentTypes.rule
-/
import TsxLint.Rule.Basic
import TsxLint.Text.Identifier
import TsxLint.Text.Uppercase

namespace TsxLint.ComponentTypes

/-!
A variable whose name is an identifier with a capital first letter, bound to an
arrow function, is a component.  Its declaration should say so in its type.
-/

/-- Whether a name is one that components have. -/
def isComponentName (name : String) : Bool :=
  (match name.toList with
    | c :: _ => Text.isUppercase c
    | [] => false) && Text.isIdentifier name

/-- Whether a declarator binds an arrow function. -/
def bindsArrow (d : Declarator Node) : Bool :=
  match d.init with
  | some (.arrow _) => true
  | _ => false

/-- Reports a component that is declared without a type. -/
def checkDeclarator (d : Declarator Node) : List Violation :=
  if !d.typeAnnotated && isComponentName d.name && bindsArrow d then
    [⟨.declarator d, s!"Component '{d.name}' should use React.FC type annotation", [],
      [.str s!"Declare as const {d.name}: React.FC<Props> = ..."], [("component", .str d.name)]⟩]
  else []

/-- Components without a type annotation. -/
def rule : Rule :=
  Rule.ofListener
    { id := "COMPONENTS.REACT_FC_PATTERN"
      name := "React.FC Pattern"
      category := "components"
      description :=
        "Reports component declarations (capitalised names bound to arrow " ++
          "functions) without a React.FC type annotation."
      languages := some ["tsx", "typescript"] }
    (.atNodes [.declarator] fun _ n =>
      match n with
      | .declarator d => .ok (checkDeclarator d)
      | _ => .ok [])

end TsxLint.ComponentTypes
