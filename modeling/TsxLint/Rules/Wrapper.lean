/-
Module: TsxLint.Rules.Wrapper
Purpose: Elements that do nothing but hold one child.
Main exports: Wrapper.rule, Wrapper.hasMeaningfulAttribute, Wrapper.servesLayout
-/
import TsxLint.Rule.Basic

namespace TsxLint.Wrapper

/-!
A generic element adds nothing to the rendered tree if no attribute gives it a
purpose, no class of it affects layout, and its only child that counts is an
element or an expression.  It can then be replaced by the child; an expression
can only take its place inside another element.
-/

/-- Attributes that give an element a purpose. -/
def meaningfulNames : List String := ["id", "role", "tabIndex", "ref", "key"]

/-- Beginnings of the names of such attributes. -/
def meaningfulBeginnings : List String := ["aria-", "data-"]

/-- Beginnings of utility classes that affect layout or appearance. -/
def layoutBeginnings : List String :=
  ["flex", "grid", "space-", "gap-", "p-", "px-", "py-", "m-", "mx-", "my-", "w-", "h-", "max-w",
    "max-h", "min-w", "min-h", "absolute", "relative", "fixed", "sticky", "top-", "bottom-",
    "left-", "right-", "inset-", "z-", "container", "rounded", "border", "bg-", "text-center",
    "text-left", "text-right", "justify-", "items-", "self-", "overflow-", "font-", "text-"]

/-- Whether a text begins with one of the given ones. -/
def beginsWithAny (beginnings : List String) (s : String) : Bool :=
  beginnings.any fun b => b.toList.isPrefixOf s.toList

/-- Whether a name is that of an event handler: `on` and a capital letter. -/
def isHandlerName (name : String) : Bool :=
  match name.toList with
  | 'o' :: 'n' :: c :: _ => 'A' ≤ c && c ≤ 'Z'
  | _ => false

/-- Whether an attribute gives its element a purpose.  A spread may carry
anything. -/
def isMeaningful (n : Node) : Bool :=
  match n with
  | .attr a =>
    meaningfulNames.contains a.name || beginsWithAny meaningfulBeginnings a.name ||
      isHandlerName a.name
  | _ => true

/-- Whether some attribute gives the element a purpose. -/
def hasMeaningfulAttribute (e : Element Node) : Bool := e.attributes.any isMeaningful

/-- A class without its variants and importance marks: what follows the last
colon, less the exclamation marks in front. -/
def utility (word : String) : String :=
  let behindColon := (word.toList.reverse.takeWhile (· != ':')).reverse
  String.ofList (behindColon.dropWhile (· == '!'))

/-- Whether a class affects layout. -/
def isLayoutClass (word : String) : Bool := beginsWithAny layoutBeginnings (utility word)

/-- Whether the classes in an attribute may affect layout; computed classes may. -/
def carriesLayout (a : Attribute Node) : Bool :=
  match a.value with
  | none => false
  | some (.literal ⟨_, .str classes, _⟩) => (Text.words classes).any isLayoutClass
  | some _ => true

/-- Whether an element serves a layout. -/
def servesLayout (e : Element Node) : Bool :=
  ["className", "class"].any fun name =>
    match e.attribute? name with
    | some a => carriesLayout a
    | none => false

/-- Whether a node can be all that is left of an element. -/
def isReplacement (parent : Option Node) (child : Node) : Bool :=
  match child, parent with
  | .element _, _ => true
  | _, some (.element _) => true
  | _, _ => false

/-- Reports an element that holds only the given child. -/
def report (visit : Visit Unit) (e : Element Node) (child : Node) : Outcome (List Violation) := do
  let edits ←
    if isReplacement visit.parent? child then do
      let text ← visit.source.textOf child.span
      let edit ← Edit.between e.span.start e.span.stop text
      pure [edit]
    else pure []
  pure [⟨.element e,
    "Unnecessary div wrapper. Consider removing the wrapper or adding meaningful attributes.",
    edits,
    [.str "Render the child directly",
      .str "Add a layout class or a meaningful attribute if the wrapper is needed"],
    [("element", .str e.name)]⟩]

/-- Reports an element that does nothing but hold one child. -/
def checkElement (visit : Visit Unit) (e : Element Node) : Outcome (List Violation) :=
  if e.selfClosing then .ok []
  else do
    let elements ← Options.need visit.options "elements"
    let covered ← elements.holds e.name
    if !covered || hasMeaningfulAttribute e || servesLayout e then pure []
    else
      match e.significantChildren with
      | [.element child] => report visit e (.element child)
      | [.container child] => report visit e (.container child)
      | _ => pure []

/-- Elements that can be replaced by their only child. -/
def rule : Rule :=
  Rule.ofListener
    { id := "SIMPLIFICATION.UNNECESSARY_WRAPPER"
      name := "Unnecessary Wrapper Element"
      category := "simplification"
      description :=
        "Detects container elements without meaningful attributes or " ++
          "layout classes that wrap a single element or expression."
      severity := .ok .medium
      parameters := [("elements", .list [.str "div"])]
      fixable := true }
    (.atNodes [.element] fun visit n =>
      match n with
      | .element e => checkElement visit e
      | _ => .ok [])

end TsxLint.Wrapper
