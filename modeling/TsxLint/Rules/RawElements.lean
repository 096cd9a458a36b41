/-
Module: TsxLint.Rules.RawElements
Purpose: Plain elements for which a project has components of its own.
Main exports: RawElements.rule, RawElements.restricted
-/
import TsxLint.Rule.Basic

namespace TsxLint.RawElements

/-!
Elements that browsers style by themselves are listed with what to use instead;
settings extend the list.  Lists of items and elements that carry a role or a
label are meant as they stand.  Nothing is edited: a component needs an import
and other attributes, which nobody can derive from the element.
-/

/-- The elements to avoid without settings, with what to use instead. -/
def builtin : Options :=
  [("blockquote", .str "Use Quote or Card component for quoted content"),
    ("button", .str "Use Button component from @/components/ui/button"),
    ("code", .str "Use Code component or Badge component for inline code"),
    ("h1", .str "Use Typography component with variant=\x22h1\x22"),
    ("h2", .str "Use Typography component with variant=\x22h2\x22"),
    ("h3", .str "Use Typography component with variant=\x22h3\x22"),
    ("h4", .str "Use Typography component with variant=\x22h4\x22"),
    ("h5", .str "Use Typography component with variant=\x22h5\x22"),
    ("h6", .str "Use Typography component with variant=\x22h6\x22"),
    ("input", .str "Use Input component from @/components/ui/input"),
    ("ol", .str "Use Card or custom component for UI lists (semantic lists are OK)"),
    ("p", .str "Use Typography component with variant=\x22p\x22 or Text component"),
    ("pre", .str "Use CodeBlock component for code blocks"),
    ("select", .str "Use Select component from @/components/ui/select"),
    ("textarea", .str "Use Textarea component from @/components/ui/textarea"),
    ("ul", .str "Use Card or custom component for UI lists (semantic lists are OK)")]

/-- Attributes that say what an element means. -/
def semanticNames : List String := ["role", "aria-label", "aria-labelledby", "aria-describedby"]

/-- The elements to avoid under the given options. -/
def restricted (options : Options) : Outcome Options :=
  Options.overlaySetting builtin (Table.get? options "additionalRestricted")

/-- Whether an element is a list with an item. -/
def isSemanticList (e : Element Node) : Bool :=
  (e.name == "ul" || e.name == "ol") &&
    e.body.any fun n =>
      match n with
      | .element child => child.name == "li"
      | _ => false

/-- Whether an attribute says what the element means. -/
def hasSemanticAttribute (e : Element Node) : Bool :=
  e.attributes.any fun n =>
    match n with
    | .attr a => semanticNames.contains a.name
    | _ => false

/-- Reports an element to avoid. -/
def report (e : Element Node) (suggestion : Value) : Violation :=
  ⟨.element e,
    "Avoid raw \x22" ++ e.name ++ "\x22 element. " ++ suggestion.display ++
      " This promotes consistency and maintainability.",
    [], [suggestion], [("element", .str e.name), ("suggestion", suggestion)]⟩

/-- Reports an element if it is one to avoid.  A null in the settings takes an
element off the list. -/
def checkElement (source : SourceFile) (options : Options) (e : Element Node) :
    Outcome (List Violation) :=
  if e.isFragment then .ok []
  else do
    let allowInTests ← options.need "allowInTests"
    if allowInTests.truthy && source.isTestFile then pure []
    else do
      let table ← restricted options
      match Table.get? table e.name with
      | none | some .null => pure []
      | some suggestion =>
        pure (if isSemanticList e || hasSemanticAttribute e then [] else [report e suggestion])

/-- Elements for which there are components. -/
def rule : Rule :=
  Rule.ofListener
    { id := "COMPONENTS.PREFER_UI_COMPONENTS"
      name := "Prefer UI Components"
      category := "components"
      description :=
        "Reports raw HTML elements with inherent styling that should be " ++
          "rendered through UI components instead."
      parameters := [("additionalRestricted", .object []), ("allowInTests", .bool true)] }
    (.atNodes [.element] fun visit n =>
      match n with
      | .element e => checkElement visit.source visit.options e
      | _ => .ok [])

end TsxLint.RawElements
