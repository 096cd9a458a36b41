/-
Module: TsxLint.Rules.Catalog
Purpose: All rules, by category and by identifier.
Main exports: Catalog.categories, Catalog.rules, Catalog.find?
-/
import TsxLint.Rules.SiblingSpacing
import TsxLint.Rules.DefaultProps
import TsxLint.Rules.ArrowBody
import TsxLint.Rules.Wrapper
import TsxLint.Rules.Imports
import TsxLint.Rules.ClassNames
import TsxLint.Rules.RawElements
import TsxLint.Rules.ComponentTypes

namespace TsxLint.Catalog

/-!
Rules come in categories.  The order of the categories and of the rules in them
is the order in which an engine registers and runs the rules.
-/

/-- The categories. -/
def categories : List String :=
  ["formatting", "simplification", "imports", "styling", "components"]

/-- The rules of a category. -/
def ofCategory (category : String) : List Rule :=
  match category with
  | "formatting" => [SiblingSpacing.besideExpression, SiblingSpacing.beforeMultiline]
  | "simplification" => [DefaultProps.rule, ArrowBody.rule, Wrapper.rule]
  | "imports" => [Imports.duplicateExports, Imports.duplicateImports, Imports.typeImports]
  | "styling" => [ClassNames.rule]
  | "components" => [RawElements.rule, ComponentTypes.rule]
  | _ => []

/-- Every rule. -/
def rules : List Rule := categories.flatMap ofCategory

/-- The rule with an identifier. -/
def find? (id : String) : Option Rule := rules.find? fun rule => rule.id == id

end TsxLint.Catalog
