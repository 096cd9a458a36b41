/-
Module: TsxLint.Rule.Basic
Purpose: Rules: what describes one, and what it reports for a file.
Main exports: RuleInfo, Rule, Rule.supports, Rule.ofListener
-/
import TsxLint.Rule.Traversal
import TsxLint.Severity

namespace TsxLint

/-!
A rule is a description together with a function from a parsed file and options
to violations.  The function is all that the engine knows of how a rule works;
that it comes from a traversal with a state of its own is hidden in
`Rule.ofListener`.
-/

/-- What describes a rule. -/
structure RuleInfo where
  /-- The category in capitals, a point, and the name of the rule. -/
  id : String
  name : String
  category : String
  description : String
  /-- How serious findings are unless settings say otherwise. -/
  severity : Outcome Severity := .ok .low
  /-- The languages a rule is for; none means every language. -/
  languages : Option (List String) := none
  /-- The options that hold unless settings replace them. -/
  parameters : Options := []
  /-- Whether the rule can mend what it finds. -/
  fixable : Bool := false

/-- A rule. -/
structure Rule extends RuleInfo where
  listens : List NodeKind
  visit : SourceFile → Options → Outcome (List Violation)

namespace Rule

/-- Whether a rule is for a language, given by its name. -/
def supports (rule : Rule) (language : String) : Bool :=
  match rule.languages with
  | none => true
  | some names => names.contains language

/-- The rule that reports what a listener does. -/
def ofListener {σ : Type} (info : RuleInfo) (listener : Listener σ) : Rule :=
  { info with listens := listener.kinds, visit := listener.run }

/-- The violations of a file under the rule's own parameters. -/
def visitPlain (rule : Rule) (source : SourceFile) : Outcome (List Violation) :=
  rule.visit source rule.parameters

end Rule

end TsxLint
