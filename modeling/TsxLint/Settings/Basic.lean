/-
Module: TsxLint.Settings.Basic
Purpose: Settings of a run: switches, limits, categories and rules.
Main exports: Settings, RuleSettings, Settings.merge, Settings.ruleSwitch, Rule.severityUnder
-/
import TsxLint.Rule.Basic
import TsxLint.Text.Lowercase

namespace TsxLint

/-!
Settings switch everything, a category or a rule on and off, set a rule's
severity and options, and limit the fixer.  Switches are kept as they were
written and count as on when their value counts as true.

Two settings merge by taking every single switch and limit from the upper one and
laying its categories and rules over those of the lower one, entry by entry.
-/

/-- The settings of one rule. -/
structure RuleSettings where
  enabled : Value
  /-- The name of the severity to use; a value that counts as false leaves the
  rule's own. -/
  severity : Value
  parameters : Value
deriving Repr, Inhabited

/-- The settings of a rule that has none. -/
def RuleSettings.initial : RuleSettings := ⟨.bool true, .null, .object []⟩

/-- The settings of a run. -/
structure Settings where
  enabled : Value
  /-- Findings at or above this severity make a check fail. -/
  failOn : Severity
  continueOnError : Value
  maxFixPasses : Value
  /-- The switch of each category. -/
  categories : Table Value
  rules : Table RuleSettings
deriving Repr, Inhabited

namespace Settings

/-- Settings that say nothing. -/
def initial : Settings := ⟨.bool true, .low, .bool true, .int 10, [], []⟩

/-- The settings that all others are laid over. -/
def default : Settings :=
  { initial with
    categories :=
      ["formatting", "simplification", "imports", "styling", "components"].map fun c =>
        (c, .bool true) }

/-- Lays settings over others. -/
def merge (lower upper : Settings) : Settings :=
  { upper with
    categories := Table.merge lower.categories upper.categories
    rules := Table.merge lower.rules upper.rules }

/-- How many passes the fixer may make. -/
def passLimit (s : Settings) : Nat :=
  match s.maxFixPasses with
  | .int n => n.toNat
  | .bool b => if b then 1 else 0
  | _ => 0

/-- The settings of a rule. -/
def ofRule (s : Settings) (id : String) : RuleSettings :=
  (Table.get? s.rules id).getD .initial

/-- Whether a category is switched off; the empty name is no category. -/
def categoryIsOff (s : Settings) (category : String) : Bool :=
  category != "" &&
    match Table.get? s.categories category with
    | some switch => !switch.truthy
    | none => false

/-- The switch that decides about a rule: the general one if it is off, then the
one of its category if that is off, and else its own. -/
def ruleSwitch (s : Settings) (id category : String) : Value :=
  if !s.enabled.truthy || s.categoryIsOff category then .bool false
  else
    match Table.get? s.rules id with
    | some rule => rule.enabled
    | none => .bool true

/-- Whether a rule is switched on. -/
def isEnabled (s : Settings) (id category : String) : Bool := (s.ruleSwitch id category).truthy

end Settings

/-! ### Rules under settings -/

namespace RuleSettings

/-- The severity that settings ask for, if they do. -/
def severity? (s : RuleSettings) : Outcome (Option Severity) :=
  if s.severity.truthy then
    match s.severity with
    | .str name => (Severity.ofValue (.str (Text.lower name))).map some
    | v => .error (.noMember v.typeName "lower")
  else .ok none

end RuleSettings

namespace Rule

/-- The severity of a rule's findings under settings. -/
def severityUnder (rule : Rule) (s : RuleSettings) : Outcome Severity := do
  match ← s.severity? with
  | some severity => pure severity
  | none => rule.severity

/-- The options of a rule under settings. -/
def optionsUnder (rule : Rule) (s : RuleSettings) : Outcome Options :=
  Options.overlay rule.parameters s.parameters

end Rule

end TsxLint
