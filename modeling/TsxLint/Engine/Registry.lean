/-
Module: TsxLint.Engine.Registry
Purpose: The rules of an engine, and which of them a run selects.
Main exports: Engine, Engine.register, Engine.unregister, Engine.load, RuleSelection
-/
import TsxLint.Settings.Basic
import TsxLint.Rules.Catalog

namespace TsxLint

/-!
An engine knows its rules by identifier and by category.  A rule that settings
switch off is not taken in.  A second rule with a known identifier takes the
place of the first one in the table of rules, while the list of its category
keeps both.
-/

/-- Settings and rules. -/
structure Engine where
  settings : Settings
  rules : Table Rule
  byCategory : Table (List Rule)

/-- What a run is limited to.  Identifiers take precedence over categories, and
empty lists limit nothing. -/
structure RuleSelection where
  ids : List String
  categories : List String
deriving Repr, Inhabited

namespace Engine

/-- An engine without rules. -/
def empty (settings : Settings) : Engine := ⟨settings, [], []⟩

/-- Takes a rule in unless it is switched off, and says whether it did. -/
def register (e : Engine) (rule : Rule) : Engine × Bool :=
  if e.settings.isEnabled rule.id rule.category then
    let known := (Table.get? e.byCategory rule.category).getD []
    ({ e with
        rules := Table.put e.rules rule.id rule
        byCategory := Table.put e.byCategory rule.category (known ++ [rule]) }, true)
  else (e, false)

/-- Takes a rule out, and says whether there was one. -/
def unregister (e : Engine) (id : String) : Engine × Bool :=
  match Table.get? e.rules id with
  | none => (e, false)
  | some rule =>
    let byCategory :=
      match Table.get? e.byCategory rule.category with
      | some known => Table.put e.byCategory rule.category (known.filter fun r => r.id != id)
      | none => e.byCategory
    ({ e with rules := Table.erase e.rules id, byCategory }, true)

/-- Takes rules in, one after the other, and counts those that were. -/
def registerAll (e : Engine) (rules : List Rule) : Engine × Nat :=
  rules.foldl (fun (engine, count) rule =>
    if engine.settings.isEnabled rule.id "" then
      match engine.register rule with
      | (engine, true) => (engine, count + 1)
      | (engine, false) => (engine, count)
    else (engine, count)) (e, 0)

/-- Takes the rules of the catalog in, and counts those that were. -/
def load (e : Engine) : Engine × Nat := e.registerAll Catalog.rules

/-- An engine with the rules of the catalog. -/
def ofSettings (settings : Settings) : Engine := (empty settings).load.1

/-- The rule with an identifier. -/
def rule? (e : Engine) (id : String) : Option Rule := Table.get? e.rules id

/-- The rules of a category. -/
def rulesOfCategory (e : Engine) (category : String) : List Rule :=
  (Table.get? e.byCategory category).getD []

/-- All rules, in the order in which their identifiers were first taken in. -/
def allRules (e : Engine) : List Rule := Table.values e.rules

/-- The rules that a selection names, in its order and as often as it names them. -/
def select (e : Engine) (s : RuleSelection) : List Rule :=
  if !s.ids.isEmpty then s.ids.filterMap e.rule?
  else if !s.categories.isEmpty then s.categories.flatMap e.rulesOfCategory
  else e.allRules

end Engine

end TsxLint
