/-
Module: TsxLint.Command.Listing
Purpose: The commands that show rules and settings.
Main exports: Shell.listRules, Shell.showSettings
-/
import TsxLint.Command.Shell
import TsxLint.Json.Writer

namespace TsxLint

/-!
Both listings are printed as text, or as one written value.  Rules are listed by
identifier, with the severity and the switch that the settings give them.
Settings are listed as they are after all files have been laid over each other.
-/

namespace Shell

variable {σ : Type}

/-! ### Rules -/

/-- A rule under settings. -/
structure RuleRow where
  rule : Rule
  severity : Severity
  switch : Value

/-- All rules under settings, by identifier. -/
def ruleRows (settings : Settings) : Outcome (List RuleRow) :=
  (Catalog.rules.mergeSort fun a b => !decide (b.id < a.id)).mapM fun rule => do
    let severity ← rule.severityUnder (settings.ofRule rule.id)
    pure ⟨rule, severity, settings.ruleSwitch rule.id rule.category⟩

/-- The written form of a row. -/
def RuleRow.value (row : RuleRow) : Value :=
  .object
    [("rule_id", .str row.rule.id), ("name", .str row.rule.name),
      ("category", .str row.rule.category), ("severity", .str row.severity.name),
      ("enabled", row.switch), ("fixable", .bool row.rule.fixable),
      ("languages", .ofOption .strs row.rule.languages),
      ("description", .str row.rule.description)]

/-- The line of a row. -/
def RuleRow.text (row : RuleRow) : String :=
  let status := if row.switch.truthy then "on " else "off"
  let fixable := if row.rule.fixable then "fix" else "   "
  "  [" ++ status ++ "] " ++ fixable ++ " " ++ Reporter.padded 40 row.rule.id ++ " " ++
    Reporter.padded 8 row.severity.name ++ " " ++ row.rule.name

/-- Shows the rules. -/
def listRules (around : Surroundings) (json : Bool) (common : CommonOptions) : Shell σ Int := do
  let r := reporter around common.verbose common.quiet common.noColor
  openLog r common
  orReport r do
    let loaded ← loadSettings r.quiet common
    let rows ← ofOutcome (ruleRows loaded.settings)
    if json then
      print [r.echoLine .out (Json.indented (.list (rows.map RuleRow.value)))]
    else
      print (r.header s!"Available rules ({rows.length})")
      print (rows.flatMap fun row =>
        r.line true row.text ++
          if common.verbose then r.line false ("        " ++ row.rule.description) else [])
    pure 0

/-! ### Settings -/

/-- Entries by key. -/
def byKey {α : Type} (table : Table α) : Table α :=
  table.mergeSort fun a b => !decide (b.1 < a.1)

/-- The lines that show settings. -/
def settingsLines (s : Settings) : List String :=
  [s!"  Enabled:           {s.enabled.display}", s!"  Fail on severity:  {s.failOn.name}",
    s!"  Continue on error: {s.continueOnError.display}",
    s!"  Max fix passes:    {s.maxFixPasses.display}"] ++
  ((byKey s.categories).map fun c =>
    "  Category " ++ c.1 ++ ": " ++ if c.2.truthy then "on" else "off") ++
  (byKey s.rules).map fun rule => "  Rule " ++ rule.1 ++ ": " ++ Json.compact rule.2.value

/-- The lines that show where settings are from. -/
def sourceLines (sources : List FilePath) : List String :=
  if sources.isEmpty then ["  built-in defaults only"]
  else sources.mapIdx fun i path => s!"  {i + 1}. {path.text}"

/-- Settings, and where they are from, as one written object. -/
def loadedValue (loaded : LoadedSettings) (sources : Bool) : Value :=
  match loaded.settings.value with
  | .object members =>
    if sources then
      .object (Table.put members "_sources" (.strs (loaded.sources.map (·.text))))
    else .object members
  | v => v

/-- Shows the settings. -/
def showSettings (around : Surroundings) (json sources : Bool) (common : CommonOptions) :
    Shell σ Int := do
  let r := reporter around common.verbose common.quiet common.noColor
  openLog r common
  orReport r do
    let loaded ← loadSettings r.quiet common
    if json then print [r.echoLine .out (Json.indented (loadedValue loaded sources))]
    else
      print (r.header "Effective configuration")
      print ((settingsLines loaded.settings).flatMap (r.line true))
      if sources then
        print (r.header "Configuration sources (in load order)")
        print ((sourceLines loaded.sources).flatMap (r.line true))
    pure 0

end Shell

end TsxLint
