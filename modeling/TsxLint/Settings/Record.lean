/-
Module: TsxLint.Settings.Record
Purpose: Settings as they are written in settings files.
Main exports: Settings.ofValue, Settings.value, Settings.ofData
-/
import TsxLint.Settings.Basic

namespace TsxLint

/-!
A settings file is a JSON object.  What it does not mention keeps its usual
value.  Reading checks the threshold, the pass limit, the shape of the tables and
the names of severities; other values are kept as they are.
-/

/-- The members of a value that has to be an object. -/
def Value.needMembers (v : Value) : Outcome (List (String × Value)) :=
  match v with
  | .object members => .ok members
  | v => .error (.noMember v.typeName "items")

/-- A member of a value that has to be an object, or a stand-in for it. -/
def Value.member (v : Value) (name : String) (default : Value) : Outcome Value :=
  match v with
  | .object members => .ok ((Table.get? members name).getD default)
  | v => .error (.noMember v.typeName "get")

namespace RuleSettings

/-- The written form of a rule's settings; a severity or parameters that count as
false are left out. -/
def value (s : RuleSettings) : Value :=
  .object ([("enabled", s.enabled)] ++
    (if s.severity.truthy then [("severity", s.severity)] else []) ++
    (if s.parameters.truthy then [("parameters", s.parameters)] else []))

/-- Reads a rule's settings. -/
def ofValue (v : Value) : Outcome RuleSettings := do
  let enabled ← v.member "enabled" (.bool true)
  let severity ← v.member "severity" .null
  let parameters ← v.member "parameters" (.object [])
  let settings : RuleSettings := ⟨enabled, severity, parameters⟩
  let _ ← settings.severity?
  pure settings

end RuleSettings

namespace Settings

/-- The written form of settings. -/
def value (s : Settings) : Value :=
  .object
    [("enabled", s.enabled), ("failOnSeverity", .str s.failOn.name),
      ("continueOnError", s.continueOnError), ("maxFixPasses", s.maxFixPasses),
      ("categories", .object (s.categories.map fun c => (c.1, .object [("enabled", c.2)]))),
      ("rules", .object (s.rules.map fun r => (r.1, r.2.value)))]

/-- Reads every entry of a table. -/
def readTable {α : Type} (read : Value → Outcome α) (v : Option Value) : Outcome (Table α) :=
  match v with
  | none => .ok []
  | some v => do
    let members ← v.needMembers
    members.mapM fun m => do
      let a ← read m.2
      pure (m.1, a)

/-- Whether a value is a limit on passes: a positive integer, or true for one. -/
def isPassLimit (v : Value) : Bool :=
  match v with
  | .int n => decide (1 ≤ n)
  | .bool b => b
  | _ => false

/-- Reads the members of an object as settings. -/
def ofMembers (members : List (String × Value)) : Outcome Settings := do
  let member (name : String) (default : Value) := (Table.get? members name).getD default
  let failOn ← Severity.ofValue
    (.str (Text.lower (member "failOnSeverity" (.str "low")).display))
  let limit := member "maxFixPasses" (.int 10)
  if !isPassLimit limit then throw (.passLimit limit)
  let categories ← readTable (fun v => v.member "enabled" (.bool true))
    (Table.get? members "categories")
  let rules ← readTable RuleSettings.ofValue (Table.get? members "rules")
  pure
    { enabled := member "enabled" (.bool true)
      failOn
      continueOnError := member "continueOnError" (.bool true)
      maxFixPasses := limit
      categories
      rules }

/-- Reads a value as settings. -/
def ofValue (v : Value) : Outcome Settings :=
  match v with
  | .object members => ofMembers members
  | _ => .error .rootNotObject

/-- Reads the text of a settings file; every line ending reads as a line feed. -/
def ofText (text : String) : Outcome Settings :=
  match Json.read (String.ofList (Text.unifyLineEnds text.toList)) with
  | .ok v => ofValue v
  | .error e => .error (.malformedJson e)

/-- Reads the bytes of a settings file. -/
def ofData (data : ByteArray) : Outcome Settings :=
  match Text.decode data with
  | .ok text => ofText text
  | .error e => .error (.malformedText e)

end Settings

end TsxLint
