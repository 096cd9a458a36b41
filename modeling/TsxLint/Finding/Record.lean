/-
Module: TsxLint.Finding.Record
Purpose: Findings as they are written down and read back.
Main exports: FindingRecord, FindingRecord.ofValue, FindingRecord.value, Finding.record
-/
import TsxLint.Finding.Basic
import TsxLint.Value.Order

namespace TsxLint

/-!
A record is a finding in exchange with other programs.  Most of its parts are
kept as they were written, whatever they are; only the severity and the ranges of
edits have to make sense.  Reading goes from part to part in a fixed order, and
the first part that is amiss decides the fault.
-/

/-- A place and a text that support a finding. -/
structure EvidenceRecord where
  description : Value
  line : Value
  snippet : Value
  data : Value
deriving Repr, Inhabited

/-- An edit as written down. -/
structure EditRecord where
  start : Value
  stop : Value
  text : Value
deriving Repr, Inhabited

/-- A finding as written down. -/
structure FindingRecord where
  ruleId : Value
  severity : Severity
  summary : Value
  path : Value
  line : Value
  column : Value
  endLine : Value
  endColumn : Value
  evidence : List EvidenceRecord
  hints : Value
  edits : List EditRecord
  fixable : Value
  createdAt : Value
deriving Repr, Inhabited

/-! ### Evidence -/

namespace EvidenceRecord

/-- The written form of evidence. -/
def value (e : EvidenceRecord) : Value :=
  .object [("description", e.description), ("line_number", e.line), ("code_snippet", e.snippet),
    ("data", e.data)]

/-- Reads evidence; only the description has to be there. -/
def ofValue (v : Value) : Outcome EvidenceRecord := do
  let description ← v.need "description"
  pure ⟨description, v.getD "line_number" .null, v.getD "code_snippet" .null,
    v.getD "data" (.object [])⟩

end EvidenceRecord

/-! ### Edits -/

namespace EditRecord

/-- The written form of an edit. -/
def value (e : EditRecord) : Value :=
  .object [("start", e.start), ("end", e.stop), ("text", e.text)]

/-- The record of an edit. -/
def ofEdit (e : Edit) : EditRecord := ⟨.nat e.start, .nat e.stop, .str e.text⟩

/-- Reads an edit; its range must not begin before the text or end before it
begins. -/
def ofValue (v : Value) : Outcome EditRecord := do
  let start ← v.need "start"
  let stop ← v.need "end"
  let negative ← start.isBelow (.int 0)
  let reversed ← if negative then pure true else stop.isBelow start
  if reversed then throw (.invalidRange start stop)
  else pure ⟨start, stop, v.getD "text" (.str "")⟩

/-- Whether an edit only adds text. -/
def isInsertion (e : EditRecord) : Bool := Value.equal e.start e.stop

end EditRecord

/-! ### Findings -/

namespace FindingRecord

/-- The written form of a finding. -/
def value (f : FindingRecord) : Value :=
  .object
    [("rule_id", f.ruleId), ("severity", .str f.severity.name), ("summary", f.summary),
      ("file_path", f.path), ("line_number", f.line), ("column", f.column),
      ("end_line", f.endLine), ("end_column", f.endColumn),
      ("evidence", .list (f.evidence.map EvidenceRecord.value)),
      ("remediation_hints", f.hints), ("edits", .list (f.edits.map EditRecord.value)),
      ("can_auto_fix", f.fixable), ("created_at", f.createdAt)]

/-- Reads a finding; `now` is the time of creation if none is given. -/
def ofValue (now : String) (v : Value) : Outcome FindingRecord := do
  let ruleId ← v.need "rule_id"
  let severity ← Severity.ofValue (← v.need "severity")
  let summary ← v.need "summary"
  let path ← v.need "file_path"
  let evidence ← (← (v.getD "evidence" (.list [])).needItems).mapM EvidenceRecord.ofValue
  let edits ← (← (v.getD "edits" (.list [])).needItems).mapM EditRecord.ofValue
  pure
    { ruleId, severity, summary, path
      line := v.getD "line_number" .null
      column := v.getD "column" .null
      endLine := v.getD "end_line" .null
      endColumn := v.getD "end_column" .null
      evidence
      hints := v.getD "remediation_hints" (.list [])
      edits
      fixable := v.getD "can_auto_fix" (.bool false)
      createdAt := v.getD "created_at" (.str now) }

/-- Whether a finding says that it can be mended. -/
def isFixable (f : FindingRecord) : Bool := f.fixable.truthy

end FindingRecord

/-- The record of a finding that is made at a time. -/
def Finding.record (now : String) (f : Finding) : FindingRecord where
  ruleId := .str f.ruleId
  severity := f.severity
  summary := .str f.summary
  path := .str f.path.text
  line := .int f.span.startLine
  column := .int f.span.startColumn
  endLine := .int f.span.endLine
  endColumn := .int f.span.endColumn
  evidence := [⟨.str f.summary, .int f.span.startLine, .str f.snippet, .object f.data⟩]
  hints := .list f.hints
  edits := f.edits.map EditRecord.ofEdit
  fixable := .bool f.fixable
  createdAt := .str now

end TsxLint
