/-
Module: TsxLint.Engine.Fix
Purpose: Applying edits until nothing is left to mend.
Main exports: FixPlan, FixResult, Engine.fix
-/
import TsxLint.Engine.Run
import TsxLint.Edit.Selection
import TsxLint.Edit.Splice

namespace TsxLint

/-!
A pass takes the findings that can be mended, in the order of their first edits,
accepts those that do not get in each other's way, applies their edits and looks
at the new text.  Passes end when nothing is accepted, when the text stays as it
is, when the new text does not parse, or when the limit is reached.
-/

/-- What a fixer made of a file. -/
structure FixResult where
  path : FilePath
  before : String
  content : String
  passes : Nat
  /-- How many findings were mended. -/
  applied : Nat
  /-- What there is to find in the content. -/
  remaining : RunResult

/-- Whether a fixer changed the text. -/
def FixResult.changed (r : FixResult) : Bool := r.content != r.before

/-! ### What a pass sets out to do -/

/-- Where the first edit of a group begins. -/
def Edit.groupStart (group : List Edit) : Nat :=
  match group with
  | [] => 0
  | e :: rest => rest.foldl (fun least other => min least other.start) e.start

/-- The groups of edits of findings, and warnings about those that overlap in
themselves. -/
structure FixPlan where
  groups : List (List Edit)
  warnings : List Warning

namespace FixPlan

/-- Whether the edits of a finding can be applied together. -/
def isUsable (f : Finding) : Bool := f.fixable && (Edit.findOverlap? f.edits).isNone

/-- Whether the edits of a finding overlap in themselves. -/
def isBroken (f : Finding) : Bool := f.fixable && (Edit.findOverlap? f.edits).isSome

/-- Groups by where their first edits begin. -/
def inOrder (groups : List (List Edit)) : List (List Edit) :=
  groups.mergeSort fun a b => decide (Edit.groupStart a ≤ Edit.groupStart b)

/-- The plan for findings. -/
def ofFindings (findings : List Finding) : FixPlan where
  groups := inOrder ((findings.filter isUsable).map (·.edits))
  warnings := (findings.filter isBroken).map fun f => .overlappingEdits f.ruleId f.span.startLine

/-- The groups that a pass applies. -/
def accepted (plan : FixPlan) : List (List Edit) := (Edit.select plan.groups).accepted

end FixPlan

/-! ### Passes -/

/-- Where a fixer stands between two passes. -/
structure FixState where
  input : Input
  passes : Nat
  applied : Nat
  result : RunResult

/-- The outcome of a fixer that stops here. -/
def FixState.finish (s : FixState) (before : String) : FixResult :=
  ⟨s.input.path, before, s.input.text, s.passes, s.applied, s.result⟩

namespace Engine

variable {σ : Type}

/-- Makes up to `limit` more passes. -/
def fixFrom (e : Engine) (grammar : Grammar σ) (selection : RuleSelection) :
    (limit : Nat) → FixState → Session σ FixState
  | 0, state => pure state
  | limit + 1, state => do
    let plan := FixPlan.ofFindings state.result.findings
    Session.warn plan.warnings
    let accepted := plan.accepted
    if accepted.isEmpty then pure state
    else
      let text ← Session.ofOutcome (Edit.apply state.input.text accepted.flatten)
      let state :=
        { state with passes := state.passes + 1, applied := state.applied + accepted.length }
      if text = state.input.text then pure state
      else
        let input := { state.input with text }
        let result ← e.run grammar selection input
        let state := { state with input, result }
        if result.hasSyntaxErrors then
          Session.warn [.brokenPass state.passes input.path]
          pure state
        else e.fixFrom grammar selection limit state

/-- Mends an input.  A text with syntax errors is left alone. -/
def fix (e : Engine) (grammar : Grammar σ) (selection : RuleSelection) (input : Input) :
    Session σ FixResult := do
  let result ← e.run grammar selection input
  let state : FixState := ⟨input, 0, 0, result⟩
  if result.hasSyntaxErrors then
    Session.warn [.notFixing input.path]
    pure (state.finish input.text)
  else
    let last ← e.fixFrom grammar selection e.settings.passLimit state
    pure (last.finish input.text)

end Engine

end TsxLint
