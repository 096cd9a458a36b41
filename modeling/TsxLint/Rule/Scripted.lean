/-
Module: TsxLint.Rule.Scripted
Purpose: Rules that follow a script, to try out an engine.
Main exports: Script, ScriptedEdit, Script.rule
-/
import TsxLint.Rule.Basic

namespace TsxLint

/-!
A scripted rule reports every node of the kinds it listens to, counts its calls,
and can be told to fail at one of them.  Its violations carry what it sees:
parent, ancestors, count and options.  That makes visible what an engine does to
its rules.
-/

/-- A place that an edit is measured from. -/
inductive Anchor where
  | nodeStart
  | nodeEnd
  | textStart
  | textEnd
deriving DecidableEq, Repr

/-- An edit between two places, each shifted by some bytes. -/
structure ScriptedEdit where
  first : Anchor
  firstShift : Int
  last : Anchor
  lastShift : Int
  text : String
deriving Repr

/-- What a scripted rule does. -/
structure Script where
  kinds : List NodeKind
  message : String
  edits : List ScriptedEdit
  /-- Whether the whole file is reported once more at the end. -/
  reportsEnd : Bool
  /-- The call at which to fail, and how. -/
  failure : Option (Int × Fault)

/-- The offset of an anchor. -/
def Anchor.offset (source : SourceFile) (n : Node) : Anchor → Int
  | .nodeStart => n.start
  | .nodeEnd => n.stop
  | .textStart => 0
  | .textEnd => source.document.size

/-- The edit for a node. -/
def ScriptedEdit.place (e : ScriptedEdit) (source : SourceFile) (n : Node) : Outcome Edit :=
  Edit.between (e.first.offset source n + e.firstShift) (e.last.offset source n + e.lastShift)
    e.text

namespace Script

/-- The failure of a call, if the script asks for one. -/
def failAt (script : Script) (count : Nat) : Outcome Unit :=
  match script.failure with
  | some (place, fault) => if place = count then .error fault else .ok ()
  | none => .ok ()

/-- What the rule sees of a call. -/
def observed (visit : Visit Nat) (count : Nat) : Table Value :=
  [("parent", .ofOption (fun n => .str n.kind.name) visit.parent?),
    ("ancestors", .strs (visit.ancestors.reverse.map fun n => n.kind.name)),
    ("seen", .nat count),
    ("options", .object visit.options)]

/-- One call of the rule. -/
def call (script : Script) (visit : Visit Nat) (n : Node) : Outcome (Nat × List Violation) := do
  let count := visit.state + 1
  script.failAt count
  let edits ← script.edits.mapM fun e => e.place visit.source n
  pure (count, [⟨n, script.message, edits, [], observed visit count⟩])

/-- The listener of a script. -/
def listener (script : Script) : Listener Nat where
  kinds := script.kinds
  initial := 0
  onNode := script.call
  onEnd visit :=
    if script.reportsEnd then (script.call visit visit.source.root).map (·.2) else .ok []

/-- The rule that follows a script. -/
def rule (info : RuleInfo) (script : Script) : Rule := Rule.ofListener info script.listener

end Script

/-- The description of a rule that has none of its own. -/
def RuleInfo.plainDescription (id name : String) : String := s!"Rule {id}: {name}"

end TsxLint
