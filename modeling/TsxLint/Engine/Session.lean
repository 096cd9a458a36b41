/-
Module: TsxLint.Engine.Session
Purpose: What surrounds a run: the grammar, and warnings on the way.
Main exports: Grammar, Warning, Session, Input, Session.parse
-/
import TsxLint.Finding.Basic

namespace TsxLint

/-!
Texts are parsed by a grammar that the library does not contain.  A grammar may
have a state, as one has that answers from recorded trees; a grammar that is a
function of text and language needs none.

A session carries that state and the warnings given so far.  Both outlive a
fault.
-/

/-- Turns texts into parse trees. -/
structure Grammar (σ : Type) where
  parse : σ → String → Language → Outcome ParseTree × σ

/-- The grammar that is a function of text and language. -/
def Grammar.ofFunction (tree : String → Language → ParseTree) : Grammar Unit :=
  ⟨fun _ text language => (.ok (tree text language), ())⟩

/-- What is worth a warning. -/
inductive Warning where
  | syntaxErrors (path : FilePath)
  | ruleFailed (ruleId : String) (path : FilePath) (fault : Fault)
  /-- A finding whose edits overlap cannot be mended. -/
  | overlappingEdits (ruleId : String) (line : Int)
  | notFixing (path : FilePath)
  /-- The text of a fix pass does not parse. -/
  | brokenPass (pass : Nat) (path : FilePath)
  | settingsRejected (path : FilePath) (fault : Fault)
deriving Repr

/-- The wording of a warning. -/
def Warning.message : Warning → String
  | .syntaxErrors path => s!"{path.text} has syntax errors, results may be partial"
  | .ruleFailed ruleId path fault => s!"Rule {ruleId} failed on {path.text}: {fault.message}"
  | .overlappingEdits ruleId line =>
    s!"Rule {ruleId} produced overlapping edits at line {line}, skipping its fix"
  | .notFixing path => s!"Not fixing {path.text}: file has syntax errors"
  | .brokenPass pass path => s!"Fix pass {pass} produced syntax errors in {path.text}"
  | .settingsRejected path fault => s!"Could not load config from {path.text}: {fault.message}"

/-- Whether a warning announces a failed rule. -/
def Warning.isRuleFailure : Warning → Bool
  | .ruleFailed .. => true
  | _ => false

/-- The state of a session. -/
structure Desk (σ : Type) where
  supply : σ
  warnings : List Warning

/-- A computation in a session. -/
abbrev Session (σ : Type) := ExceptT Fault (StateM (Desk σ))

/-- A text to look at: its path, and the name of its language if one is given. -/
structure Input where
  path : FilePath
  text : String
  language : String
deriving Repr, Inhabited

/-- An input whose language, unless one is given, is that of its path. -/
def Input.ofText (path : FilePath) (text : String) (language : Option String) : Input :=
  ⟨path, text, language.getD (Language.ofPath path).name⟩

namespace Session

variable {σ : Type}

/-- The value of an outcome, or its fault. -/
def ofOutcome {α : Type} (outcome : Outcome α) : Session σ α :=
  match outcome with
  | .ok a => pure a
  | .error fault => throw fault

/-- Gives warnings. -/
def warn (warnings : List Warning) : Session σ Unit :=
  modify fun desk => { desk with warnings := desk.warnings ++ warnings }

/-- Asks a grammar for the tree of a text. -/
def ask (grammar : Grammar σ) (text : String) (language : Language) : Session σ ParseTree := do
  let desk ← get
  let (tree, supply) := grammar.parse desk.supply text language
  set { desk with supply }
  ofOutcome tree

/-- Parses an input. -/
def parse (grammar : Grammar σ) (input : Input) : Session σ SourceFile := do
  let language ← ofOutcome (Language.resolve input.language input.path)
  let tree ← ask grammar input.text language
  ofOutcome (SourceFile.ofTree input.path language input.text tree)

end Session

end TsxLint
