/-
Module: TsxLint.Terminal.Reporter
Purpose: Messages, findings and summaries as a terminal shows them.
Main exports: Reporter, Printed, Reporter.finding, Reporter.summary
-/
import TsxLint.Terminal.Style
import TsxLint.Finding.Record
import TsxLint.Number.Decimal

namespace TsxLint

/-!
A reporter turns messages into printed text.  Quiet output holds errors and
findings only; some messages are forced through.  Colours come as escape codes,
which are taken out again when the text is printed to something that is no
terminal; the marks in front of messages still depend on whether colours are
wanted.
-/

/-- Where a text is printed. -/
inductive Channel where
  | out
  | err
deriving DecidableEq, Repr

/-- A printed text. -/
structure Printed where
  channel : Channel
  text : String
deriving DecidableEq, Repr

/-- How to print. -/
structure Reporter where
  useColor : Bool
  quiet : Bool
  verbose : Bool
  /-- Whether escape codes reach the reader. -/
  keepsCodes : Bool
deriving Repr

/-- The marks in front of messages. -/
inductive Mark where
  | success
  | error
  | warning
  | info
deriving DecidableEq, Repr

namespace Mark

/-- The mark with a name; any other name stands for information. -/
def ofName (name : String) : Mark :=
  match name with
  | "success" => .success
  | "error" => .error
  | "warning" => .warning
  | _ => .info

/-- A mark in colour. -/
def colored : Mark → String
  | .success => Terminal.styled ["92"] "✓"
  | .error => Terminal.styled ["91"] "✗"
  | .warning => Terminal.styled ["93"] "⚠"
  | .info => Terminal.styled ["94"] "ℹ"

/-- A mark in plain letters. -/
def plain : Mark → String
  | .success => "[OK]"
  | .error => "[FAIL]"
  | .warning => "[WARN]"
  | .info => "[INFO]"

end Mark

namespace Reporter

/-- The parameters of the code for a named style; a name that is not known has
none. -/
def styleCode? (name : String) : Option String :=
  match name with
  | "green" => some "92"
  | "red" => some "91"
  | "yellow" => some "93"
  | "blue" => some "94"
  | "cyan" => some "96"
  | "bold" => some "1"
  | "dim" => some "2"
  | "reset" => some "0"
  | _ => none

/-- A text in a named style, if colours are wanted. -/
def colorize (r : Reporter) (text style : String) : String :=
  if r.useColor then Terminal.styled (styleCode? style).toList text else text

/-- A mark as it is printed. -/
def symbol (r : Reporter) (mark : Mark) : String := if r.useColor then mark.colored else mark.plain

/-- A text as it reaches a channel. -/
def echo (r : Reporter) (channel : Channel) (text : String) : Printed :=
  ⟨channel, if r.keepsCodes then text else Terminal.stripCodes text⟩

/-- A line on a channel. -/
def echoLine (r : Reporter) (channel : Channel) (text : String) : Printed :=
  r.echo channel (text ++ "\n")

/-- A line that quiet output leaves out unless it is forced. -/
def line (r : Reporter) (force : Bool) (text : String) : List Printed :=
  if r.quiet && !force then [] else [r.echoLine .out text]

/-- A message with a mark. -/
def marked (r : Reporter) (mark : Mark) (force : Bool) (message : String) : List Printed :=
  r.line force (r.symbol mark ++ " " ++ message)

/-- A message about something done. -/
def success (r : Reporter) (message : String) : List Printed := r.marked .success false message

/-- An error, which is always printed. -/
def error (r : Reporter) (message : String) : List Printed :=
  [r.echoLine .err (r.symbol .error ++ " " ++ message)]

/-- A warning. -/
def warning (r : Reporter) (message : String) : List Printed := r.marked .warning false message

/-- Information. -/
def info (r : Reporter) (message : String) : List Printed := r.marked .info false message

/-- A message for the curious, printed in verbose output only. -/
def debug (r : Reporter) (message : String) : List Printed :=
  if r.verbose then r.line false ("DEBUG: " ++ r.colorize message "dim") else []

/-- A title, underlined. -/
def header (r : Reporter) (title : String) : List Printed :=
  r.line false (r.colorize title "bold") ++
    r.line false (String.ofList (List.replicate title.length '='))

/-! ### Findings -/

/-- The style of a severity. -/
def severityStyle : Severity → String
  | .critical | .high => "red"
  | .medium => "yellow"
  | .low => "cyan"

/-- A text padded with spaces to a width. -/
def padded (width : Nat) (text : String) : String :=
  text ++ String.ofList (List.replicate (width - text.length) ' ')

/-- The column that readers count from one; a column that counts as false is the
first one. -/
def shownColumn (column : Value) : Outcome String :=
  if !column.truthy then .ok "1"
  else
    match column.numeral? with
    | some (.int n) => .ok (toString (n + 1))
    | some (.float x) => .ok (x.successor.render .plain)
    | none => .error (.notJoinable column.typeName)

/-- A finding: its place, its severity, its message and its rule. -/
def finding (r : Reporter) (f : FindingRecord) : Outcome (List Printed) := do
  let column ← shownColumn f.column
  let severity := r.colorize (padded 8 f.severity.name) (severityStyle f.severity)
  let rule := r.colorize ("[" ++ f.ruleId.display ++ "]") "dim"
  pure (r.line true
    (f.path.display ++ ":" ++ f.line.display ++ ":" ++ column ++ "  " ++ severity ++ " " ++
      f.summary.display ++ "  " ++ rule ++ (if f.isFixable then " (fixable)" else "")))

/-! ### Summaries -/

/-- What a summary counts. -/
structure Counts where
  total : Int
  fixable : Int
  failed : Int
  files : Option Int
  milliseconds : Option Binary64
deriving Repr

/-- A duration: whole milliseconds below a second, else seconds with one place. -/
def duration (milliseconds : Binary64) : String :=
  if milliseconds.belowNat 1000 then milliseconds.fixed 0 ++ "ms"
  else (milliseconds.divNat 1000).fixed 1 ++ "s"

/-- The text of a summary. -/
def summaryText (c : Counts) : String :=
  " | ".intercalate
    ((c.files.map fun n => s!"{n} files").toList ++ [s!"{c.total} findings"] ++
      (if 0 < c.fixable then [s!"{c.fixable} fixable"] else []) ++
      (c.milliseconds.map duration).toList)

/-- A summary, marked by the worst there is to say. -/
def summary (r : Reporter) (c : Counts) : List Printed :=
  let mark : Mark := if 0 < c.failed then .error else if 0 < c.total then .warning else .success
  r.marked mark true (summaryText c)

end Reporter

end TsxLint
