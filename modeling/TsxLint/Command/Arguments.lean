/-
Module: TsxLint.Command.Arguments
Purpose: Splitting the words of a command line into options and arguments.
Main exports: OptionSpec, UsageError, ParsedWords, parseWords
-/
import TsxLint.Diff.Matching
import TsxLint.Text.Quoted

namespace TsxLint

/-!
A word that begins with a hyphen and is longer than that is an option, or several
short ones in a row.  An option that takes a value finds it behind an equals sign
or in the next word, whatever that looks like.  Two hyphens on their own end the
options.  Options and arguments may be mixed, except in front of a command.
-/

/-- An option of a command. -/
structure OptionSpec where
  long : String
  short : Option Char
  takesValue : Bool
deriving Repr

/-- A command line that cannot be made sense of. -/
inductive UsageError where
  | noSuchOption (name : String) (similar : List String)
  | needsValue (name : String)
  | takesNoValue (name : String)
  | missingArgument (name : String)
  | badValue (name problem : String)
  | extraArguments (words : List String)
  | noSuchCommand (name : String) (similar : List String)
  | missingCommand
deriving Repr, DecidableEq

namespace UsageError

/-- The class under which an error is reported. -/
def kind : UsageError → String
  | .noSuchOption .. => "NoSuchOption"
  | .needsValue _ | .takesNoValue _ => "BadOptionUsage"
  | .missingArgument _ => "MissingParameter"
  | .badValue .. => "BadParameter"
  | .extraArguments _ | .missingCommand => "UsageError"
  | .noSuchCommand .. => "NoSuchCommand"

/-- A hint at similar names. -/
def hint (similar : List String) : String :=
  match similar with
  | [] => ""
  | [one] => s!" Did you mean {Text.quote one}?"
  | several =>
    let sorted := several.mergeSort fun a b => !decide (b < a)
    let list := ", ".intercalate (sorted.map Text.quote)
    s!" (Did you mean one of: {list}?)"

/-- The wording of an error. -/
def message : UsageError → String
  | .noSuchOption name similar => s!"No such option {Text.quote name}.{hint similar}"
  | .needsValue name => s!"Option {Text.quote name} requires an argument."
  | .takesNoValue name => s!"Option {Text.quote name} does not take a value."
  | .missingArgument name => s!"Missing argument {Text.quote name}."
  | .badValue name problem => s!"Invalid value for {Text.quote name}: {problem}"
  | .extraArguments words =>
    let list := " ".intercalate words
    match words with
    | [_] => s!"Got unexpected extra argument ({list})"
    | _ => s!"Got unexpected extra arguments ({list})"
  | .noSuchCommand name similar => s!"No such command {Text.quote name}.{hint similar}"
  | .missingCommand => "Missing command."

end UsageError

/-- The options given, in order, each with its value if it takes one, and the
arguments. -/
structure ParsedWords where
  options : List (String × String)
  arguments : List String
deriving Repr

/-- The options found in one word, and the option that still needs a value. -/
structure WordOptions where
  found : List (String × String)
  pending : Option String

namespace OptionSpec

/-- Options in a row of short ones. -/
def readShort (specs : List OptionSpec) : List Char → Except UsageError WordOptions
  | [] => .ok ⟨[], none⟩
  | c :: rest =>
    match specs.find? fun spec => spec.short == some c with
    | none => .error (.noSuchOption (String.ofList ['-', c]) [])
    | some spec =>
      if spec.takesValue then
        match rest with
        | [] => .ok ⟨[], some spec.long⟩
        | value => .ok ⟨[(spec.long, String.ofList value)], none⟩
      else do
        let others ← readShort specs rest
        pure { others with found := (spec.long, "") :: others.found }

/-- The name and the value of a word with an equals sign. -/
def splitValue (word : List Char) : String × Option String :=
  let name := word.takeWhile (· != '=')
  match word.drop name.length with
  | [] => (String.ofList name, none)
  | _ :: value => (String.ofList name, some (String.ofList value))

/-- The options in one word. -/
def read (specs : List OptionSpec) (word : String) : Except UsageError WordOptions :=
  let (name, value) := splitValue word.toList
  match specs.find? fun spec => spec.long == name with
  | some spec =>
    match spec.takesValue, value with
    | true, some v => .ok ⟨[(name, v)], none⟩
    | true, none => .ok ⟨[], some name⟩
    | false, some _ => .error (.takesNoValue name)
    | false, none => .ok ⟨[(name, "")], none⟩
  | none =>
    match word.toList with
    | '-' :: '-' :: _ => .error (.noSuchOption name (Diff.closeMatches name (specs.map (·.long))))
    | cs => readShort specs (cs.drop 1)

end OptionSpec

/-- Whether a word is an option. -/
def isOptionWord (word : String) : Bool :=
  match word.toList with
  | '-' :: _ :: _ => true
  | _ => false

/-- Splits words into options and arguments.  Unless they may be mixed, the first
argument ends the options. -/
def parseWords (specs : List OptionSpec) (mixed : Bool) :
    List String → Except UsageError ParsedWords
  | [] => .ok ⟨[], []⟩
  | word :: rest =>
    if word = "--" then .ok ⟨[], rest⟩
    else if isOptionWord word then do
      let found ← OptionSpec.read specs word
      match found.pending with
      | none =>
        let others ← parseWords specs mixed rest
        pure { others with options := found.found ++ others.options }
      | some name =>
        match rest with
        | [] => throw (.needsValue name)
        | value :: rest =>
          let others ← parseWords specs mixed rest
          pure { others with options := found.found ++ (name, value) :: others.options }
    else if mixed then do
      let others ← parseWords specs mixed rest
      pure { others with arguments := word :: others.arguments }
    else .ok ⟨[], word :: rest⟩

namespace ParsedWords

/-- Whether an option is given. -/
def has (w : ParsedWords) (name : String) : Bool := w.options.any fun o => o.1 == name

/-- The values of an option, in order. -/
def values (w : ParsedWords) (name : String) : List String :=
  (w.options.filter fun o => o.1 == name).map (·.2)

/-- The value of an option; of several the last one counts. -/
def value? (w : ParsedWords) (name : String) : Option String := (w.values name).getLast?

/-- The names of the given options, each once, in order. -/
def names (w : ParsedWords) : List String := (w.options.map (·.1)).eraseDups

end ParsedWords

end TsxLint
