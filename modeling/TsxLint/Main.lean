/-
Module: TsxLint.Main
Purpose: The command line program.
Main exports: main
-/
import Std.Time
import TsxLint.Command.Program
import TsxLint.Engine.TreeSupply

namespace TsxLint.Console

/-!
The program reads the working directory, the user's settings and, from standard input, one
written parse tree a line, in the order in which files are parsed.  It runs, prints what
there is to print, writes the files that have changed and ends with the exit status.
-/

/-- All files of a directory, by their parts below the working directory. -/
partial def filesIn (parts : List String) (entries : Array IO.FS.DirEntry) :
    IO (List (List String × ByteArray)) := do
  let mut found := []
  for entry in entries do
    let place := parts ++ [entry.fileName]
    match (← entry.path.symlinkMetadata).type with
    | .dir => found := found ++ (← filesIn place (← entry.path.readDir))
    | .file => found := found ++ [(place, ← IO.FS.readBinFile entry.path)]
    | _ => pure ()
  pure found

/-- The user's settings. -/
def userSettings : IO Layer := do
  let home := (← IO.getEnv "HOME").getD ""
  let path := (FilePath.parse home).join [".tsx-guard", Settings.fileName]
  try
    pure ⟨path, .data (← IO.FS.readBinFile path.text)⟩
  catch _ => pure ⟨path, .absent⟩

/-- The working directory. -/
def workspace : IO Workspace := do
  let here ← IO.currentDir
  pure ⟨FilePath.parse here.toString, ← filesIn [] (← here.readDir), ← userSettings⟩

/-- The written trees on standard input, none if that is a terminal. -/
def trees : IO (List Value) := do
  let input ← IO.getStdin
  if ← input.isTty then pure []
  else
    let lines := (← input.readToEnd).splitOn "\n"
    pure (lines.filterMap fun line => (Json.read line).toOption)

/-- What surrounds the program. -/
def surroundings : IO Surroundings := do
  let time ← Std.Time.PlainDateTime.now
  pure
    { noColor := (← IO.getEnv "NO_COLOR").isSome
      forceColor := (← IO.getEnv "FORCE_COLOR").isSome
      terminal := ← (← IO.getStdout).isTty
      now := time.format "uuuu-MM-dd'T'HH:mm:ss.SSSSSS" }

/-- Prints texts. -/
def deliver (texts : List Printed) : IO Unit :=
  texts.forM fun p =>
    match p.channel with
    | .out => IO.print p.text
    | .err => IO.eprint p.text

/-- Writes the files that differ from those before. -/
def save (before after : Workspace) : IO Unit :=
  after.files.forM fun f => do
    if before.read? f.1 != some f.2 then
      IO.FS.writeBinFile (before.path.join f.1).text f.2

/-- The exit status of an ending, and what is still to be said. -/
def close : Ending → IO UInt32
  | .exit code => pure (UInt32.ofInt code)
  | .usage e => do
    IO.eprintln ("Error: " ++ e.message)
    pure 2
  | .fault f => do
    IO.eprintln (f.kind ++ ": " ++ f.message)
    pure 1

end TsxLint.Console

/-- Runs the program on the words of the command line. -/
def main (words : List String) : IO UInt32 := do
  let before ← TsxLint.Console.workspace
  let supply := TsxLint.TreeSupply.ofList (← TsxLint.Console.trees)
  let (ending, after) :=
    TsxLint.Program.run TsxLint.TreeSupply.grammar (← TsxLint.Console.surroundings) words
      ⟨supply, before, []⟩
  TsxLint.Console.deliver after.printed
  TsxLint.Console.save before after.workspace
  TsxLint.Console.close ending
