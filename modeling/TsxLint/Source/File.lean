/-
Module: TsxLint.Source.File
Purpose: Parsed source files: text, model and tokens together.
Main exports: SourceFile, SourceFile.parse, SourceFile.firstToken?, SourceFile.lastToken?
-/
import TsxLint.Source.Model
import TsxLint.Source.Path

namespace TsxLint

/-!
A source file owns its document, its program and its tokens.  Rules look up the
first and the last token inside a node; both searches bisect the starts of the
tokens and then check one neighbour.
-/

/-- One parsed file. -/
structure SourceFile where
  path : FilePath
  document : Document
  program : Program Node
  tokens : Array Token
  language : Language
  hasErrors : Bool

namespace SourceFile

/-- A file from its text and the tree that a grammar found in it. -/
def ofTree (path : FilePath) (language : Language) (text : String) (tree : ParseTree) :
    Outcome SourceFile := do
  let document := Document.ofText text
  let program ← Model.program document tree.root
  let tokens ← Model.tokens document tree.root
  pure ⟨path, document, program, tokens.toArray, language, tree.hasErrors⟩

/-- The text of a file. -/
def text (f : SourceFile) : String := f.document.text

/-- The whole file as a node. -/
def root (f : SourceFile) : Node := .program f.program

/-- All nodes of a file in preorder. -/
def nodes (f : SourceFile) : List Node := f.root.preorder

/-- The source text of a span. -/
def textOf (f : SourceFile) (s : Span) : Outcome String := f.document.textOf s

/-- The index of the first token that begins at or behind an offset. -/
def tokenIndex (f : SourceFile) (offset : Int) : Nat :=
  bisect (fun i => match f.tokens[i]? with
    | some t => decide (t.span.start < offset)
    | none => false) 0 f.tokens.size

/-- The first token inside a span. -/
def firstToken? (f : SourceFile) (s : Span) : Option Token :=
  (f.tokens[f.tokenIndex s.start]?).filter fun t => decide (t.span.stop ≤ s.stop)

/-- The last token inside a span. -/
def lastToken? (f : SourceFile) (s : Span) : Option Token :=
  match f.tokenIndex s.stop with
  | 0 => none
  | i + 1 => (f.tokens[i]?).filter fun t => decide (s.start ≤ t.span.start)

/-- The line ending of a file, for text that inserts line breaks. -/
def newline (f : SourceFile) : String :=
  if Text.contains f.text "\r\n" then "\r\n" else "\n"

/-- The pieces of the text between line feeds. -/
def lines (f : SourceFile) : List String :=
  (Text.splitAt '\n' f.text.toList).map String.ofList

/-- A line by its number, counted from one. -/
def line? (f : SourceFile) (number : Int) : Option String :=
  if 1 ≤ number then f.lines[(number - 1).toNat]? else none

/-- Whether the path marks the file as a test. -/
def isTestFile (f : SourceFile) : Bool := f.path.isTestFile

end SourceFile

end TsxLint
