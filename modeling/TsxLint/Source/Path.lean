/-
Module: TsxLint.Source.Path
Purpose: File paths in normal form, their suffixes, and the languages they select.
Main exports: FilePath, FilePath.parse, FilePath.text, FilePath.suffix, Language
-/
import TsxLint.Fault
import TsxLint.Text.Lowercase
import TsxLint.Text.Blank

namespace TsxLint

/-!
A path is kept as its root and its parts.  Empty parts and parts that are a
single point are dropped when a path is read; parts that are two points stay,
since what they lead to depends on the file system.
-/

/-- A path in normal form. -/
structure FilePath where
  /-- Empty for a relative path, otherwise one or two slashes. -/
  root : String
  parts : List String
deriving DecidableEq, Repr, Inhabited

namespace FilePath

/-- Reads a path.  Exactly two leading slashes are a root of their own. -/
def parse (s : String) : FilePath :=
  let cs := s.toList
  let slashes := (cs.takeWhile (· == '/')).length
  let root := if slashes = 0 then "" else if slashes = 2 then "//" else "/"
  let pieces := (Text.splitAt '/' cs).map String.ofList
  ⟨root, pieces.filter fun piece => piece != "" && piece != "."⟩

/-- The text of a path; a relative path without parts is the current directory. -/
def text (p : FilePath) : String :=
  if p.root = "" ∧ p.parts = [] then "." else p.root ++ "/".intercalate p.parts

/-- The last part. -/
def name (p : FilePath) : String := p.parts.getLastD ""

/-- The last part's extension with its point.  A name that begins or ends with
its last point has none. -/
def suffix (p : FilePath) : String :=
  let reversed := p.name.toList.reverse
  let tail := reversed.takeWhile (· != '.')
  if tail ≠ [] ∧ tail.length + 1 < reversed.length then
    String.ofList ('.' :: tail.reverse)
  else ""

/-- The path of something inside this directory. -/
def join (p : FilePath) (parts : List String) : FilePath :=
  ⟨p.root, p.parts ++ parts⟩

/-- Test files are recognised by marks anywhere in their path. -/
def isTestFile (p : FilePath) : Bool :=
  Text.contains p.text ".test." || Text.contains p.text ".spec." ||
    Text.contains p.text "__tests__"

end FilePath

/-! ### Languages -/

/-- The languages a source file can be written in. -/
inductive Language where
  | tsx
  | typescript
  | javascript
deriving DecidableEq, Repr, Inhabited

namespace Language

/-- The name of a language. -/
def name : Language → String
  | .tsx => "tsx"
  | .typescript => "typescript"
  | .javascript => "javascript"

/-- The language with a name. -/
def ofName? (name : String) : Option Language :=
  [Language.tsx, .typescript, .javascript].find? fun l => l.name == name

/-- The language of each supported extension. -/
def ofSuffix? (suffix : String) : Option Language :=
  match suffix with
  | ".tsx" => some .tsx
  | ".ts" => some .typescript
  | ".jsx" | ".js" | ".mjs" | ".cjs" => some .javascript
  | _ => none

/-- The language that a path's extension selects, letter case aside. -/
def ofPath? (p : FilePath) : Option Language :=
  ofSuffix? (Text.lower p.suffix)

/-- The language of a path; TSX when the extension says nothing. -/
def ofPath (p : FilePath) : Language :=
  (ofPath? p).getD .tsx

/-- The language of a file: the named one if a name is given, else that of its
path. -/
def resolve (given : String) (p : FilePath) : Outcome Language :=
  if given = "" then .ok (ofPath p)
  else
    match ofName? given with
    | some l => .ok l
    | none => .error (.unsupportedLanguage given)

end Language

end TsxLint
