/-
Module: TsxLint.Rules.ClassNames
Purpose: Class attributes given as template strings.
Main exports: ClassNames.rule, ClassNames.quoteChunk, ClassNames.arguments
-/
import TsxLint.Rule.Basic

namespace TsxLint.ClassNames

/-!
A template string with substitutions becomes a call of a helper that joins
classes: each literal chunk that is not empty is an argument in quotes, and each
substitution an argument as written.  Unless the file binds the helper's name
already, its import is added: behind the last import, or else before the first
statement that is no directive.
-/

/-! ### Quoting chunks -/

/-- The characters of a chunk inside double quotes.  An escape is copied as
written; quotes and line breaks on their own are escaped. -/
def quotedChars : List Char → List Char
  | '\\' :: c :: rest => '\\' :: c :: quotedChars rest
  | c :: rest =>
    (if c = '\x22' then ['\\', '\x22']
      else if c = '\n' then ['\\', 'n']
      else if c = '\r' then ['\\', 'r']
      else [c]) ++ quotedChars rest
  | [] => []

/-- A chunk between double quotes. -/
def quoteChunk (raw : String) : String :=
  String.ofList ('\x22' :: quotedChars raw.toList ++ ['\x22'])

/-! ### The call -/

/-- Quoted chunks and the texts of substitutions in turn, beginning with a chunk;
an empty chunk is left out. -/
def interleaved (source : SourceFile) : List Chunk → List Node → Outcome (List String)
  | [], _ => .ok []
  | chunk :: chunks, expressions => do
    let quoted := if chunk.raw = "" then [] else [quoteChunk chunk.raw]
    match expressions with
    | [] =>
      let others ← interleaved source chunks []
      pure (quoted ++ others)
    | expression :: rest =>
      let text ← source.textOf expression.span
      let others ← interleaved source chunks rest
      pure (quoted ++ text :: others)

/-- The arguments of the call that takes the place of a template string. -/
def arguments (source : SourceFile) (t : Template Node) : Outcome (List String) :=
  interleaved source t.chunks t.expressions

/-- The call that takes the place of a template string. -/
def call (source : SourceFile) (helper : Value) (t : Template Node) : Outcome String := do
  let args ← arguments source t
  pure (helper.display ++ "(" ++ ", ".intercalate args ++ ")")

/-! ### The import of the helper -/

/-- Whether a statement is a directive: a string on its own. -/
def isDirective (n : Node) : Bool :=
  match n with
  | .statement ⟨_, some (.literal ⟨_, .str _, _⟩)⟩ => true
  | _ => false

/-- Whether an import binds a name. -/
def bindsName (name : Value) (n : Node) : Bool :=
  match n with
  | .importDeclaration d => d.specifiers.any fun s => name == .str s.bound
  | _ => false

/-- The statement that imports the helper. -/
def importStatement (helper module : Value) : String :=
  "import \x7b" ++ helper.display ++ "\x7d from '" ++ module.display ++ "';"

/-- Where the last import ends. -/
def lastImportEnd? (body : List Node) : Option Int :=
  (body.reverse.find? fun n => n.kind = .importDeclaration).map Node.stop

/-- The insertion of the import, if there is a place for it. -/
def insertion? (source : SourceFile) (statement : String) : Outcome (Option Edit) :=
  match lastImportEnd? source.program.body with
  | some place => (Edit.between place place (source.newline ++ statement)).map some
  | none =>
    match source.program.body.dropWhile isDirective with
    | [] => .ok none
    | first :: _ =>
      (Edit.between first.start first.start (statement ++ source.newline ++ source.newline)).map
        some

/-- The insertion of the import, unless the name of the helper is bound. -/
def importEdit? (source : SourceFile) (options : Options) : Outcome (Option Edit) := do
  let helper ← options.need "helper"
  if source.program.body.any (bindsName helper) then pure none
  else do
    let module ← options.need "module"
    insertion? source (importStatement helper module)

/-! ### The rule -/

/-- The template string with substitutions between the braces of an attribute. -/
def template? (a : Attribute Node) : Option (Container Node × Template Node) :=
  match a.value with
  | some (.container c) =>
    match c.expression with
    | some (.template t) => if t.expressions.isEmpty then none else some (c, t)
    | _ => none
  | _ => none

/-- Reports a covered attribute whose value is such a template string. -/
def checkAttribute (source : SourceFile) (options : Options) (a : Attribute Node) :
    Outcome (List Violation) := do
  let covered ← (← options.need "attributes").holds a.name
  if !covered then pure []
  else
    match template? a with
    | none => pure []
    | some (container, t) => do
      let helper ← options.need "helper"
      let text ← call source helper t
      let edit ← Edit.between container.span.start container.span.stop ("\x7b" ++ text ++ "\x7d")
      let imported ← importEdit? source options
      pure [⟨.attr a,
        s!"Use {helper.display}() utility for dynamic {a.name} instead of template literals",
        imported.toList ++ [edit], [.str ("Replace with \x7b" ++ text ++ "\x7d")],
        [("helper", helper)]⟩]

/-- Class attributes that should call the helper. -/
def rule : Rule :=
  Rule.ofListener
    { id := "STYLING.PREFER_CN_FOR_CLASSNAME"
      name := "Prefer cn() for className"
      category := "styling"
      description :=
        "Rewrites className template strings with substitutions into " ++
          "calls of the class-merging helper and adds its import."
      parameters :=
        [("attributes", .list [.str "className"]), ("helper", .str "cn"),
          ("module", .str "@/lib/utils")]
      fixable := true }
    (.atNodes [.attr] fun visit n =>
      match n with
      | .attr a => checkAttribute visit.source visit.options a
      | _ => .ok [])

end TsxLint.ClassNames
