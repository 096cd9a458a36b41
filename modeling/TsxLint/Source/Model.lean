/-
Module: TsxLint.Source.Model
Purpose: The node model of a parse tree.
Main exports: Construct, Model.build, Model.program, Model.tokens
-/
import TsxLint.Source.Tree
import TsxLint.Source.Node
import TsxLint.Number.Literal

namespace TsxLint

/-!
`Model.build` turns a tree node into a model node.  The type of the tree node
selects a construct, and each construct has one assembling function that picks
the parts it keeps.  A construct that lacks a part it needs is kept as an `Other`
node with all its named children.

The assembling functions do not recurse: they take the function that builds a
part as an argument.  `build` closes the recursion, bounded by the height of the
tree, which no part reaches.
-/

/-- The constructs that have model nodes of their own. -/
inductive Construct where
  | program
  | importStatement
  | exportStatement
  | element
  | selfClosingElement
  | fragment
  | container
  | text
  | string
  | number
  | keyword
  | template
  | arrow
  | block
  | statement
  | declarator
  | unknown
deriving DecidableEq, Repr, Inhabited

/-- The construct that a tree node type stands for. -/
def Construct.ofType (type : String) : Construct :=
  match type with
  | "program" => .program
  | "import_statement" => .importStatement
  | "export_statement" => .exportStatement
  | "jsx_element" => .element
  | "jsx_self_closing_element" => .selfClosingElement
  | "jsx_fragment" => .fragment
  | "jsx_expression" => .container
  | "jsx_text" | "html_character_reference" => .text
  | "string" => .string
  | "number" => .number
  | "true" | "false" | "null" => .keyword
  | "template_string" => .template
  | "arrow_function" => .arrow
  | "statement_block" => .block
  | "expression_statement" => .statement
  | "variable_declarator" => .declarator
  | _ => .unknown

namespace Model

/-- The span of a tree node. -/
def spanOf (d : Document) (t : Tree) : Span := d.spanOf t.start t.stop

/-- The source text of a tree node. -/
def textOf (d : Document) (t : Tree) : Outcome String := d.slice t.start t.stop

/-- The source text of a part that may be missing. -/
def textOf? (d : Document) (t : Option Tree) : Outcome (Option String) :=
  match t with
  | none => .ok none
  | some t => (textOf d t).map some

/-- A text without its first and last character. -/
def unquote (raw : String) : String :=
  String.ofList (raw.toList.drop 1).dropLast

/-- How a part is built. -/
abbrev Builder := Tree → Outcome Node

/-- Builds a part that may be missing. -/
def optional (part : Builder) (t : Option Tree) : Outcome (Option Node) :=
  match t with
  | none => .ok none
  | some t => (part t).map some

/-! ### Declarations -/

/-- The literal that names a module; only a string does. -/
def moduleLiteral (d : Document) (t : Option Tree) : Outcome (Option Literal) :=
  match t with
  | none => .ok none
  | some t =>
    if t.type = "string" then do
      let raw ← textOf d t
      pure (some ⟨spanOf d t, .str (unquote raw), raw⟩)
    else .ok none

/-- A binding in braces; it needs a name. -/
def namedSpecifier (d : Document) (t : Tree) : Outcome (Option Specifier) :=
  match t.field? "name" with
  | none => .ok none
  | some name => do
    let imported ← textOf d name
    let alias? ← textOf? d (t.field? "alias")
    pure (some ⟨spanOf d t, .named, imported, alias?.getD imported, t.hasKeyword "type"⟩)

/-- The bindings in braces of the given type; none if one of them has no name. -/
def namedSpecifiers (d : Document) (type : String) : List Tree → Outcome (Option (List Specifier))
  | [] => .ok (some [])
  | t :: rest =>
    if t.type = type then do
      match ← namedSpecifier d t with
      | none => pure none
      | some specifier =>
        let others ← namedSpecifiers d type rest
        pure (others.map (specifier :: ·))
    else namedSpecifiers d type rest

/-- The bindings of one part of an import clause. -/
def clausePart (d : Document) (t : Tree) : Outcome (Option (List Specifier)) :=
  if t.type = "identifier" then do
    let name ← textOf d t
    pure (some [⟨spanOf d t, .default, "default", name, false⟩])
  else if t.type = "namespace_import" then
    match t.first? "identifier" with
    | none => .ok none
    | some identifier => do
      let name ← textOf d identifier
      pure (some [⟨spanOf d t, .star, "*", name, false⟩])
  else if t.type = "named_imports" then namedSpecifiers d "import_specifier" t.kids
  else .ok (some [])

/-- The bindings of the parts of an import clause; none if one part has none. -/
def clauseParts (d : Document) : List Tree → Outcome (Option (List Specifier))
  | [] => .ok (some [])
  | t :: rest => do
    match ← clausePart d t with
    | none => pure none
    | some specifiers =>
      let others ← clauseParts d rest
      pure (others.map (specifiers ++ ·))

/-- An import declaration; it needs a module and bindings that can be read. -/
def importDeclaration (d : Document) (t : Tree) : Outcome (Option Node) := do
  match ← moduleLiteral d (t.field? "source") with
  | none => pure none
  | some source =>
    let clause := (t.first? "import_clause").map Tree.kids
    match ← clauseParts d (clause.getD []) with
    | none => pure none
    | some specifiers =>
      pure (some (.importDeclaration
        ⟨spanOf d t, some source, specifiers, t.hasKeyword "type"⟩))

/-- An export list; other exports have no bindings of their own. -/
def exportDeclaration (d : Document) (t : Tree) : Outcome (Option Node) :=
  match t.first? "export_clause" with
  | none => .ok none
  | some clause => do
    match ← namedSpecifiers d "export_specifier" clause.kids with
    | none => pure none
    | some specifiers =>
      let source ← moduleLiteral d (t.field? "source")
      pure (some (.exportDeclaration ⟨spanOf d t, source, specifiers, t.hasKeyword "type"⟩))

/-! ### Markup -/

/-- The name in a tag and its place. -/
def tagName (d : Document) (tag : Option Tree) : Outcome (String × Option Span) :=
  match tag.bind (·.field? "name") with
  | none => .ok ("", none)
  | some name => do
    let s ← textOf d name
    pure (s, some (spanOf d name))

/-- The value of an attribute: a string stands for its contents as written. -/
def attributeValue (d : Document) (part : Builder) (t : Option Tree) : Outcome (Option Node) :=
  match t with
  | none => .ok none
  | some t =>
    if t.type = "string" then do
      let raw ← textOf d t
      pure (some (.literal ⟨spanOf d t, .str (unquote raw), raw⟩))
    else (part t).map some

/-- An attribute: the first named child is its name, the second its value. -/
def attributeNode (d : Document) (part : Builder) (t : Tree) : Outcome Node := do
  let parts := t.kids
  let value ← attributeValue d part parts[1]?
  let name ← textOf? d parts[0]?
  pure (.attr ⟨spanOf d t, name.getD "", parts[0]?.map (spanOf d), value⟩)

/-- Attributes spread from an expression. -/
def spread (d : Document) (part : Builder) (t : Tree) : Outcome Node := do
  let argument := t.kids.head?.filter fun c => c.type == "spread_element"
  pure (.spread ⟨spanOf d t, ← optional part argument⟩)

/-- The attributes among the children of a tag. -/
def attributeList (d : Document) (part : Builder) : List Tree → Outcome (List Node)
  | [] => .ok []
  | t :: rest =>
    if t.type = "jsx_attribute" then do
      let a ← attributeNode d part t
      pure (a :: (← attributeList d part rest))
    else if t.type = "jsx_expression" then do
      let s ← spread d part t
      pure (s :: (← attributeList d part rest))
    else attributeList d part rest

/-- The attributes in a tag. -/
def attributes (d : Document) (part : Builder) (tag : Option Tree) : Outcome (List Node) :=
  attributeList d part ((tag.map Tree.kids).getD [])

/-- Whether a child of an element is one of its tags. -/
def isTag (t : Tree) : Bool :=
  t.type == "jsx_opening_element" || t.type == "jsx_closing_element"

/-- An element with an opening and a closing tag. -/
def element (d : Document) (part : Builder) (t : Tree) : Outcome Node := do
  let opening := (t.field? "open_tag").or (t.first? "jsx_opening_element")
  let closing := (t.field? "close_tag").or (t.last? "jsx_closing_element")
  let (name, nameSpan) ← tagName d opening
  let (_, closingNameSpan) ← tagName d closing
  let body ← (t.kids.filter fun c => !isTag c).mapM part
  let attributes ← attributes d part opening
  pure (.element
    ⟨spanOf d t, name, nameSpan, opening.map (spanOf d), closingNameSpan, attributes, body, false⟩)

/-- An element that is one tag. -/
def selfClosingElement (d : Document) (part : Builder) (t : Tree) : Outcome Node := do
  let (name, nameSpan) ← tagName d (some t)
  let attributes ← attributes d part (some t)
  pure (.element ⟨spanOf d t, name, nameSpan, some (spanOf d t), none, attributes, [], true⟩)

/-- Elements without a common parent. -/
def fragment (d : Document) (part : Builder) (t : Tree) : Outcome Node := do
  let body ← t.kids.mapM part
  pure (.element ⟨spanOf d t, "", none, none, none, [], body, false⟩)

/-! ### Literals -/

/-- A string literal.  With an escape inside, its value would have to be worked
out first; such a string is not kept as a literal. -/
def stringLiteral (d : Document) (t : Tree) : Outcome (Option Node) := do
  let raw ← textOf d t
  let inner := unquote raw
  if inner.toList.contains '\\' then pure none
  else pure (some (.literal ⟨spanOf d t, .str inner, raw⟩))

/-- A number literal; none if its text is no number. -/
def numberLiteral (d : Document) (t : Tree) : Outcome (Option Node) := do
  let raw ← textOf d t
  pure ((Literal.readNumber? raw).map fun v => .literal ⟨spanOf d t, v, raw⟩)

/-- The value of a keyword. -/
def keywordValue (type : String) : Value :=
  if type = "true" then .bool true else if type = "false" then .bool false else .null

/-- A literal piece of a template string. -/
def chunk (d : Document) (start stop : Int) : Outcome Chunk := do
  let raw ← d.slice start stop
  pure ⟨d.span start stop, raw⟩

/-- The expression of a substitution.  An empty one is an `Other` node between
its braces. -/
def substituted (d : Document) (part : Builder) (t : Tree) : Outcome Node :=
  match t.kids with
  | [] => .ok (.other ⟨d.span (t.start + 2) ((t.stop : Int) - 1), "empty", []⟩)
  | first :: _ => part first

/-- Chunks and expressions from the substitutions of a template string, the
first chunk beginning at `cursor` and the last one ending at `stop`. -/
def templateParts (d : Document) (part : Builder) (stop : Int) (cursor : Int) :
    List Tree → Outcome (List Chunk × List Node)
  | [] => do
    let last ← chunk d cursor stop
    pure ([last], [])
  | t :: rest => do
    let first ← chunk d cursor t.start
    let expression ← substituted d part t
    let (chunks, expressions) ← templateParts d part stop t.stop rest
    pure (first :: chunks, expression :: expressions)

/-- A template string: what lies between its quotes and substitutions. -/
def template (d : Document) (part : Builder) (t : Tree) : Outcome Node := do
  let substitutions := t.children.filter fun c => c.named && c.type == "template_substitution"
  let (chunks, expressions) ←
    templateParts d part ((t.stop : Int) - 1) (t.start + 1) substitutions
  pure (.template ⟨spanOf d t, chunks, expressions⟩)

/-! ### Functions and statements -/

/-- The types of tree nodes that are formal parameters. -/
def parameterTypes : List String :=
  ["identifier", "required_parameter", "optional_parameter", "assignment_pattern",
    "rest_pattern", "object_pattern", "array_pattern"]

/-- A formal parameter. -/
def parameter (d : Document) (part : Builder) (t : Tree) : Outcome (Parameter Node) := do
  let name ← textOf d t
  if t.type = "identifier" then pure ⟨spanOf d t, name, false, true, none⟩
  else
    let plain :=
      t.type == "required_parameter" &&
        match t.kids with
        | [only] => only.type == "identifier"
        | _ => false
    let default ← optional part ((t.field? "value").or (t.field? "right"))
    pure ⟨spanOf d t, name, (t.field? "type").isSome, plain, default⟩

/-- The tree nodes of an arrow function's parameters. -/
def parameterTrees (t : Tree) : List Tree :=
  match t.field? "parameter" with
  | some single => [single]
  | none =>
    match t.field? "parameters" with
    | some formal => formal.kids.filter fun c => parameterTypes.contains c.type
    | none => []

/-- An arrow function. -/
def arrow (d : Document) (part : Builder) (t : Tree) : Outcome Node := do
  let params ← (parameterTrees t).mapM (parameter d part)
  let body ← optional part (t.field? "body")
  let typeParameters ← textOf? d (t.field? "type_parameters")
  let returnType ← textOf? d (t.field? "return_type")
  pure (.arrow ⟨spanOf d t, params, body, t.hasKeyword "async", typeParameters, returnType⟩)

/-- The declarator of a variable; it needs a name. -/
def declarator (d : Document) (part : Builder) (t : Tree) : Outcome (Option Node) :=
  match t.field? "name" with
  | none => .ok none
  | some name => do
    let s ← textOf d name
    let init ← optional part (t.field? "value")
    pure (some (.declarator ⟨spanOf d t, s, spanOf d name, (t.field? "type").isSome, init⟩))

/-! ### Every construct -/

/-- A construct that is kept with all its named children. -/
def other (d : Document) (part : Builder) (t : Tree) : Outcome Node := do
  let nodes ← t.kids.mapM part
  pure (.other ⟨spanOf d t, t.type, nodes⟩)

/-- The node of a construct, none if it lacks a part it needs. -/
def construct (d : Document) (part : Builder) (t : Tree) : Construct → Outcome (Option Node)
  | .program => do
    let body ← t.kids.mapM part
    pure (some (.program ⟨spanOf d t, body⟩))
  | .importStatement => importDeclaration d t
  | .exportStatement => exportDeclaration d t
  | .element => some <$> element d part t
  | .selfClosingElement => some <$> selfClosingElement d part t
  | .fragment => some <$> fragment d part t
  | .container => do
    let expression ← optional part t.kids.head?
    pure (some (.container ⟨spanOf d t, expression⟩))
  | .text => do
    let value ← textOf d t
    pure (some (.text ⟨spanOf d t, value⟩))
  | .string => stringLiteral d t
  | .number => numberLiteral d t
  | .keyword => .ok (some (.literal ⟨spanOf d t, keywordValue t.type, t.type⟩))
  | .template => some <$> template d part t
  | .arrow => some <$> arrow d part t
  | .block => do
    let body ← t.kids.mapM part
    pure (some (.block ⟨spanOf d t, body, t.children.any Tree.isComment⟩))
  | .statement => do
    let expression ← optional part t.kids.head?
    pure (some (.statement ⟨spanOf d t, expression⟩))
  | .declarator => declarator d part t
  | .unknown => .ok none

/-- The node of a tree node, given how its parts are built. -/
def assemble (d : Document) (part : Builder) (t : Tree) : Outcome Node := do
  match ← construct d part t (Construct.ofType t.type) with
  | some n => pure n
  | none => other d part t

/-- Builds nodes down to a depth. -/
def buildWithin (d : Document) : (depth : Nat) → Builder
  | 0, t => .ok (.other ⟨spanOf d t, t.type, []⟩)
  | depth + 1, t => assemble d (buildWithin d depth) t

/-- The model node of a tree node. -/
def build (d : Document) (t : Tree) : Outcome Node :=
  buildWithin d t.height t

/-- The model of a whole file: the built root as a program. -/
def program (d : Document) (root : Tree) : Outcome (Program Node) := do
  match ← build d root with
  | .program p => pure p
  | n => pure ⟨n.span, n.children⟩

/-! ### Tokens -/

/-- The token of a leaf. -/
def token (d : Document) (t : Tree) : Outcome Token := do
  pure ⟨spanOf d t, ← textOf d t, t.type⟩

/-- The leaves of the pending trees that are neither empty nor part of a comment,
from the first pending tree on. -/
def leaves (pending : List Tree) : List Tree :=
  match pending with
  | [] => []
  | t :: rest =>
    if t.isComment then leaves rest
    else if t.children.isEmpty then
      if t.start < t.stop then t :: leaves rest else leaves rest
    else leaves (t.children ++ rest)
termination_by Tree.sizes pending
decreasing_by
  all_goals simp only [Tree.sizes, Tree.sizes_append, Tree.size_eq]; omega

/-- The tokens of a file, in order. -/
def tokens (d : Document) (root : Tree) : Outcome (List Token) :=
  (leaves [root]).mapM (token d)

end Model

end TsxLint
