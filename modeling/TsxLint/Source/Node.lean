/-
Module: TsxLint.Source.Node
Purpose: The node model that rules inspect.
Main exports: Node, NodeKind, Node.kind, Node.span, Node.children, Node.preorder
-/
import TsxLint.Source.Position
import TsxLint.Text.Blank

namespace TsxLint

/-!
Only the constructs that rules inspect have nodes of their own: imports and
re-exports, markup, literals, template strings, arrow functions and declarators.
Every other construct is an `Other` node that keeps its children, so a traversal
still reaches what is nested in it.

Each construct is a structure over the type of its child nodes, and `Node` closes
the family.
-/

/-- The closed set of node kinds. -/
inductive NodeKind where
  | program
  | importDeclaration
  | exportDeclaration
  | specifier
  | element
  | attr
  | spread
  | container
  | text
  | literal
  | template
  | chunk
  | arrow
  | parameter
  | block
  | statement
  | declarator
  | other
deriving DecidableEq, Repr, Inhabited

namespace NodeKind

/-- Every kind. -/
def all : List NodeKind :=
  [.program, .importDeclaration, .exportDeclaration, .specifier, .element, .attr, .spread,
    .container, .text, .literal, .template, .chunk, .arrow, .parameter, .block, .statement,
    .declarator, .other]

/-- The name of a kind. -/
def name : NodeKind → String
  | .program => "program"
  | .importDeclaration => "import_declaration"
  | .exportDeclaration => "export_declaration"
  | .specifier => "specifier"
  | .element => "jsx_element"
  | .attr => "jsx_attribute"
  | .spread => "jsx_spread_attribute"
  | .container => "jsx_expression_container"
  | .text => "jsx_text"
  | .literal => "literal"
  | .template => "template_literal"
  | .chunk => "template_element"
  | .arrow => "arrow_function"
  | .parameter => "parameter"
  | .block => "block"
  | .statement => "expression_statement"
  | .declarator => "variable_declarator"
  | .other => "other"

/-- The kind with a name. -/
def ofName? (name : String) : Option NodeKind :=
  all.find? fun k => k.name == name

end NodeKind

/-- The shape of an imported or exported binding. -/
inductive SpecifierKind where
  | default
  | star
  | named
deriving DecidableEq, Repr, Inhabited

/-- The name of a shape. -/
def SpecifierKind.name : SpecifierKind → String
  | .default => "default"
  | .star => "namespace"
  | .named => "named"

/-- A lexical unit of the source. -/
structure Token where
  span : Span
  text : String
  type : String
deriving DecidableEq, Repr, Inhabited

/-! ### Constructs without child nodes -/

/-- A text, number, truth value or null; `raw` is its source text. -/
structure Literal where
  span : Span
  value : Value
  raw : String
deriving Repr, Inhabited, BEq

/-- One imported or exported binding: the name at the module side and the name
the binding is known by, which are equal when there is no alias. -/
structure Specifier where
  span : Span
  kind : SpecifierKind
  imported : String
  bound : String
  typeOnly : Bool
deriving DecidableEq, Repr, Inhabited

/-- Whether a binding is known by another name than at its module. -/
def Specifier.hasAlias (s : Specifier) : Bool := s.imported != s.bound

/-- An import declaration, or an export list with or without a module. -/
structure Declaration where
  span : Span
  source : Option Literal
  specifiers : List Specifier
  typeOnly : Bool
deriving Repr, Inhabited, BEq

/-- The module a declaration names. -/
def Declaration.module? (d : Declaration) : Option String :=
  match d.source with
  | some ⟨_, .str name, _⟩ => some name
  | _ => none

/-- Text between markup tags. -/
structure MarkupText where
  span : Span
  value : String
deriving Repr, Inhabited, BEq

/-- A literal piece of a template string, as written. -/
structure Chunk where
  span : Span
  raw : String
deriving Repr, Inhabited, BEq

/-! ### Constructs over child nodes -/

/-- Any construct that rules do not inspect. -/
structure Other (ν : Type) where
  span : Span
  typeName : String
  nodes : List ν

/-- A whole file. -/
structure Program (ν : Type) where
  span : Span
  body : List ν

/-- An expression between braces inside markup; an empty pair of braces has no
expression. -/
structure Container (ν : Type) where
  span : Span
  expression : Option ν

/-- An attribute of an element. -/
structure Attribute (ν : Type) where
  span : Span
  name : String
  nameSpan : Option Span
  value : Option ν

/-- Attributes spread from an expression. -/
structure Spread (ν : Type) where
  span : Span
  argument : Option ν

/-- An element of markup.  A fragment has an empty name; an element without a
closing tag has no span for the name in it. -/
structure Element (ν : Type) where
  span : Span
  name : String
  nameSpan : Option Span
  openingSpan : Option Span
  closingNameSpan : Option Span
  attributes : List ν
  body : List ν
  selfClosing : Bool

/-- A template string: chunk `i` comes before expression `i`, and there is one
more chunk than there are expressions. -/
structure Template (ν : Type) where
  span : Span
  chunks : List Chunk
  expressions : List ν

/-- A formal parameter.  It is an identifier only if it is a plain name without
annotation, default or mark. -/
structure Parameter (ν : Type) where
  span : Span
  name : String
  typeAnnotated : Bool
  isIdentifier : Bool
  default : Option ν

/-- A block of statements. -/
structure Block (ν : Type) where
  span : Span
  body : List ν
  hasComments : Bool

/-- An expression used as a statement. -/
structure Statement (ν : Type) where
  span : Span
  expression : Option ν

/-- An arrow function. -/
structure Arrow (ν : Type) where
  span : Span
  params : List (Parameter ν)
  body : Option ν
  isAsync : Bool
  typeParameters : Option String
  returnType : Option String

/-- The declarator of a variable. -/
structure Declarator (ν : Type) where
  span : Span
  name : String
  nameSpan : Span
  typeAnnotated : Bool
  init : Option ν

/-- A node of the model. -/
inductive Node where
  | other (n : Other Node)
  | program (n : Program Node)
  | literal (n : Literal)
  | specifier (n : Specifier)
  | importDeclaration (n : Declaration)
  | exportDeclaration (n : Declaration)
  | text (n : MarkupText)
  | container (n : Container Node)
  | attr (n : Attribute Node)
  | spread (n : Spread Node)
  | element (n : Element Node)
  | chunk (n : Chunk)
  | template (n : Template Node)
  | parameter (n : Parameter Node)
  | block (n : Block Node)
  | statement (n : Statement Node)
  | arrow (n : Arrow Node)
  | declarator (n : Declarator Node)

instance : Inhabited Node := ⟨.chunk default⟩

namespace Node

def kind : Node → NodeKind
  | .other _ => .other
  | .program _ => .program
  | .literal _ => .literal
  | .specifier _ => .specifier
  | .importDeclaration _ => .importDeclaration
  | .exportDeclaration _ => .exportDeclaration
  | .text _ => .text
  | .container _ => .container
  | .attr _ => .attr
  | .spread _ => .spread
  | .element _ => .element
  | .chunk _ => .chunk
  | .template _ => .template
  | .parameter _ => .parameter
  | .block _ => .block
  | .statement _ => .statement
  | .arrow _ => .arrow
  | .declarator _ => .declarator

def span : Node → Span
  | .other n => n.span
  | .program n => n.span
  | .literal n => n.span
  | .specifier n => n.span
  | .importDeclaration n => n.span
  | .exportDeclaration n => n.span
  | .text n => n.span
  | .container n => n.span
  | .attr n => n.span
  | .spread n => n.span
  | .element n => n.span
  | .chunk n => n.span
  | .template n => n.span
  | .parameter n => n.span
  | .block n => n.span
  | .statement n => n.span
  | .arrow n => n.span
  | .declarator n => n.span

/-- Where a node begins. -/
def start (n : Node) : Int := n.span.start

/-- Where a node ends. -/
def stop (n : Node) : Int := n.span.stop

/-- Puts a node in front of the first of several that begins no earlier. -/
def insertInOrder (n : Node) : List Node → List Node
  | [] => [n]
  | m :: rest => if n.start ≤ m.start then n :: m :: rest else m :: insertInOrder n rest

/-- Nodes in order of their beginnings; nodes that begin together keep their
order. -/
def inOrder (nodes : List Node) : List Node :=
  nodes.foldr insertInOrder []

theorem insertInOrder_perm (n : Node) (nodes : List Node) :
    (insertInOrder n nodes).Perm (n :: nodes) := by
  induction nodes with
  | nil => exact .refl _
  | cons m rest ih =>
    rw [insertInOrder]
    by_cases h : n.start ≤ m.start
    · rw [if_pos h]
    · rw [if_neg h]
      exact (ih.cons m).trans (.swap n m rest)

theorem inOrder_perm (nodes : List Node) : (inOrder nodes).Perm nodes := by
  induction nodes with
  | nil => exact .refl _
  | cons n rest ih => exact (insertInOrder_perm n (inOrder rest)).trans (ih.cons n)

/-- The child nodes in document order: bindings before their module, attributes
before contents, parameters before the body, and the parts of a template string
by where they begin. -/
def children : Node → List Node
  | .other n => n.nodes
  | .program n => n.body
  | .importDeclaration n | .exportDeclaration n =>
    n.specifiers.map .specifier ++ (n.source.map .literal).toList
  | .container n => n.expression.toList
  | .attr n => n.value.toList
  | .spread n => n.argument.toList
  | .element n => n.attributes ++ n.body
  | .template n => inOrder (n.chunks.map .chunk ++ n.expressions)
  | .parameter n => n.default.toList
  | .block n => n.body
  | .statement n => n.expression.toList
  | .arrow n => n.params.map .parameter ++ n.body.toList
  | .declarator n => n.init.toList
  | .literal _ | .specifier _ | .text _ | .chunk _ => []

/-- A child is smaller than its parent. -/
theorem sizeOf_lt_of_mem_children {c n : Node} (h : c ∈ n.children) : sizeOf c < sizeOf n := by
  cases n with
  | other n =>
    obtain ⟨span, typeName, nodes⟩ := n
    have := List.sizeOf_lt_of_mem (show c ∈ nodes from h)
    simp; omega
  | program n =>
    obtain ⟨span, body⟩ := n
    have := List.sizeOf_lt_of_mem (show c ∈ body from h)
    simp; omega
  | literal n => cases h
  | specifier n => cases h
  | importDeclaration n =>
    obtain ⟨span, source, specifiers, typeOnly⟩ := n
    simp only [children, List.mem_append, List.mem_map, Option.mem_toList,
      Option.map_eq_some_iff] at h
    rcases h with ⟨s, hs, rfl⟩ | ⟨l, hl, rfl⟩
    · have := List.sizeOf_lt_of_mem hs
      simp; omega
    · subst hl; simp; omega
  | exportDeclaration n =>
    obtain ⟨span, source, specifiers, typeOnly⟩ := n
    simp only [children, List.mem_append, List.mem_map, Option.mem_toList,
      Option.map_eq_some_iff] at h
    rcases h with ⟨s, hs, rfl⟩ | ⟨l, hl, rfl⟩
    · have := List.sizeOf_lt_of_mem hs
      simp; omega
    · subst hl; simp; omega
  | text n => cases h
  | container n =>
    obtain ⟨span, expression⟩ := n
    simp only [children, Option.mem_toList] at h
    subst h; simp; omega
  | attr n =>
    obtain ⟨span, name, nameSpan, value⟩ := n
    simp only [children, Option.mem_toList] at h
    subst h; simp; omega
  | spread n =>
    obtain ⟨span, argument⟩ := n
    simp only [children, Option.mem_toList] at h
    subst h; simp; omega
  | element n =>
    obtain ⟨span, name, nameSpan, openingSpan, closingNameSpan, attributes, body, selfClosing⟩ := n
    rcases List.mem_append.1 (show c ∈ attributes ++ body from h) with h | h
    · have := List.sizeOf_lt_of_mem h
      simp; omega
    · have := List.sizeOf_lt_of_mem h
      simp; omega
  | chunk n => cases h
  | template n =>
    obtain ⟨span, chunks, expressions⟩ := n
    have h : c ∈ chunks.map Node.chunk ++ expressions := (inOrder_perm _).mem_iff.1 h
    rcases List.mem_append.1 h with h | h
    · obtain ⟨k, hk, rfl⟩ := List.mem_map.1 h
      have := List.sizeOf_lt_of_mem hk
      simp; omega
    · have := List.sizeOf_lt_of_mem h
      simp; omega
  | parameter n =>
    obtain ⟨span, name, typeAnnotated, isIdentifier, default⟩ := n
    simp only [children, Option.mem_toList] at h
    subst h; simp; omega
  | block n =>
    obtain ⟨span, body, hasComments⟩ := n
    have := List.sizeOf_lt_of_mem (show c ∈ body from h)
    simp; omega
  | statement n =>
    obtain ⟨span, expression⟩ := n
    simp only [children, Option.mem_toList] at h
    subst h; simp; omega
  | arrow n =>
    obtain ⟨span, params, body, isAsync, typeParameters, returnType⟩ := n
    simp only [children, List.mem_append, List.mem_map, Option.mem_toList] at h
    rcases h with ⟨p, hp, rfl⟩ | h
    · have := List.sizeOf_lt_of_mem hp
      simp; omega
    · subst h; simp; omega
  | declarator n =>
    obtain ⟨span, name, nameSpan, typeAnnotated, init⟩ := n
    simp only [children, Option.mem_toList] at h
    subst h; simp; omega

/-- A node and all of its descendants, each node before its children. -/
def preorder (n : Node) : List Node :=
  n :: n.children.attach.flatMap fun ⟨c, _⟩ => preorder c
termination_by sizeOf n
decreasing_by exact sizeOf_lt_of_mem_children ‹_›

/-- The preorder of a node is the node and the preorders of its children. -/
theorem preorder_eq (n : Node) : n.preorder = n :: n.children.flatMap preorder := by
  rw [preorder]
  congr 1
  conv => rhs; rw [← List.attach_map_subtype_val n.children]
  simp

end Node

/-! ### Markup -/

namespace MarkupText

/-- Whether a text between tags holds nothing but white space. -/
def isWhitespace (t : MarkupText) : Bool := Text.isBlankText t.value

end MarkupText

namespace Element

/-- Whether an element is a fragment. -/
def isFragment {ν : Type} (e : Element ν) : Bool := e.name == ""

/-- The first attribute with a name. -/
def attribute? (e : Element Node) (name : String) : Option (Attribute Node) :=
  e.attributes.findSome? fun n =>
    match n with
    | .attr a => if a.name = name then some a else none
    | _ => none

/-- Whether a child of an element counts: white space and empty braces do not. -/
def isSignificant (n : Node) : Bool :=
  match n with
  | .text t => !t.isWhitespace
  | .container c => c.expression.isSome
  | _ => true

/-- The children of an element that count. -/
def significantChildren (e : Element Node) : List Node :=
  e.body.filter isSignificant

end Element

end TsxLint
