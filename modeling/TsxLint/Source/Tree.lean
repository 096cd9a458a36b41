/-
Module: TsxLint.Source.Tree
Purpose: Concrete parse trees, as a grammar delivers them.
Main exports: Tree, ParseTree, Tree.kids, Tree.field?, Tree.isKeyword
-/

namespace TsxLint

/-!
A grammar answers a text with a concrete tree: every token is a leaf, and every
node has a type, a byte range and possibly the name of the field it fills in its
parent.  Nodes are either named or stand for a fixed piece of text.
-/

/-- A node of a concrete parse tree. -/
inductive Tree where
  | node (type : String) (named : Bool) (field : String) (start stop : Nat)
      (children : List Tree)
deriving Repr, Inhabited

namespace Tree

def type : Tree → String
  | .node type _ _ _ _ _ => type

def named : Tree → Bool
  | .node _ named _ _ _ _ => named

def field : Tree → String
  | .node _ _ field _ _ _ => field

def start : Tree → Nat
  | .node _ _ _ start _ _ => start

def stop : Tree → Nat
  | .node _ _ _ _ stop _ => stop

def children : Tree → List Tree
  | .node _ _ _ _ _ children => children

mutual

/-- The number of nodes on the longest way down. -/
def height : Tree → Nat
  | .node _ _ _ _ _ children => heights children + 1

/-- The greatest height among trees. -/
def heights : List Tree → Nat
  | [] => 0
  | t :: rest => max (height t) (heights rest)

end

mutual

/-- The number of nodes. -/
def size : Tree → Nat
  | .node _ _ _ _ _ children => sizes children + 1

/-- The number of nodes of several trees. -/
def sizes : List Tree → Nat
  | [] => 0
  | t :: rest => size t + sizes rest

end

theorem sizes_append (xs ys : List Tree) : sizes (xs ++ ys) = sizes xs + sizes ys := by
  induction xs with
  | nil => simp [sizes]
  | cons t rest ih => simp [sizes, ih, Nat.add_assoc]

theorem size_eq (t : Tree) : t.size = sizes t.children + 1 := by
  cases t; simp [size, children]

theorem height_le_heights {t : Tree} {ts : List Tree} (h : t ∈ ts) : t.height ≤ heights ts := by
  induction ts with
  | nil => cases h
  | cons u rest ih =>
    rcases List.mem_cons.1 h with rfl | h
    · simp only [heights]; omega
    · have := ih h; simp only [heights]; omega

/-- A child is lower than its parent. -/
theorem height_lt_of_mem_children {c t : Tree} (h : c ∈ t.children) : c.height < t.height := by
  cases t with
  | node type named field start stop children =>
    have : c.height ≤ heights children := height_le_heights h
    simp only [height]; omega

/-- Whether a node is a comment. -/
def isComment (t : Tree) : Bool := t.type == "comment"

/-- The named children that are no comments. -/
def kids (t : Tree) : List Tree :=
  t.children.filter fun c => c.named && !c.isComment

/-- The child that fills a field. -/
def field? (t : Tree) (field : String) : Option Tree :=
  t.children.find? fun c => c.field == field

/-- The first child of a type. -/
def first? (t : Tree) (type : String) : Option Tree :=
  t.children.find? fun c => c.type == type

/-- The last child of a type. -/
def last? (t : Tree) (type : String) : Option Tree :=
  t.children.reverse.find? fun c => c.type == type

/-- Whether a fixed word is among the children. -/
def hasKeyword (t : Tree) (word : String) : Bool :=
  t.children.any fun c => !c.named && c.type == word

end Tree

/-- A parsed text: the tree, and whether it holds syntax errors. -/
structure ParseTree where
  root : Tree
  hasErrors : Bool
deriving Repr, Inhabited

end TsxLint
