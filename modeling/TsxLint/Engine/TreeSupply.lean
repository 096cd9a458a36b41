/-
Module: TsxLint.Engine.TreeSupply
Purpose: A grammar that takes its trees from a supply.
Main exports: TreeSupply, TreeSupply.grammar
-/
import TsxLint.Engine.Session
import TsxLint.Source.TreeRecord

namespace TsxLint

/-!
Where texts are parsed by another program, their trees come as written values, in the
order in which texts are asked about.
-/

/-- Written trees that are still to be used, and the texts asked about so far. -/
structure TreeSupply where
  trees : List Value
  parsed : List String

namespace TreeSupply

/-- A supply of which nothing has been used. -/
def ofList (trees : List Value) : TreeSupply := ⟨trees, []⟩

/-- The next tree of a supply; a text without a tree counts as one with syntax errors. -/
def next (supply : TreeSupply) (text : String) : ParseTree × TreeSupply :=
  match supply.trees with
  | v :: rest => (ParseTree.ofValue text v, ⟨rest, supply.parsed ++ [text]⟩)
  | [] => (⟨Tree.blank, true⟩, ⟨[], supply.parsed ++ [text]⟩)

/-- The grammar that takes the trees of a supply one by one. -/
def grammar : Grammar TreeSupply where
  parse supply text _ :=
    let (tree, rest) := supply.next text
    (.ok tree, rest)

end TreeSupply

end TsxLint
