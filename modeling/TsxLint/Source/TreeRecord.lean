/-
Module: TsxLint.Source.TreeRecord
Purpose: Parse trees as written values.
Main exports: Tree.ofValue, ParseTree.ofValue
-/
import TsxLint.Source.Tree
import TsxLint.Value.Order

namespace TsxLint

/-!
A written node is a list: its type, whether it is named, its field, its range, and its
children if it has any.  A list of two numbers stands for an unnamed leaf whose type is the
text in its range.  A written tree is an object with the root and the word on syntax errors.
-/

namespace Tree

/-- A node without a type, in place of a value that is no written node. -/
def blank : Tree := .node "" false "" 0 0 []

/-- The text in a range of bytes, empty if the range is not that of a text. -/
def textIn (data : ByteArray) (start stop : Int) : String :=
  (String.fromUTF8? (data.extract start.toNat stop.toNat)).getD ""

mutual

/-- The node that a value stands for, in a text with the given bytes. -/
def ofValue (data : ByteArray) : Value → Tree
  | .list [.int start, .int stop] =>
    .node (textIn data start stop) false "" start.toNat stop.toNat []
  | .list [.str type, named, .str field, .int start, .int stop] =>
    .node type named.truthy field start.toNat stop.toNat []
  | .list [.str type, named, .str field, .int start, .int stop, .list children] =>
    .node type named.truthy field start.toNat stop.toNat (ofValues data children)
  | _ => blank

/-- The nodes that values stand for. -/
def ofValues (data : ByteArray) : List Value → List Tree
  | [] => []
  | v :: rest => ofValue data v :: ofValues data rest

end

end Tree

/-- The tree that a value stands for, of a given text. -/
def ParseTree.ofValue (text : String) (v : Value) : ParseTree where
  root := Tree.ofValue text.toUTF8 (v.getD "r" .null)
  hasErrors := (v.getD "e" .null).truthy

end TsxLint
