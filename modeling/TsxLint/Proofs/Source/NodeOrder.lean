/-
Module: TsxLint.Proofs.Source.NodeOrder
Purpose: Putting nodes in order of their beginnings.
Main exports: Node.pairwise_start_inOrder, Node.inOrder_eq_of_perm, Node.pairwise_inOrder
-/
import Mathlib.Data.List.Pairwise
import Mathlib.Data.List.Sort
import TsxLint.Source.Node

namespace TsxLint.Node

/-!
Nodes are put in order by insertion, so that those that begin together keep their order.  Two nodes
trade places only if the one behind begins first, and so whatever relates the nodes of a list in
turn still does when they are in order, as long as such trades do no harm.
-/

variable {n : Node} {nodes : List Node}

theorem insertInOrder_eq_orderedInsert (n : Node) (nodes : List Node) :
    insertInOrder n nodes = nodes.orderedInsert (fun a b => a.start ≤ b.start) n := by
  induction nodes with
  | nil => rfl
  | cons m rest ih => rw [insertInOrder, List.orderedInsert, ih]

theorem inOrder_eq_insertionSort (nodes : List Node) :
    inOrder nodes = nodes.insertionSort fun a b => a.start ≤ b.start := by
  induction nodes with
  | nil => rfl
  | cons n rest ih =>
    show insertInOrder n (inOrder rest) = List.orderedInsert _ n (rest.insertionSort _)
    rw [insertInOrder_eq_orderedInsert, ih]

theorem pairwise_start_inOrder (nodes : List Node) :
    (inOrder nodes).Pairwise fun a b => a.start ≤ b.start := by
  have : Std.Total (fun a b : Node => a.start ≤ b.start) := ⟨fun a b => Int.le_total _ _⟩
  have : IsTrans Node (fun a b => a.start ≤ b.start) := ⟨fun a b c => Int.le_trans⟩
  rw [inOrder_eq_insertionSort]
  exact List.pairwise_insertionSort _ nodes

/-- Nodes that begin one behind the other are what any arrangement of them is put in order to. -/
theorem inOrder_eq_of_perm {sorted : List Node} (hperm : nodes.Perm sorted)
    (hsorted : sorted.Pairwise fun a b => a.start < b.start) : inOrder nodes = sorted := by
  have hsame := (inOrder_perm nodes).trans hperm
  refine hsame.eq_of_pairwise (fun a b ha hb hab hba => ?_) (pairwise_start_inOrder nodes)
    (hsorted.imp Int.le_of_lt)
  -- two different nodes of the list do not begin together
  by_contra hne
  have : Std.Symm (fun a b : Node => a.start ≠ b.start) := ⟨fun _ _ => Ne.symm⟩
  have hapart : sorted.Pairwise fun a b => a.start ≠ b.start := hsorted.imp Int.ne_of_lt
  exact hapart.forall (hsame.subset ha) hb hne (Int.le_antisymm hab hba)

section Pairwise

variable {R : Node → Node → Prop} (swap : ∀ a b, R a b → b.start < a.start → R b a)
include swap

theorem pairwise_insertInOrder (h : (n :: nodes).Pairwise R) :
    (insertInOrder n nodes).Pairwise R := by
  induction nodes with
  | nil => exact h
  | cons m rest ih =>
    rw [insertInOrder]
    by_cases hle : n.start ≤ m.start
    · rw [if_pos hle]
      exact h
    · rw [if_neg hle]
      obtain ⟨hn, hm⟩ := List.pairwise_cons.1 h
      have hrest := List.pairwise_cons.2 ⟨fun x hx => hn x (List.mem_cons_of_mem m hx), hm.of_cons⟩
      refine List.pairwise_cons.2 ⟨fun x hx => ?_, ih hrest⟩
      rcases List.mem_cons.1 ((insertInOrder_perm n rest).mem_iff.1 hx) with rfl | hx
      -- Only the inserted node moves behind `m`.
      · exact swap x m (hn m List.mem_cons_self) (by omega)
      · exact List.rel_of_pairwise_cons hm hx

/-- A relation holds along nodes that are put in order if it held before, and if two nodes that
trade places are related the other way as well. -/
theorem pairwise_inOrder (h : nodes.Pairwise R) : (inOrder nodes).Pairwise R := by
  induction nodes with
  | nil => exact .nil
  | cons n rest ih =>
    obtain ⟨hn, hrest⟩ := List.pairwise_cons.1 h
    apply pairwise_insertInOrder swap
    exact List.pairwise_cons.2 ⟨fun m hm => hn m ((inOrder_perm rest).mem_iff.1 hm), ih hrest⟩

end Pairwise

end TsxLint.Node
