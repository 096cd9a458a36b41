/-
Module: TsxLint.Proofs.Source.Statements
Purpose: Which trees the statements of a file are built of.
Main exports: Model.IsBuilt, Model.IsBuilt.assembled, SourceFile.Parsed.forall₂_isBuilt_body
-/
import TsxLint.Proofs.Source.Files
import TsxLint.Proofs.Source.Markup

namespace TsxLint

/-!
The depth that bounds the building of a node is of no account as long as the tree is not higher.  So
what a node is built of is read as a relation without it, and this relation passes from a tree to its
children.  The statements of a file are built of the named children of the root, in order, if the
root is a program or what a grammar answers when it finds none.
-/

namespace Model

variable {d : Document} {t : Tree} {n : Node}

/-- A node is what is built of a tree, down to a depth that the tree does not exceed. -/
def IsBuilt (d : Document) (t : Tree) (n : Node) : Prop :=
  ∃ depth, t.height ≤ depth ∧ buildWithin d depth t = .ok n

theorem IsBuilt.exists_assemble (h : IsBuilt d t n) :
    ∃ part : Builder, assemble d part t = .ok n ∧
      ∀ c ∈ t.children, ∀ m, part c = .ok m → IsBuilt d c m := by
  obtain ⟨depth, hdepth, h⟩ := h
  have hpos := height_pos t
  cases depth with
  | zero => omega
  | succ depth =>
    refine ⟨buildWithin d depth, h, ?_⟩
    intro c hc m hm
    have hlower := Tree.height_lt_of_mem_children hc
    exact ⟨depth, by omega, hm⟩

/-- What is built of a tree is put together from what is built of its children. -/
theorem IsBuilt.assembled (h : IsBuilt d t n) :
    Assembled d (fun c m => c ∈ t.children → IsBuilt d c m) t n := by
  obtain ⟨part, hpart, hbuilt⟩ := h.exists_assemble
  exact assembled_of_assemble (fun c m hm hc => hbuilt c hc m hm) hpart

theorem IsBuilt.span_eq (h : IsBuilt d t n) : n.span = spanOf d t := by
  obtain ⟨part, hpart, -⟩ := h.exists_assemble
  exact span_of_assemble hpart

theorem IsBuilt.start_eq (h : IsBuilt d t n) : n.start = t.start := by
  rw [Node.start, h.span_eq]
  rfl

theorem IsBuilt.stop_eq (h : IsBuilt d t n) : n.stop = t.stop := by
  rw [Node.stop, h.span_eq]
  rfl

theorem IsBuilt.isKeptWhole_of_other (h : IsBuilt d t n) (hkind : n.kind = .other) :
    isKeptWhole d t = true := by
  obtain ⟨part, hpart, -⟩ := h.exists_assemble
  by_contra hwhole
  exact not_other_of_assemble hpart (eq_false_of_ne_true hwhole) hkind

theorem forall₂_isBuilt_kids {nodes : List Node}
    (h : List.Forall₂ (fun c m => c ∈ t.children → IsBuilt d c m) t.kids nodes) :
    List.Forall₂ (IsBuilt d) t.kids nodes := by
  have hchildren : ∀ c ∈ t.kids, c ∈ t.children := fun c => Tree.mem_children_of_mem_kids
  refine ((List.forall₂_and_left _ _).2 ⟨hchildren, h⟩).imp ?_
  rintro c m ⟨hc, hm⟩
  exact hm hc

end Model

/-- The statements of a file are built of the named children of the root. -/
theorem SourceFile.Parsed.forall₂_isBuilt_body {text : String} {root : Tree} {source : SourceFile}
    (hs : source.Parsed text root) (htop : root.type ∈ ["program", "ERROR"]) :
    List.Forall₂ (Model.IsBuilt (Document.ofText text)) root.kids source.program.body := by
  obtain ⟨n, hn, -, hbody⟩ := hs.exists_build
  have hbuilt : Model.IsBuilt (Document.ofText text) root n := ⟨root.height, Nat.le_refl _, hn⟩
  rw [hbody]
  cases hbuilt.assembled with
  | program _ hkids => exact Model.forall₂_isBuilt_kids hkids
  | other _ hkids => exact Model.forall₂_isBuilt_kids hkids
  | _ => grind

end TsxLint
