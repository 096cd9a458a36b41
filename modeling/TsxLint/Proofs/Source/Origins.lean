/-
Module: TsxLint.Proofs.Source.Origins
Purpose: Every node that rules look at is put together from a tree below the root.
Main exports: Model.IsFrom, Model.IsFrom.assembled, SourceFile.Parsed.exists_assembled,
  SourceFile.Parsed.exists_tag
-/
import TsxLint.Proofs.Source.Layout

namespace TsxLint

/-!
How deep in the file a node stands does not matter to what it is put together from, so the depth
that bounds the building is left open here.  A node other than those made on the way is assembled
from some tree below the root, and its parts are assembled from trees in turn.  Nothing is asked of
the tree for this, not even that its nodes lie where they should.
-/

namespace Model

variable {d : Document} {root t : Tree} {n : Node}

/-- A node is what is built of a tree, down to some depth. -/
def IsFrom (d : Document) (t : Tree) (n : Node) : Prop := ∃ depth, buildWithin d depth t = .ok n

/-- Only a construct that is kept whole may be cut off at the bottom, so any other node is put
together from parts. -/
theorem IsFrom.assembled (h : IsFrom d t n) (hkind : n.kind ≠ .other) :
    Assembled d (IsFrom d) t n := by
  obtain ⟨depth, h⟩ := h
  cases depth with
  | zero =>
    cases h
    exact absurd rfl hkind
  | succ depth => exact assembled_of_assemble (fun c m hm => ⟨depth, hm⟩) h

/-- A part that is there is related to a tree that is there. -/
theorem exists_of_rel_some {α β : Type} {R : α → β → Prop} {x : Option α} {b : β}
    (h : Option.Rel R x (some b)) : ∃ a, x = some a ∧ R a b := by
  cases h with
  | some h => exact ⟨_, rfl, h⟩

/-- What is built of a tree is no part of a tag or of a parameter list. -/
theorem IsFrom.kind_not_mem (h : IsFrom d t n) :
    n.kind ∉ [NodeKind.attr, .spread, .parameter] := by
  by_cases hkind : n.kind = .other
  · simp [hkind]
  · cases h.assembled hkind <;> simp [Node.kind]

theorem IsFrom.span_eq (h : IsFrom d t n) : n.span = spanOf d t := by
  obtain ⟨depth, h⟩ := h
  cases depth with
  | zero =>
    cases h
    rfl
  | succ depth =>
    have hassembled : Assembled d (IsFrom d) t n :=
      assembled_of_assemble (fun c m hm => ⟨depth, hm⟩) h
    exact hassembled.span_eq

/-- The kinds of nodes that are made on the way, and that of constructs that are kept whole. -/
def made : List NodeKind :=
  [.attr, .spread, .parameter, .chunk, .specifier, .literal, .other]

/-- A node is made on the way, or built of a tree below the root. -/
def HasOrigin (d : Document) (root : Tree) (n : Node) : Prop :=
  n.kind ∈ made ∨ ∃ u ∈ root.subtrees, IsFrom d u n

theorem holdsOfSmall_hasOrigin : HoldsOfSmall (HasOrigin d root) where
  bare h := .inl (List.mem_append_right [NodeKind.attr, .spread, .parameter] h.2)
  inner h := .inl (List.mem_append_left [NodeKind.chunk, .specifier, .literal, .other] h)

/-- Everything below what is built of a tree has its origin there. -/
theorem throughout_hasOrigin {depth : Nat} (ht : t ∈ root.subtrees)
    (h : buildWithin d depth t = .ok n) : n.Throughout (HasOrigin d root) := by
  induction depth generalizing t n with
  | zero =>
    cases h
    exact holdsOfSmall_hasOrigin.throughout_bare ⟨rfl, by simp [Node.kind]⟩
  | succ depth ih =>
    have hparts :
        Assembled d (fun c m => c ∈ root.subtrees → m.Throughout (HasOrigin d root)) t n :=
      assembled_of_assemble (fun c m hm hc => ih hc hm) h
    have hyields : Assembled d (Yields (HasOrigin d root)) t n :=
      hparts.imp fun c hc m hm => hm (Tree.mem_subtrees_trans hc ht)
    exact Node.throughout_of_children (.inr ⟨t, ht, depth + 1, h⟩)
      fun c hc => throughout_children_of_assembled holdsOfSmall_hasOrigin hyields hc

end Model

/-- A node of a file that is not made on the way is put together from a tree below the root. -/
theorem SourceFile.Parsed.exists_assembled {text : String} {root : Tree} {source : SourceFile}
    (hs : source.Parsed text root) {n : Node} (hn : n ∈ source.root.preorder)
    (hkind : n.kind ∉ .program :: Model.made) :
    ∃ u ∈ root.subtrees,
      Model.Assembled (Document.ofText text) (Model.IsFrom (Document.ofText text)) u n := by
  obtain ⟨hprogram, hmade⟩ := not_or.1 (mt List.mem_cons.2 hkind)
  obtain ⟨m, hbuild, hbelow⟩ := hs.exists_build_of_mem
  rcases Model.throughout_hasOrigin (Tree.self_mem_subtrees root) hbuild n (hbelow n hn hprogram)
    with hin | ⟨u, hu, hfrom⟩
  · exact absurd hin hmade
  · exact ⟨u, hu, hfrom.assembled fun hother => hmade (by simp [Model.made, hother])⟩

/-- The name of an element and its attributes come from a tag, and its contents are built of trees;
a fragment has no tag. -/
theorem SourceFile.Parsed.exists_tag {text : String} {root : Tree} {source : SourceFile}
    (hs : source.Parsed text root) {e : Element Node} (he : .element e ∈ source.root.preorder) :
    ∃ tag bodies, (∀ c ∈ tag, c ∈ root.subtrees) ∧
      Model.tagName (Document.ofText text) tag = .ok (e.name, e.nameSpan) ∧
      List.Forall₂ (Model.AttributeFrom (Document.ofText text)
        (Model.IsFrom (Document.ofText text))) (Model.attributeTrees tag) e.attributes ∧
      List.Forall₂ (Model.IsFrom (Document.ofText text)) bodies e.body := by
  obtain ⟨u, hu, hassembled⟩ := hs.exists_assembled he (by simp [Node.kind, Model.made])
  cases hassembled with
  | element type hopening hclosing hattributes hbody =>
    refine ⟨_, _, fun c hc => ?_, hopening, hattributes, hbody⟩
    exact Tree.mem_subtrees_trans
      (Tree.mem_subtrees_of_mem_children (Model.openingTree?_mem hc)) hu
  | selfClosing type hopening hattributes =>
    refine ⟨some u, [], fun c hc => ?_, hopening, hattributes, .nil⟩
    cases hc
    exact hu
  | fragment type hbody =>
    refine ⟨none, _, fun c hc => ?_, rfl, .nil, hbody⟩
    cases hc

end TsxLint
