/-
Module: TsxLint.Proofs.Source.Templates
Purpose: What holds of everything that is put together holds of every node of a model.
Main exports: Node.Throughout, Model.throughout_of_build, SourceFile.Parsed.alternates
-/
import TsxLint.Proofs.Source.Files

namespace TsxLint

/-!
The nodes of a model are put together from their parts, except for a few small ones that are made
on the way: attributes, parameters, and nodes without children.  So a property of the constructs
that are put together passes to all nodes below a root if the small ones have it too.  It is
used here for template strings, whose chunks and substitutions take turns.
-/

/-- A property holds of a node and of all nodes below it. -/
def Node.Throughout (Q : Node → Prop) (n : Node) : Prop := ∀ m ∈ n.preorder, Q m

theorem Node.throughout_of_children {Q : Node → Prop} {n : Node} (h : Q n)
    (hchildren : ∀ c ∈ n.children, c.Throughout Q) : n.Throughout Q := by
  intro m hm
  rcases mem_preorder_iff.1 hm with rfl | ⟨c, hc, hm⟩
  · exact h
  · exact hchildren c hc m hm

theorem Node.Throughout.of_mem_children {Q : Node → Prop} {c n : Node} (h : n.Throughout Q)
    (hc : c ∈ n.children) : c.Throughout Q := fun m hm =>
  h m (mem_preorder_iff.2 (.inr ⟨c, hc, hm⟩))

/-- The children of a node below a node are below it as well. -/
theorem Node.mem_preorder_of_mem_children {c m n : Node} (hm : m ∈ n.preorder)
    (hc : c ∈ m.children) : c ∈ n.preorder := by
  rcases mem_preorder_iff.1 hm with rfl | ⟨child, hchild, hm⟩
  · exact mem_preorder_iff.2 (.inr ⟨c, hc, c.self_mem_preorder⟩)
  · exact mem_preorder_iff.2 (.inr ⟨child, hchild, mem_preorder_of_mem_children hm hc⟩)
termination_by sizeOf n
decreasing_by exact Node.sizeOf_lt_of_mem_children hchild

namespace Model

variable {d : Document} {Q : Node → Prop} {t : Tree} {n : Node}

/-- What is made on the way has a property. -/
structure HoldsOfSmall (Q : Node → Prop) : Prop where
  bare : ∀ {n : Node}, IsBare n → Q n
  inner : ∀ {n : Node}, n.kind ∈ [NodeKind.attr, .spread, .parameter] → Q n

theorem HoldsOfSmall.throughout_bare (hsmall : HoldsOfSmall Q) (h : IsBare n) : n.Throughout Q := by
  apply Node.throughout_of_children (hsmall.bare h)
  rw [h.1]
  intro c hc
  cases hc

/-- The relation between a tree and a node below which everything has a property. -/
abbrev Yields (Q : Node → Prop) : Tree → Node → Prop := fun _ n => n.Throughout Q

theorem throughout_of_mem {ts : List Tree} {nodes : List Node}
    (h : List.Forall₂ (Yields Q) ts nodes) {c : Node} (hc : c ∈ nodes) : c.Throughout Q := by
  obtain ⟨_, -, hyields⟩ := Outcome.exists_left_of_mem h hc
  exact hyields

theorem throughout_of_rel {u : Option Tree} {m : Option Node} (h : Option.Rel (Yields Q) u m)
    {c : Node} (hc : c ∈ m.toList) : c.Throughout Q := by
  cases h with
  | none => cases hc
  | some h =>
    cases List.mem_singleton.1 hc
    exact h

theorem throughout_of_valueFrom (hsmall : HoldsOfSmall Q) {u : Option Tree} {m : Option Node}
    (h : ValueFrom d (Yields Q) u m) {c : Node} (hc : c ∈ m.toList) : c.Throughout Q := by
  cases h with
  | missing => cases hc
  | string type text =>
    cases List.mem_singleton.1 hc
    exact hsmall.throughout_bare ⟨rfl, by simp [Node.kind]⟩
  | part type built => exact throughout_of_rel (.some built) hc

theorem throughout_of_attributeFrom (hsmall : HoldsOfSmall Q)
    (h : AttributeFrom d (Yields Q) t n) : n.Throughout Q := by
  cases h with
  | attr type hvalue hname =>
    exact Node.throughout_of_children (hsmall.inner (by simp [Node.kind]))
      fun c hc => throughout_of_valueFrom hsmall hvalue hc
  | spread type hargument =>
    exact Node.throughout_of_children (hsmall.inner (by simp [Node.kind]))
      fun c hc => throughout_of_rel hargument hc

theorem throughout_of_mem_attributes (hsmall : HoldsOfSmall Q) {ts : List Tree} {nodes : List Node}
    (h : List.Forall₂ (AttributeFrom d (Yields Q)) ts nodes) {c : Node} (hc : c ∈ nodes) :
    c.Throughout Q := by
  obtain ⟨_, -, hfrom⟩ := Outcome.exists_left_of_mem h hc
  exact throughout_of_attributeFrom hsmall hfrom

theorem throughout_of_parameterFrom (hsmall : HoldsOfSmall Q) {p : Parameter Node}
    (h : ParameterFrom d (Yields Q) t p) : (Node.parameter p).Throughout Q := by
  apply Node.throughout_of_children (hsmall.inner (by simp [Node.kind]))
  intro c hc
  cases h with
  | identifier type hname => cases hc
  | pattern type hname hdefault => exact throughout_of_rel hdefault hc

theorem throughout_of_templateFrom (hsmall : HoldsOfSmall Q) {stop cursor : Int} {ts : List Tree}
    {chunks : List Chunk} {nodes : List Node}
    (h : TemplateFrom d (Yields Q) stop cursor ts chunks nodes) {c : Node} (hc : c ∈ nodes) :
    c.Throughout Q := by
  induction h with
  | last hchunk => cases hc
  | next hchunk hexpression _ ih =>
    rcases List.mem_cons.1 hc with rfl | hc
    · cases hexpression with
      | empty kids => exact hsmall.throughout_bare ⟨rfl, by simp [Node.kind]⟩
      | part kids built => exact built
    · exact ih hc

/-- The children of what is put together have a property throughout if its parts do. -/
theorem throughout_children_of_assembled (hsmall : HoldsOfSmall Q)
    (h : Assembled d (Yields Q) t n) {c : Node} (hc : c ∈ n.children) : c.Throughout Q := by
  cases h with
  | program type hbody => exact throughout_of_mem hbody hc
  | importDeclaration type hsource hspecifiers =>
    exact hsmall.throughout_bare (isBare_of_mem_children hc)
  | exportDeclaration type hclause hspecifiers hsource =>
    exact hsmall.throughout_bare (isBare_of_mem_children hc)
  | element type hopening hclosing hattributes hbody =>
    rcases List.mem_append.1 hc with hc | hc
    · exact throughout_of_mem_attributes hsmall hattributes hc
    · exact throughout_of_mem hbody hc
  | selfClosing type hopening hattributes =>
    exact throughout_of_mem_attributes hsmall hattributes (by simpa [Node.children] using hc)
  | fragment type hbody => exact throughout_of_mem hbody (by simpa [Node.children] using hc)
  | container type hexpression => exact throughout_of_rel hexpression hc
  | text type hvalue => cases hc
  | string type hraw plain => cases hc
  | number type hraw hvalue => cases hc
  | keyword type => cases hc
  | template type hparts =>
    rcases List.mem_append.1 ((Node.inOrder_perm _).mem_iff.1 hc) with hc | hc
    · obtain ⟨chunk, -, rfl⟩ := List.mem_map.1 hc
      exact hsmall.throughout_bare ⟨rfl, by simp [Node.kind]⟩
    · exact throughout_of_templateFrom hsmall hparts hc
  | arrow type hparams hbody htypeParameters hreturnType =>
    rcases List.mem_append.1 hc with hc | hc
    · obtain ⟨p, hp, rfl⟩ := List.mem_map.1 hc
      obtain ⟨_, -, hfrom⟩ := Outcome.exists_left_of_mem hparams hp
      exact throughout_of_parameterFrom hsmall hfrom
    · exact throughout_of_rel hbody hc
  | block type hbody => exact throughout_of_mem hbody hc
  | statement type hexpression => exact throughout_of_rel hexpression hc
  | declarator type hname hbound hinit => exact throughout_of_rel hinit hc
  | other type hnodes => exact throughout_of_mem hnodes hc

/-- A property of whatever is put together, and of what is made on the way, holds of all nodes
below what is built. -/
theorem throughout_of_build (hsmall : HoldsOfSmall Q)
    (hassembled : ∀ {t : Tree} {n : Node}, Assembled d (Yields Q) t n → Q n)
    (h : build d t = .ok n) : n.Throughout Q := by
  refine buildWithin_induction (P := Yields Q) (fun t => ?_) (fun t n hn => ?_) h
  · exact hsmall.throughout_bare ⟨rfl, by simp [Node.kind]⟩
  · exact Node.throughout_of_children (hassembled hn)
      fun c hc => throughout_children_of_assembled hsmall hn hc

/-! ### Template strings -/

/-- A template string has one more chunk than it has substitutions. -/
def Alternates : Node → Prop
  | .template t => t.chunks.length = t.expressions.length + 1
  | _ => True

theorem length_of_templateFrom {part : Tree → Node → Prop} {stop cursor : Int} {ts : List Tree}
    {chunks : List Chunk} {nodes : List Node}
    (h : TemplateFrom d part stop cursor ts chunks nodes) :
    chunks.length = nodes.length + 1 := by
  induction h with
  | last hchunk => rfl
  | next hchunk hexpression _ ih => simp [ih]

theorem alternates_of_assembled {part : Tree → Node → Prop} (h : Assembled d part t n) :
    Alternates n := by
  cases h with
  | template type hparts => exact length_of_templateFrom hparts
  | _ => trivial

theorem holdsOfSmall_alternates : HoldsOfSmall Alternates where
  bare h := by
    obtain ⟨-, hkind⟩ := h
    unfold Alternates
    split
    · simp [Node.kind] at hkind
    · trivial
  inner hkind := by
    unfold Alternates
    split
    · simp [Node.kind] at hkind
    · trivial

end Model

/-- In every template string of a file there is one more chunk than there are substitutions. -/
theorem SourceFile.Parsed.alternates {text : String} {root : Tree} {source : SourceFile}
    (h : source.Parsed text root) {t : Template Node} (ht : .template t ∈ source.root.preorder) :
    t.chunks.length = t.expressions.length + 1 := by
  obtain ⟨n, hbuild, hbelow⟩ := h.exists_build_of_mem
  have hthroughout : n.Throughout Model.Alternates :=
    Model.throughout_of_build Model.holdsOfSmall_alternates Model.alternates_of_assembled hbuild
  exact hthroughout _ (hbelow _ ht (by simp [Node.kind]))

end TsxLint
