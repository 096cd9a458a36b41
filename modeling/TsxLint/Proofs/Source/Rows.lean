/-
Module: TsxLint.Proofs.Source.Rows
Purpose: The children of a node come from trees that stand in a row below the tree of the node.
Main exports: Model.OpensInFront, Model.InRow, Model.PassesUp, Model.PassesUp.of_assembled,
  Model.PassesUp.of_build
-/
import TsxLint.Proofs.Source.Layout

namespace TsxLint.Model

/-!
Each construct lists its children in its own way: attributes are taken out of a tag and put in front
of contents, parameters in front of a body, and defaults and values out of fields.  In every case
the children come from trees below the tree of the construct that stand one behind the other, as
long as tags and parameters stand in front.  So a relation between trees and nodes that passes from
such a row of trees to the tree above them passes through every construct.

Declarations and template strings are left out: their children need not come from trees, or not from
one each.
-/

variable {d : Document} {text : String} {R : Tree → Node → Prop} {root t u : Tree} {n : Node}
  {us vs : List Tree}

/-- In an element the opening tag stands in front of the contents, and in an arrow function the
parameters in front of the body. -/
def OpensInFront (t : Tree) : Prop :=
  (t.type = "jsx_element" → ∀ tag ∈ openingTree? t, ∀ b ∈ bodyTrees t, tag.stop ≤ b.start) ∧
    (t.type = "arrow_function" → ∀ p ∈ parameterTrees t, ∀ b ∈ t.field? "body", p.stop ≤ b.start)

instance : DecidablePred OpensInFront := fun t =>
  inferInstanceAs (Decidable
    ((t.type = "jsx_element" → ∀ tag ∈ openingTree? t, ∀ b ∈ bodyTrees t, tag.stop ≤ b.start) ∧
      (t.type = "arrow_function" →
        ∀ p ∈ parameterTrees t, ∀ b ∈ t.field? "body", p.stop ≤ b.start)))

/-! ### Trees in a row -/

/-- Trees below a tree, one behind the other. -/
structure InRow (t : Tree) (us : List Tree) : Prop where
  below : ∀ u ∈ us, u ∈ t.subtrees
  ordered : us.Pairwise fun a b => a.stop ≤ b.start

namespace InRow

theorem nil : InRow t [] := ⟨by simp, .nil⟩

theorem toList {v : Option Tree} (h : ∀ u ∈ v, u ∈ t.subtrees) : InRow t v.toList where
  below u hu := h u (Option.mem_toList.1 hu)
  ordered := by cases v <;> simp

theorem kids (ht : t.WellFormed text) : InRow t t.kids :=
  ⟨fun _ => mem_subtrees_of_mem_kids, ht.ordered_kids⟩

theorem sublist (h : InRow t us) (hsub : vs.Sublist us) : InRow t vs :=
  ⟨fun u hu => h.below u (hsub.subset hu), h.ordered.sublist hsub⟩

theorem append (hus : InRow t us) (hvs : InRow t vs)
    (across : ∀ u ∈ us, ∀ v ∈ vs, u.stop ≤ v.start) : InRow t (us ++ vs) where
  below u hu := by
    rcases List.mem_append.1 hu with hu | hu
    · exact hus.below u hu
    · exact hvs.below u hu
  ordered := List.pairwise_append.2 ⟨hus.ordered, hvs.ordered, across⟩

theorem of_mem_subtrees (h : InRow u us) (hu : u ∈ t.subtrees) : InRow t us :=
  ⟨fun v hv => Tree.mem_subtrees_trans (h.below v hv) hu, h.ordered⟩

/-- Rows below each tree of a row make up a row. -/
theorem flatMap {f : Tree → List Tree} (ht : t.WellFormed text) (hus : InRow t us)
    (hf : ∀ u ∈ us, InRow u (f u)) : InRow t (us.flatMap f) where
  below v hv := by
    obtain ⟨u, hu, hv⟩ := List.mem_flatMap.1 hv
    exact Tree.mem_subtrees_trans ((hf u hu).below v hv) (hus.below u hu)
  ordered := by
    refine List.pairwise_flatMap.2 ⟨fun u hu => (hf u hu).ordered, ?_⟩
    refine hus.ordered.imp_of_mem fun {a b} ha hb hab v hv w hw => ?_
    have hv := (ht.of_mem (hus.below a ha)).inside ((hf a ha).below v hv)
    have hw := (ht.of_mem (hus.below b hb)).inside ((hf b hb).below w hw)
    omega

theorem attributeTrees {tag : Option Tree} (ht : t.WellFormed text)
    (htag : ∀ c ∈ tag, c ∈ t.subtrees) : InRow t (attributeTrees tag) := by
  cases tag with
  | none => exact nil
  | some c =>
    have hkids : InRow c c.kids := kids (ht.of_mem (htag c rfl))
    exact (hkids.sublist List.filter_sublist).of_mem_subtrees (htag c rfl)

/-- The attributes in a tag and the contents behind it. -/
theorem element {tag : Option Tree} (ht : t.WellFormed text) (htag : ∀ c ∈ tag, c ∈ t.subtrees)
    (hus : us.Sublist t.kids) (hopens : ∀ c ∈ tag, ∀ b ∈ us, c.stop ≤ b.start) :
    InRow t (Model.attributeTrees tag ++ us) := by
  refine (attributeTrees ht htag).append ((kids ht).sublist hus) fun a ha b hb => ?_
  cases tag with
  | none => cases ha
  | some c =>
    have hinside := (ht.of_mem (htag c rfl)).inside
      (mem_subtrees_of_mem_kids (List.mem_of_mem_filter ha))
    exact Nat.le_trans hinside.2 (hopens c rfl b hb)

/-- The parameters of an arrow function and its body. -/
theorem arrow (ht : t.WellFormed text)
    (hopens : ∀ p ∈ parameterTrees t, ∀ b ∈ t.field? "body", p.stop ≤ b.start) :
    InRow t (parameterTrees t ++ (t.field? "body").toList) :=
  ⟨(AreParts.arrow ht).below, List.pairwise_append.2 ⟨pairwise_parameterTrees ht,
    (toList (t := t) fun _ hb =>
      Tree.mem_subtrees_of_mem_children (Tree.mem_children_of_field? hb)).ordered,
    fun p hp b hb => hopens p hp b (Option.mem_toList.1 hb)⟩⟩

end InRow

theorem forall₂_toList {α β : Type} {R : α → β → Prop} {x : Option α} {y : Option β}
    (h : Option.Rel R x y) : List.Forall₂ R x.toList y.toList := by
  cases h with
  | none => exact .nil
  | some hxy => exact .cons hxy .nil

/-! ### Relations that pass up -/

/-- A node with the span of a tree is related to it if its children are related to trees in a row
below it. -/
def PassesUp (d : Document) (text : String) (R : Tree → Node → Prop) : Prop :=
  ∀ t n us, t.WellFormed text → n.span = spanOf d t → InRow t us → List.Forall₂ R us n.children →
    R t n

namespace PassesUp

variable (h : PassesUp d text R)
include h

/-- A node without children is related to the tree that it has the span of. -/
theorem of_leaf (ht : t.WellFormed text) (hspan : n.span = spanOf d t) (hleaf : n.children = []) :
    R t n :=
  h t n [] ht hspan .nil (by rw [hleaf]; exact .nil)

/-- A node with one child, or none. -/
theorem of_option {v : Option Tree} {m : Option Node} (ht : t.WellFormed text)
    (hspan : n.span = spanOf d t) (hchildren : n.children = m.toList)
    (hv : ∀ u ∈ v, u ∈ t.subtrees) (hrel : Option.Rel R v m) : R t n :=
  h t n v.toList ht hspan (.toList hv) (hchildren ▸ forall₂_toList hrel)

theorem of_kids (ht : t.WellFormed text) (hspan : n.span = spanOf d t)
    (hkids : List.Forall₂ R t.kids n.children) : R t n :=
  h t n t.kids ht hspan (.kids ht) hkids

theorem of_head?_kids {m : Option Node} (ht : t.WellFormed text) (hspan : n.span = spanOf d t)
    (hchildren : n.children = m.toList) (hrel : Option.Rel R t.kids.head? m) : R t n :=
  h.of_option ht hspan hchildren
    (fun _ hu => mem_subtrees_of_mem_kids (List.mem_of_mem_head? hu)) hrel

theorem rel_of_valueFrom {v : Option Tree} {m : Option Node} (hv : ∀ u ∈ v, u.WellFormed text)
    (hfrom : ValueFrom d R v m) : Option.Rel R v m := by
  cases hfrom with
  | missing => exact .none
  | string type text => exact .some (h.of_leaf (hv _ rfl) rfl rfl)
  | part type built => exact .some built

theorem of_attributeFrom (ht : t.WellFormed text) (hfrom : AttributeFrom d R t n) : R t n := by
  cases hfrom with
  | attr type hvalue hname =>
    have hbelow : ∀ u ∈ t.kids[1]?, u ∈ t.subtrees := fun u hu =>
      mem_subtrees_of_mem_kids (List.mem_of_getElem? hu)
    exact h.of_option ht rfl rfl hbelow
      (h.rel_of_valueFrom (fun u hu => ht.of_mem (hbelow u hu)) hvalue)
  | spread type hargument =>
    refine h.of_option ht rfl rfl (fun u hu => ?_) hargument
    exact mem_subtrees_of_mem_kids (List.mem_of_mem_head? (Option.filter_eq_some_iff.1 hu).1)

theorem of_parameterFrom {p : Parameter Node} (ht : t.WellFormed text)
    (hfrom : ParameterFrom d R t p) : R t (.parameter p) := by
  cases hfrom with
  | identifier type hname => exact h.of_leaf ht rfl rfl
  | pattern type hname hdefault =>
    refine h.of_option ht rfl rfl (fun u hu => Tree.mem_subtrees_of_mem_children ?_) hdefault
    rcases Option.or_eq_some_iff.1 hu with hu | ⟨-, hu⟩
    · exact Tree.mem_children_of_field? hu
    · exact Tree.mem_children_of_field? hu

theorem forall₂_attributes {tag : Option Tree} {nodes : List Node} (ht : t.WellFormed text)
    (htag : ∀ c ∈ tag, c ∈ t.subtrees)
    (hnodes : List.Forall₂ (AttributeFrom d R) (attributeTrees tag) nodes) :
    List.Forall₂ R (attributeTrees tag) nodes :=
  forall₂_imp_of_mem hnodes fun _ hu _ =>
    h.of_attributeFrom (ht.of_mem ((InRow.attributeTrees ht htag).below _ hu))

theorem of_element {tag : Option Tree} {attributes body : List Node} (ht : t.WellFormed text)
    (htag : ∀ c ∈ tag, c ∈ t.subtrees) (hus : us.Sublist t.kids)
    (hopens : ∀ c ∈ tag, ∀ b ∈ us, c.stop ≤ b.start) (hspan : n.span = spanOf d t)
    (hchildren : n.children = attributes ++ body)
    (hattributes : List.Forall₂ (AttributeFrom d R) (attributeTrees tag) attributes)
    (hbody : List.Forall₂ R us body) : R t n := by
  refine h t n _ ht hspan (.element ht htag hus hopens) ?_
  rw [hchildren]
  exact List.rel_append (h.forall₂_attributes ht htag hattributes) hbody

theorem of_arrow {params : List (Parameter Node)} {body : Option Node} (ht : t.WellFormed text)
    (hopens : ∀ p ∈ parameterTrees t, ∀ b ∈ t.field? "body", p.stop ≤ b.start)
    (hspan : n.span = spanOf d t) (hchildren : n.children = params.map .parameter ++ body.toList)
    (hparams : List.Forall₂ (ParameterFrom d R) (parameterTrees t) params)
    (hbody : Option.Rel R (t.field? "body") body) : R t n := by
  have hrow := InRow.arrow ht hopens
  have hparams : List.Forall₂ R (parameterTrees t) (params.map .parameter) := by
    refine List.forall₂_map_right_iff.2 (forall₂_imp_of_mem hparams fun u hu p => ?_)
    exact h.of_parameterFrom (ht.of_mem (hrow.below u (List.mem_append_left _ hu)))
  refine h t n _ ht hspan hrow ?_
  rw [hchildren]
  exact List.rel_append hparams (forall₂_toList hbody)

/-- What is put together is related to its tree if its parts are to theirs, declarations and
template strings apart. -/
theorem of_assembled (ht : t.WellFormed text) (hopens : OpensInFront t)
    (hassembled : Assembled d R t n)
    (hkind : n.kind ∉ [NodeKind.importDeclaration, .exportDeclaration, .template]) : R t n := by
  have hfield {field : String} : ∀ u ∈ t.field? field, u ∈ t.subtrees := fun u hu =>
    Tree.mem_subtrees_of_mem_children (Tree.mem_children_of_field? hu)
  cases hassembled with
  | program type hbody => exact h.of_kids ht rfl hbody
  | importDeclaration type hsource hspecifiers => simp [Node.kind] at hkind
  | exportDeclaration type hclause hspecifiers hsource => simp [Node.kind] at hkind
  | element type hopening hclosing hattributes hbody =>
    have htag : ∀ c ∈ openingTree? t, c ∈ t.subtrees := fun c hc =>
      Tree.mem_subtrees_of_mem_children (openingTree?_mem hc)
    exact h.of_element ht htag List.filter_sublist (hopens.1 type) rfl rfl hattributes hbody
  | selfClosing type hopening hattributes =>
    have htag : ∀ c ∈ some t, c ∈ t.subtrees := by
      intro c hc
      cases hc
      exact Tree.self_mem_subtrees t
    exact h.of_element ht htag (List.nil_sublist _) (fun c _ b hb => by cases hb) rfl rfl
      hattributes .nil
  | fragment type hbody => exact h.of_kids ht rfl hbody
  | container type hexpression => exact h.of_head?_kids ht rfl rfl hexpression
  | text type hvalue => exact h.of_leaf ht rfl rfl
  | string type hraw plain => exact h.of_leaf ht rfl rfl
  | number type hraw hvalue => exact h.of_leaf ht rfl rfl
  | keyword type => exact h.of_leaf ht rfl rfl
  | template type hparts => simp [Node.kind] at hkind
  | arrow type hparams hbody htypeParameters hreturnType =>
    exact h.of_arrow ht (hopens.2 type) rfl rfl hparams hbody
  | block type hbody => exact h.of_kids ht rfl hbody
  | statement type hexpression => exact h.of_head?_kids ht rfl rfl hexpression
  | declarator type hname hbound hinit => exact h.of_option ht rfl rfl hfield hinit
  | other type hnodes => exact h.of_kids ht rfl hnodes

/-- What is built of a tree is related to it if declarations and template strings are to theirs. -/
theorem of_build (hroot : root.WellFormed text) (hopens : root.Everywhere OpensInFront)
    (hrest : ∀ t ∈ root.subtrees, ∀ n, Assembled d R t n →
      n.kind ∈ [NodeKind.importDeclaration, .exportDeclaration, .template] → R t n)
    (hbuild : build d root = .ok n) : R root n := by
  -- Only the trees below the root are known to be well-formed, hence the premise.
  refine buildWithin_induction (P := fun t n => t ∈ root.subtrees → R t n)
    (fun t ht => h.of_leaf (hroot.of_mem ht) rfl rfl) (fun t n hassembled ht => ?_) hbuild
    (Tree.self_mem_subtrees root)
  have hparts : Assembled d R t n :=
    hassembled.imp fun u hu m hm => hm (Tree.mem_subtrees_trans hu ht)
  by_cases hkind : n.kind ∈ [NodeKind.importDeclaration, .exportDeclaration, .template]
  · exact hrest t ht n hparts hkind
  · exact h.of_assembled (hroot.of_mem ht) (hopens t ht) hparts hkind

end PassesUp

end TsxLint.Model
