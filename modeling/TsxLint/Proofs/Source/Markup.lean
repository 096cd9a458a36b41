/-
Module: TsxLint.Proofs.Source.Markup
Purpose: The elements and arrow functions of a model are those of the trees it is built from.
Main exports: Tree.markup, Tree.markupBelow, Node.markup, Model.builtMarkup,
  Model.markup?_of_assemble, Model.markupBelow_perm_of_build
-/
import Mathlib.Data.List.Flatten
import Mathlib.Data.List.Perm.Basic
import TsxLint.Proofs.Source.Parts

namespace TsxLint

/-!
Elements, fragments and arrow functions can be nested in each other and in any other construct; for
short, they are the markup of a text.  A tree of such a type becomes a node with its span, and no
other tree becomes a node of such a kind.  So the markup of a model is that of the trees that the
builder goes into.
-/

/-! ### Markup of trees and of nodes -/

namespace Tree

/-- The kind of node that stands for a tree of markup. -/
def markupKind? (t : Tree) : Option NodeKind :=
  match t.type with
  | "jsx_element" | "jsx_self_closing_element" | "jsx_fragment" => some .element
  | "arrow_function" => some .arrow
  | _ => none

/-- A tree by itself: its kind and span if it is markup. -/
def ownMarkup (d : Document) (t : Tree) : List (NodeKind × Span) :=
  (t.markupKind?.map fun kind => (kind, Model.spanOf d t)).toList

/-- The children of a tree that are no comments. -/
def visibleChildren (t : Tree) : List Tree := t.children.filter fun c => !c.isComment

mutual

/-- A tree and everything below it that is not inside a comment. -/
def visible : Tree → List Tree
  | .node type named field start stop children =>
    .node type named field start stop children :: visibleOf children

/-- Several trees, and everything below them, that are no comments. -/
def visibleOf : List Tree → List Tree
  | [] => []
  | t :: rest => if t.isComment then visibleOf rest else visible t ++ visibleOf rest

end

theorem visibleOf_eq (ts : List Tree) :
    visibleOf ts = (ts.filter fun t => !t.isComment).flatMap visible := by
  induction ts with
  | nil => rfl
  | cons t rest ih =>
    rw [visibleOf, ih]
    cases hcomment : t.isComment with
    | true => simp [hcomment]
    | false => simp [hcomment]

theorem visible_eq (t : Tree) : t.visible = t :: t.visibleChildren.flatMap visible := by
  cases t with
  | node type named field start stop children =>
    rw [visible, visibleOf_eq, visibleChildren, Tree.children]

/-- The markup of a tree that is not inside a comment. -/
def markup (d : Document) (t : Tree) : List (NodeKind × Span) := t.visible.flatMap (ownMarkup d)

/-- The markup below a tree that is not inside a comment. -/
def markupBelow (d : Document) (t : Tree) : List (NodeKind × Span) :=
  t.visibleChildren.flatMap (markup d)

theorem markup_eq (d : Document) (t : Tree) : t.markup d = t.ownMarkup d ++ t.markupBelow d := by
  rw [markup, visible_eq, List.flatMap_cons, List.flatMap_assoc]
  rfl

end Tree

namespace Node

/-- A node by itself: its kind and span if it stands for markup. -/
def markup? (n : Node) : Option (NodeKind × Span) :=
  if n.kind = .element ∨ n.kind = .arrow then some (n.kind, n.span) else none

/-- The markup among the nodes of a preorder. -/
def markup (n : Node) : List (NodeKind × Span) := n.preorder.filterMap markup?

/-- The markup below a node. -/
def markupBelow (n : Node) : List (NodeKind × Span) := n.children.flatMap markup

theorem markup_eq (n : Node) : n.markup = n.markup?.toList ++ n.markupBelow := by
  rw [markup, preorder_eq, List.filterMap_cons, List.filterMap_flatMap]
  cases n.markup? with
  | none => rfl
  | some own => rfl

end Node

namespace Model

variable {d : Document} {t : Tree} {n : Node}

/-! ### Markup of what is built -/

theorem markupKind?_eq (t : Tree) :
    t.markupKind? =
      if (Construct.ofType t.type).nodeKind = .element ∨ (Construct.ofType t.type).nodeKind = .arrow
      then some (Construct.ofType t.type).nodeKind else none := by
  unfold Tree.markupKind?
  split
  · rename_i htype
    rw [htype]
    rfl
  · rename_i htype
    rw [htype]
    rfl
  · rename_i htype
    rw [htype]
    rfl
  · rename_i htype
    rw [htype]
    rfl
  · rename_i helement hselfClosing hfragment harrow
    cases hc : Construct.ofType t.type with
    | element | selfClosingElement | fragment | arrow =>
      have htype := type_mem_typesOf hc (by simp)
      simp_all [typesOf]
    | _ => rfl

theorem markupKind?_of_isKeptWhole (h : isKeptWhole d t = true) : t.markupKind? = none := by
  rw [markupKind?_eq, isKeptWhole] at *
  cases hc : Construct.ofType t.type with
  | element | selfClosingElement | fragment | arrow =>
    rw [hc] at h
    cases h
  | _ => rfl

theorem span_of_assemble {part : Builder} (h : assemble d part t = .ok n) :
    n.span = spanOf d t := by
  have hassembled : Assembled d (fun _ _ => True) t n :=
    assembled_of_assemble (fun _ _ _ => trivial) h
  cases hassembled <;> rfl

/-- Markup becomes a node of its kind with its span, and nothing else does. -/
theorem markup?_of_assemble {part : Builder} (h : assemble d part t = .ok n) :
    n.markup?.toList = t.ownMarkup d := by
  cases hwhole : isKeptWhole d t with
  | true =>
    obtain ⟨nodes, -, rfl⟩ := exists_mapM_of_assemble h hwhole
    rw [Tree.ownMarkup, markupKind?_of_isKeptWhole hwhole]
    rfl
  | false =>
    rw [Tree.ownMarkup, Node.markup?, markupKind?_eq, kind_of_assemble h hwhole, span_of_assemble h]
    split <;> rfl

theorem IsBare.markup_eq (h : IsBare n) : n.markup = [] := by
  obtain ⟨hchildren, hkind⟩ := h
  have hnone : n.markup? = none := by
    unfold Node.markup?
    rw [if_neg]
    rintro (hkind' | hkind') <;> simp [hkind'] at hkind
  rw [Node.markup_eq, Node.markupBelow, hnone, hchildren]
  rfl

theorem flatMap_markup_of_bare {ns : List Node} (h : ∀ m ∈ ns, IsBare m) :
    ns.flatMap Node.markup = [] :=
  List.flatMap_eq_nil_iff.2 fun m hm => (h m hm).markup_eq

/-- Neither bindings nor modules are markup. -/
theorem markupBelow_of_declaration {x : Declaration}
    (h : n = .importDeclaration x ∨ n = .exportDeclaration x) : n.markupBelow = [] := by
  rcases h with rfl | rfl
  · exact flatMap_markup_of_bare fun _ hm => isBare_of_mem_children hm
  · exact flatMap_markup_of_bare fun _ hm => isBare_of_mem_children hm

/-- The chunks of a template string have no part in its markup. -/
theorem markupBelow_template (s : Span) (chunks : List Chunk) (expressions : List Node) :
    (Node.template ⟨s, chunks, expressions⟩).markupBelow.Perm
      (expressions.flatMap Node.markup) := by
  have hchunks : (chunks.map Node.chunk).flatMap Node.markup = [] := by
    apply flatMap_markup_of_bare
    intro m hm
    obtain ⟨c, -, rfl⟩ := List.mem_map.1 hm
    exact ⟨rfl, by simp [Node.kind]⟩
  have horder := (Node.inOrder_perm (chunks.map Node.chunk ++ expressions)).flatMap_right Node.markup
  rw [List.flatMap_append, hchunks, List.nil_append] at horder
  exact horder

section Parts

variable {R : Tree → Node → Prop} {markupOf : Tree → List (NodeKind × Span)}

/-- What is built of trees one by one has their markup if each has. -/
theorem perm_of_forall₂ {τ ν : Type} {S : τ → ν → Prop} {g : ν → List (NodeKind × Span)}
    {k : τ → List (NodeKind × Span)} (hS : ∀ t n, S t n → (g n).Perm (k t)) {ts : List τ}
    {ns : List ν} (h : List.Forall₂ S ts ns) : (ns.flatMap g).Perm (ts.flatMap k) := by
  induction h with
  | nil => exact .refl []
  | cons hfirst _ ih =>
    rw [List.flatMap_cons, List.flatMap_cons]
    exact (hS _ _ hfirst).append ih

variable (hR : ∀ c m, R c m → m.markup.Perm (markupOf c))

include hR

theorem perm_of_rel {u : Option Tree} {m : Option Node} (h : Option.Rel R u m) :
    (m.toList.flatMap Node.markup).Perm (u.toList.flatMap markupOf) := by
  cases h with
  | none => exact .refl []
  | some h => simpa using hR _ _ h

theorem perm_of_valueFrom {u : Option Tree} {m : Option Node} (h : ValueFrom d R u m) :
    (m.toList.flatMap Node.markup).Perm
      ((u.filter fun c => c.type != "string").toList.flatMap markupOf) := by
  cases h with
  | missing => exact .refl []
  | @string u raw htype hraw =>
    have hnone : (some u).filter (fun c => c.type != "string") = none := by simp [htype]
    rw [hnone]
    have hbare : IsBare (.literal ⟨spanOf d u, .str (unquote raw), raw⟩) := ⟨rfl, by simp [Node.kind]⟩
    simp [hbare.markup_eq]
  | @part u m htype hbuilt =>
    have hsome : (some u).filter (fun c => c.type != "string") = some u := by simp [htype]
    rw [hsome]
    exact perm_of_rel hR (.some hbuilt)

theorem perm_of_attributeFrom {m : Node} (h : AttributeFrom d R t m) :
    m.markup.Perm ((attributeParts t).flatMap markupOf) := by
  rw [Node.markup_eq]
  cases h with
  | attr type hvalue hname =>
    rw [attributeParts, if_pos type]
    exact perm_of_valueFrom hR hvalue
  | spread type hargument =>
    have hne : t.type ≠ "jsx_attribute" := by simp [type]
    rw [attributeParts, if_neg hne]
    exact perm_of_rel hR hargument

theorem perm_of_parameterFrom {p : Parameter Node} (h : ParameterFrom d R t p) :
    (Node.parameter p).markup.Perm ((parameterParts t).flatMap markupOf) := by
  rw [Node.markup_eq]
  cases h with
  | identifier type hname =>
    rw [parameterParts, if_pos type]
    exact .refl []
  | pattern type hname hdefault =>
    rw [parameterParts, if_neg type]
    exact perm_of_rel hR hdefault

theorem perm_of_substitutionFrom {m : Node} (h : SubstitutionFrom d R t m) :
    m.markup.Perm ((substitutionParts t).flatMap markupOf) := by
  cases h with
  | empty kids =>
    rw [Node.markup_eq, substitutionParts, kids]
    exact .refl []
  | part kids hbuilt =>
    rw [substitutionParts, kids]
    simpa using hR _ _ hbuilt

theorem perm_of_templateFrom {stop cursor : Int} {ts : List Tree} {chunks : List Chunk}
    {nodes : List Node} (h : TemplateFrom d R stop cursor ts chunks nodes) :
    (nodes.flatMap Node.markup).Perm ((ts.flatMap substitutionParts).flatMap markupOf) := by
  induction h with
  | last hchunk => exact .refl []
  | next hchunk hexpression _ ih =>
    rw [List.flatMap_cons, List.flatMap_cons, List.flatMap_append]
    exact (perm_of_substitutionFrom hR hexpression).append ih

theorem perm_of_attributes {tag : Option Tree} {attributes : List Node}
    (h : List.Forall₂ (AttributeFrom d R) (attributeTrees tag) attributes) :
    (attributes.flatMap Node.markup).Perm
      (((attributeTrees tag).flatMap attributeParts).flatMap markupOf) := by
  rw [List.flatMap_assoc]
  have hitem (a : Tree) (m : Node) (ha : AttributeFrom d R a m) :
      m.markup.Perm ((attributeParts a).flatMap markupOf) := perm_of_attributeFrom hR ha
  exact perm_of_forall₂ hitem h

theorem perm_of_parameters {params : List (Parameter Node)}
    (h : List.Forall₂ (ParameterFrom d R) (parameterTrees t) params) :
    ((params.map Node.parameter).flatMap Node.markup).Perm
      (((parameterTrees t).flatMap parameterParts).flatMap markupOf) := by
  rw [List.flatMap_assoc, List.flatMap_map]
  have hitem (a : Tree) (p : Parameter Node) (ha : ParameterFrom d R a p) :
      (Node.parameter p).markup.Perm ((parameterParts a).flatMap markupOf) :=
    perm_of_parameterFrom hR ha
  exact perm_of_forall₂ hitem h

/-- The markup below a node is that of the trees that the builder goes into. -/
theorem markupBelow_perm_of_assembled (h : Assembled d R t n) (hwhole : isKeptWhole d t = false)
    (hkind : n.kind ≠ .other) : n.markupBelow.Perm ((partTrees d t).flatMap markupOf) := by
  cases h with
  | program type hbody =>
    rw [partTrees_of_ofType hwhole (c := .program) (by rw [type]; rfl)]
    exact perm_of_forall₂ hR hbody
  | importDeclaration type hsource hspecifiers =>
    rw [partTrees_of_ofType hwhole (c := .importStatement) (by rw [type]; rfl),
      markupBelow_of_declaration (.inl rfl)]
    exact .refl []
  | exportDeclaration type hclause hspecifiers hsource =>
    rw [partTrees_of_ofType hwhole (c := .exportStatement) (by rw [type]; rfl),
      markupBelow_of_declaration (.inr rfl)]
    exact .refl []
  | element type hopening hclosing hattributes hbody =>
    rw [partTrees_of_ofType hwhole (c := .element) (by rw [type]; rfl), ownParts, List.flatMap_append]
    change (List.flatMap Node.markup (_ ++ _)).Perm _
    rw [List.flatMap_append]
    exact (perm_of_attributes hR hattributes).append (perm_of_forall₂ hR hbody)
  | selfClosing type hopening hattributes =>
    rw [partTrees_of_ofType hwhole (c := .selfClosingElement) (by rw [type]; rfl)]
    change (List.flatMap Node.markup (_ ++ [])).Perm _
    rw [List.append_nil]
    exact perm_of_attributes hR hattributes
  | fragment type hbody =>
    rw [partTrees_of_ofType hwhole (c := .fragment) (by rw [type]; rfl)]
    exact perm_of_forall₂ hR hbody
  | container type hexpression =>
    rw [partTrees_of_ofType hwhole (c := .container) (by rw [type]; rfl)]
    exact perm_of_rel hR hexpression
  | text type hvalue =>
    have hc : Construct.ofType t.type = .text := by
      rcases type with type | type <;> rw [type] <;> rfl
    rw [partTrees_of_ofType hwhole hc]
    exact .refl []
  | string type hraw plain =>
    rw [partTrees_of_ofType hwhole (c := .string) (by rw [type]; rfl)]
    exact .refl []
  | number type hraw hvalue =>
    rw [partTrees_of_ofType hwhole (c := .number) (by rw [type]; rfl)]
    exact .refl []
  | keyword type =>
    have hc : Construct.ofType t.type = .keyword := by
      simp only [List.mem_cons, List.not_mem_nil, or_false] at type
      rcases type with type | type | type <;> rw [type] <;> rfl
    rw [partTrees_of_ofType hwhole hc]
    exact .refl []
  | template type hparts =>
    rw [partTrees_of_ofType hwhole (c := .template) (by rw [type]; rfl)]
    exact (markupBelow_template _ _ _).trans (perm_of_templateFrom hR hparts)
  | arrow type hparams hbody htypeParameters hreturnType =>
    rw [partTrees_of_ofType hwhole (c := .arrow) (by rw [type]; rfl), ownParts, List.flatMap_append]
    change (List.flatMap Node.markup (_ ++ _)).Perm _
    rw [List.flatMap_append]
    exact (perm_of_parameters hR hparams).append (perm_of_rel hR hbody)
  | block type hbody =>
    rw [partTrees_of_ofType hwhole (c := .block) (by rw [type]; rfl)]
    exact perm_of_forall₂ hR hbody
  | statement type hexpression =>
    rw [partTrees_of_ofType hwhole (c := .statement) (by rw [type]; rfl)]
    exact perm_of_rel hR hexpression
  | declarator type hname hbound hinit =>
    rw [partTrees_of_ofType hwhole (c := .declarator) (by rw [type]; rfl)]
    exact perm_of_rel hR hinit
  | other type hnodes => exact absurd rfl hkind

end Parts

/-- The markup below a node is that of the trees that the builder goes into, if each part has the
markup of its tree. -/
theorem markupBelow_perm_of_assemble {part : Builder} {markupOf : Tree → List (NodeKind × Span)}
    (hpart : ∀ c m, part c = .ok m → m.markup.Perm (markupOf c)) (h : assemble d part t = .ok n) :
    n.markupBelow.Perm ((partTrees d t).flatMap markupOf) := by
  cases hwhole : isKeptWhole d t with
  | true =>
    obtain ⟨nodes, hnodes, rfl⟩ := exists_mapM_of_assemble h hwhole
    rw [partTrees_of_isKeptWhole hwhole]
    exact perm_of_forall₂ hpart (Outcome.mapM_eq_ok_iff.1 hnodes)
  | false =>
    have hassembled := assembled_of_assemble (fun _ _ => id) h
    exact markupBelow_perm_of_assembled hpart hassembled hwhole (not_other_of_assemble h hwhole)

/-! ### Markup of whole trees -/

/-- The markup of the trees that nodes are built from for a tree. -/
def builtMarkup (d : Document) (t : Tree) : List (NodeKind × Span) :=
  (built d t).flatMap (Tree.ownMarkup d)

theorem builtMarkup_eq (d : Document) (t : Tree) :
    builtMarkup d t = t.ownMarkup d ++ (partTrees d t).flatMap (builtMarkup d) := by
  rw [builtMarkup, built_eq, List.flatMap_cons, List.flatMap_assoc]
  rfl

theorem markup_perm_of_buildWithin {depth : Nat} (h : buildWithin d depth t = .ok n) :
    n.markup.Perm ((builtWithin d depth t).flatMap (Tree.ownMarkup d)) := by
  induction depth generalizing t n with
  | zero =>
    cases h
    rw [Node.markup_eq]
    exact .refl []
  | succ depth ih =>
    rw [builtWithin, List.flatMap_cons, List.flatMap_assoc, Node.markup_eq, markup?_of_assemble h]
    exact (markupBelow_perm_of_assemble (fun _ _ => ih) h).append_left _

/-- The markup below a node is what is built of the trees that the builder goes into. -/
theorem markupBelow_perm_of_build (h : build d t = .ok n) :
    n.markupBelow.Perm ((partTrees d t).flatMap (builtMarkup d)) := by
  have hmarkup : n.markup.Perm (builtMarkup d t) := markup_perm_of_buildWithin h
  have hown : n.markup?.toList = t.ownMarkup d := by
    obtain ⟨depth, hdepth⟩ := Nat.exists_eq_succ_of_ne_zero (Nat.ne_of_gt (height_pos t))
    rw [build, hdepth] at h
    exact markup?_of_assemble h
  rw [Node.markup_eq, builtMarkup_eq, hown] at hmarkup
  exact (List.perm_append_left_iff _).1 hmarkup

end Model

end TsxLint
