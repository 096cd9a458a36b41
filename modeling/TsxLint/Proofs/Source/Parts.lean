/-
Module: TsxLint.Proofs.Source.Parts
Purpose: Which trees the nodes of a model are built from.
Main exports: Construct.nodeKind, Model.isKeptWhole, Model.partTrees, Model.built,
  Model.kind_of_assemble, Model.not_other_of_assemble
-/
import Mathlib.Data.List.Basic
import TsxLint.Proofs.Source.Placement

namespace TsxLint

/-!
A construct has a node of its own, or it is kept whole: as an `Other` node of all its named children.
Which of the two it is depends on the construct alone and not on how its parts are built.  That
tells the trees that the builder goes into for a tree (`Model.partTrees`), and so all trees that
nodes are built from (`Model.built`).  What else lies below a tree is not in the model.
-/

/-- The kind of the node that a construct has. -/
def Construct.nodeKind : Construct → NodeKind
  | .program => .program
  | .importStatement => .importDeclaration
  | .exportStatement => .exportDeclaration
  | .element | .selfClosingElement | .fragment => .element
  | .container => .container
  | .text => .text
  | .string | .number | .keyword => .literal
  | .template => .template
  | .arrow => .arrow
  | .block => .block
  | .statement => .statement
  | .declarator => .declarator
  | .unknown => .other

namespace Model

variable {d : Document} {part : Builder} {t : Tree} {n : Node}

/-! ### Constructs that are kept whole -/

/-- Whether a part that a construct needs is missing. -/
def isMissing (o : Outcome (Option Node)) : Bool :=
  match o with
  | .ok none => true
  | _ => false

/-- Whether a tree becomes a node of all its named children. -/
def isKeptWhole (d : Document) (t : Tree) : Bool :=
  match Construct.ofType t.type with
  | .importStatement => isMissing (importDeclaration d t)
  | .exportStatement => isMissing (exportDeclaration d t)
  | .string => isMissing (stringLiteral d t)
  | .number => isMissing (numberLiteral d t)
  | .declarator => (t.field? "name").isNone
  | .unknown => true
  | _ => false

theorem isKeptWhole_of_construct_eq_none
    (h : construct d part t (Construct.ofType t.type) = .ok none) : isKeptWhole d t = true := by
  have hmem := ofType_of_construct_eq_none h
  unfold isKeptWhole
  cases hc : Construct.ofType t.type with
  | importStatement | exportStatement | string | number =>
    rw [hc] at h
    simp only [construct] at h
    simp only [h, isMissing]
  | declarator =>
    rw [hc] at h
    cases hname : t.field? "name" with
    | none => rfl
    | some name =>
      simp only [construct, declarator, hname] at h
      obtain ⟨bound, -, h⟩ := Outcome.exists_of_bind_eq_ok h
      obtain ⟨init, -, h⟩ := Outcome.exists_of_bind_eq_ok h
      cases h
  | unknown => rfl
  | _ => simp [hc] at hmem

theorem isKeptWhole_of_construct_eq_some
    (h : construct d part t (Construct.ofType t.type) = .ok (some n)) :
    isKeptWhole d t = false := by
  unfold isKeptWhole
  cases hc : Construct.ofType t.type with
  | importStatement | exportStatement | string | number =>
    rw [hc] at h
    simp only [construct] at h
    simp only [h, isMissing]
  | declarator =>
    rw [hc] at h
    cases hname : t.field? "name" with
    | none =>
      simp only [construct, declarator, hname] at h
      cases h
    | some name => rfl
  | unknown =>
    rw [hc] at h
    cases h
  | _ => rfl

/-! ### Kinds of nodes -/

theorem kind_of_importDeclaration (h : importDeclaration d t = .ok (some n)) :
    n.kind = .importDeclaration := by
  obtain ⟨source, -, h⟩ := Outcome.exists_of_bind_eq_ok h
  cases source with
  | none => cases h
  | some source =>
    obtain ⟨specifiers, -, h⟩ := Outcome.exists_of_bind_eq_ok h
    cases specifiers with
    | none => cases h
    | some specifiers =>
      cases h
      rfl

theorem kind_of_exportDeclaration (h : exportDeclaration d t = .ok (some n)) :
    n.kind = .exportDeclaration := by
  rw [exportDeclaration] at h
  split at h
  · cases h
  · obtain ⟨specifiers, -, h⟩ := Outcome.exists_of_bind_eq_ok h
    cases specifiers with
    | none => cases h
    | some specifiers =>
      obtain ⟨source, -, h⟩ := Outcome.exists_of_bind_eq_ok h
      cases h
      rfl

theorem kind_of_element (h : element d part t = .ok n) : n.kind = .element := by
  obtain ⟨opening, -, h⟩ := Outcome.exists_of_bind_eq_ok h
  obtain ⟨closing, -, h⟩ := Outcome.exists_of_bind_eq_ok h
  obtain ⟨body, -, h⟩ := Outcome.exists_of_bind_eq_ok h
  obtain ⟨attributes, -, h⟩ := Outcome.exists_of_bind_eq_ok h
  cases h
  rfl

theorem kind_of_selfClosingElement (h : selfClosingElement d part t = .ok n) :
    n.kind = .element := by
  obtain ⟨name, -, h⟩ := Outcome.exists_of_bind_eq_ok h
  obtain ⟨attributes, -, h⟩ := Outcome.exists_of_bind_eq_ok h
  cases h
  rfl

theorem kind_of_arrow (h : arrow d part t = .ok n) : n.kind = .arrow := by
  obtain ⟨params, -, h⟩ := Outcome.exists_of_bind_eq_ok h
  obtain ⟨body, -, h⟩ := Outcome.exists_of_bind_eq_ok h
  obtain ⟨typeParameters, -, h⟩ := Outcome.exists_of_bind_eq_ok h
  obtain ⟨returnType, -, h⟩ := Outcome.exists_of_bind_eq_ok h
  cases h
  rfl

theorem kind_of_stringLiteral (h : stringLiteral d t = .ok (some n)) : n.kind = .literal := by
  obtain ⟨raw, -, h⟩ := Outcome.exists_of_bind_eq_ok h
  dsimp only at h
  split at h
  · cases h
  · cases h
    rfl

theorem kind_of_numberLiteral (h : numberLiteral d t = .ok (some n)) : n.kind = .literal := by
  obtain ⟨raw, -, h⟩ := Outcome.exists_of_bind_eq_ok h
  obtain ⟨value, -, rfl⟩ := Option.map_eq_some_iff.1 (Except.ok.inj h)
  rfl

theorem kind_of_declarator (h : declarator d part t = .ok (some n)) : n.kind = .declarator := by
  rw [declarator] at h
  split at h
  · cases h
  · obtain ⟨bound, -, h⟩ := Outcome.exists_of_bind_eq_ok h
    obtain ⟨init, -, h⟩ := Outcome.exists_of_bind_eq_ok h
    cases h
    rfl

/-- The node of a construct is of the construct's kind. -/
theorem kind_of_construct {c : Construct} (h : construct d part t c = .ok (some n)) :
    n.kind = c.nodeKind := by
  cases c with
  | program | container | text | block | statement =>
    obtain ⟨m, -, h⟩ := Outcome.exists_of_bind_eq_ok h
    cases h
    rfl
  | importStatement => exact kind_of_importDeclaration h
  | exportStatement => exact kind_of_exportDeclaration h
  | element =>
    obtain ⟨m, hm, heq⟩ := Outcome.exists_of_map_eq_ok h
    cases heq
    exact kind_of_element hm
  | selfClosingElement =>
    obtain ⟨m, hm, heq⟩ := Outcome.exists_of_map_eq_ok h
    cases heq
    exact kind_of_selfClosingElement hm
  | fragment | template =>
    obtain ⟨m, hm, heq⟩ := Outcome.exists_of_map_eq_ok h
    obtain ⟨body, -, hm⟩ := Outcome.exists_of_bind_eq_ok hm
    cases hm
    cases heq
    rfl
  | string => exact kind_of_stringLiteral h
  | number => exact kind_of_numberLiteral h
  | keyword =>
    cases h
    rfl
  | arrow =>
    obtain ⟨m, hm, heq⟩ := Outcome.exists_of_map_eq_ok h
    cases heq
    exact kind_of_arrow hm
  | declarator => exact kind_of_declarator h
  | unknown => cases h

/-- A tree that is kept whole becomes a node of all its named children. -/
theorem exists_mapM_of_assemble (h : assemble d part t = .ok n) (hwhole : isKeptWhole d t = true) :
    ∃ nodes, t.kids.mapM part = .ok nodes ∧ n = .other ⟨spanOf d t, t.type, nodes⟩ := by
  obtain ⟨found, hfound, h⟩ := Outcome.exists_of_bind_eq_ok h
  cases found with
  | some m =>
    rw [isKeptWhole_of_construct_eq_some hfound] at hwhole
    cases hwhole
  | none =>
    obtain ⟨nodes, hnodes, h⟩ := Outcome.exists_of_bind_eq_ok h
    cases h
    exact ⟨nodes, hnodes, rfl⟩

/-- A tree that is not kept whole becomes a node of the construct's kind. -/
theorem kind_of_assemble (h : assemble d part t = .ok n) (hwhole : isKeptWhole d t = false) :
    n.kind = (Construct.ofType t.type).nodeKind := by
  obtain ⟨found, hfound, h⟩ := Outcome.exists_of_bind_eq_ok h
  cases found with
  | some m =>
    cases h
    exact kind_of_construct hfound
  | none =>
    rw [isKeptWhole_of_construct_eq_none hfound] at hwhole
    cases hwhole

theorem ofType_ne_unknown_of_not_isKeptWhole (h : isKeptWhole d t = false) :
    Construct.ofType t.type ≠ .unknown := by
  intro hunknown
  rw [isKeptWhole, hunknown] at h
  cases h

theorem not_other_of_assemble (h : assemble d part t = .ok n) (hwhole : isKeptWhole d t = false) :
    n.kind ≠ .other := by
  rw [kind_of_assemble h hwhole]
  have hne := ofType_ne_unknown_of_not_isKeptWhole hwhole
  cases hc : Construct.ofType t.type with
  | unknown => exact absurd hc hne
  | _ => simp [Construct.nodeKind]

/-! ### Trees that the builder goes into -/

/-- What is built of a child of a tag that is an attribute. -/
def attributeParts (t : Tree) : List Tree :=
  if t.type = "jsx_attribute" then (t.kids[1]?.filter fun c => c.type != "string").toList
  else (spreadTree? t).toList

/-- What is built of a formal parameter. -/
def parameterParts (t : Tree) : List Tree :=
  if t.type = "identifier" then [] else (defaultTree? t).toList

/-- What is built of a substitution in a template string. -/
def substitutionParts (t : Tree) : List Tree := t.kids.head?.toList

/-- What is built of a construct that has a node of its own. -/
def ownParts (t : Tree) : Construct → List Tree
  | .program | .fragment | .block => t.kids
  | .element => (attributeTrees (openingTree? t)).flatMap attributeParts ++ bodyTrees t
  | .selfClosingElement => (attributeTrees (some t)).flatMap attributeParts
  | .container | .statement => t.kids.head?.toList
  | .template => (substitutionTrees t).flatMap substitutionParts
  | .arrow => (parameterTrees t).flatMap parameterParts ++ (t.field? "body").toList
  | .declarator => (t.field? "value").toList
  | .importStatement | .exportStatement | .text | .string | .number | .keyword | .unknown => []

/-- The trees that the builder goes into for a tree. -/
def partTrees (d : Document) (t : Tree) : List Tree :=
  if isKeptWhole d t then t.kids else ownParts t (Construct.ofType t.type)

theorem partTrees_of_isKeptWhole (h : isKeptWhole d t = true) : partTrees d t = t.kids :=
  if_pos h

theorem partTrees_of_ofType {c : Construct} (h : isKeptWhole d t = false)
    (hc : Construct.ofType t.type = c) : partTrees d t = ownParts t c := by
  rw [partTrees, h, hc]
  rfl

theorem mem_kids_of_mem_attributeParts {c : Tree} (h : c ∈ attributeParts t) : c ∈ t.kids := by
  unfold attributeParts at h
  split at h
  · exact List.mem_of_getElem? (Option.filter_eq_some_iff.1 (Option.mem_toList.1 h)).1
  · exact List.mem_of_mem_head? (Option.filter_eq_some_iff.1 (Option.mem_toList.1 h)).1

theorem mem_children_of_mem_parameterParts {c : Tree} (h : c ∈ parameterParts t) :
    c ∈ t.children := by
  unfold parameterParts at h
  split at h
  · cases h
  · rcases Option.or_eq_some_iff.1 (Option.mem_toList.1 h) with h | ⟨-, h⟩
    · exact Tree.mem_children_of_field? h
    · exact Tree.mem_children_of_field? h

theorem mem_kids_of_mem_attributeTrees {c tag : Tree} (h : c ∈ attributeTrees (some tag)) :
    c ∈ tag.kids :=
  List.mem_of_mem_filter h

/-- The trees that are built of the attributes in a tag are below the tag. -/
theorem mem_subtrees_of_mem_attributes {c tag : Tree}
    (h : c ∈ (attributeTrees (some tag)).flatMap attributeParts) : c ∈ tag.subtrees := by
  obtain ⟨a, ha, hc⟩ := List.mem_flatMap.1 h
  have ha := Tree.mem_children_of_mem_kids (mem_kids_of_mem_attributeTrees ha)
  have hc := Tree.mem_children_of_mem_kids (mem_kids_of_mem_attributeParts hc)
  exact Tree.mem_subtrees_trans (Tree.mem_subtrees_of_mem_children hc)
    (Tree.mem_subtrees_of_mem_children ha)

/-- What the builder goes into lies below one of the children. -/
theorem exists_child_of_mem_partTrees {c : Tree} (h : c ∈ partTrees d t) :
    ∃ k ∈ t.children, c ∈ k.subtrees := by
  have hkid (h : c ∈ t.kids) : ∃ k ∈ t.children, c ∈ k.subtrees :=
    ⟨c, Tree.mem_children_of_mem_kids h, Tree.self_mem_subtrees c⟩
  have hfield {field : String} (h : c ∈ (t.field? field).toList) : ∃ k ∈ t.children, c ∈ k.subtrees :=
    ⟨c, Tree.mem_children_of_field? (Option.mem_toList.1 h), Tree.self_mem_subtrees c⟩
  rw [partTrees] at h
  split at h
  · exact hkid h
  · generalize Construct.ofType t.type = construct at h
    cases construct with
    | program | fragment | block => exact hkid h
    | element =>
      rcases List.mem_append.1 h with h | h
      · cases htag : openingTree? t with
        | none =>
          rw [htag] at h
          cases h
        | some tag =>
          rw [htag] at h
          exact ⟨tag, openingTree?_mem htag, mem_subtrees_of_mem_attributes h⟩
      · exact hkid (List.mem_of_mem_filter h)
    | selfClosingElement =>
      obtain ⟨a, ha, h⟩ := List.mem_flatMap.1 h
      refine ⟨a, Tree.mem_children_of_mem_kids (mem_kids_of_mem_attributeTrees ha), ?_⟩
      exact Tree.mem_subtrees_of_mem_children
        (Tree.mem_children_of_mem_kids (mem_kids_of_mem_attributeParts h))
    | container | statement => exact hkid (List.mem_of_mem_head? (Option.mem_toList.1 h))
    | template =>
      obtain ⟨s, hs, h⟩ := List.mem_flatMap.1 h
      have h := Tree.mem_children_of_mem_kids (List.mem_of_mem_head? (Option.mem_toList.1 h))
      exact ⟨s, List.mem_of_mem_filter hs, Tree.mem_subtrees_of_mem_children h⟩
    | arrow =>
      rcases List.mem_append.1 h with h | h
      · obtain ⟨p, hp, h⟩ := List.mem_flatMap.1 h
        obtain ⟨k, hk, -, hp⟩ := exists_of_mem_parameterTrees hp
        have h := Tree.mem_subtrees_of_mem_children (mem_children_of_mem_parameterParts h)
        exact ⟨k, hk, Tree.mem_subtrees_trans h hp⟩
      · exact hfield h
    | declarator => exact hfield h
    | importStatement | exportStatement | text | string | number | keyword | unknown => cases h

theorem height_pos (t : Tree) : 0 < t.height := by
  cases t
  exact Nat.succ_pos _

/-- The node of a tree is assembled from nodes that are built one level less deep. -/
theorem build_eq_assemble (d : Document) (t : Tree) :
    build d t = assemble d (buildWithin d (t.height - 1)) t := by
  obtain ⟨depth, hdepth⟩ := Nat.exists_eq_succ_of_ne_zero (Nat.ne_of_gt (height_pos t))
  rw [build, hdepth]
  rfl

theorem height_le_of_mem_subtrees {u : Tree} (h : u ∈ t.subtrees) : u.height ≤ t.height := by
  induction t using Tree.induction_on_children with
  | step t ih =>
    rcases Tree.mem_subtrees_iff.1 h with rfl | ⟨c, hc, hu⟩
    · exact Nat.le_refl _
    · have := Tree.height_lt_of_mem_children hc
      have := ih c hc hu
      omega

theorem mem_subtrees_of_mem_partTrees {c : Tree} (h : c ∈ partTrees d t) : c ∈ t.subtrees := by
  obtain ⟨k, hk, hc⟩ := exists_child_of_mem_partTrees h
  exact Tree.mem_subtrees_trans hc (Tree.mem_subtrees_of_mem_children hk)

theorem height_lt_of_mem_partTrees {c : Tree} (h : c ∈ partTrees d t) : c.height < t.height := by
  obtain ⟨k, hk, hc⟩ := exists_child_of_mem_partTrees h
  exact Nat.lt_of_le_of_lt (height_le_of_mem_subtrees hc) (Tree.height_lt_of_mem_children hk)

/-- The trees that nodes are built from down to a depth. -/
def builtWithin (d : Document) : (depth : Nat) → Tree → List Tree
  | 0, _ => []
  | depth + 1, t => t :: (partTrees d t).flatMap (builtWithin d depth)

/-- The trees that nodes are built from for a tree, itself included. -/
def built (d : Document) (t : Tree) : List Tree := builtWithin d t.height t

theorem builtWithin_congr (d : Document) {depth depth' : Nat} (h : t.height ≤ depth)
    (h' : t.height ≤ depth') : builtWithin d depth t = builtWithin d depth' t := by
  have hpos := height_pos t
  induction depth generalizing depth' t with
  | zero => omega
  | succ depth ih =>
    cases depth' with
    | zero => omega
    | succ depth' =>
      rw [builtWithin, builtWithin]
      congr 1
      refine List.flatMap_congr fun c hc => ?_
      have hlt := height_lt_of_mem_partTrees hc
      exact ih (by omega) (by omega) (height_pos c)

theorem built_eq (d : Document) (t : Tree) :
    built d t = t :: (partTrees d t).flatMap (built d) := by
  rw [built, builtWithin_congr d (Nat.le_refl _) (Nat.le_succ _), builtWithin]
  congr 1
  refine List.flatMap_congr fun c hc => ?_
  exact builtWithin_congr d (Nat.le_of_lt (height_lt_of_mem_partTrees hc)) (Nat.le_refl _)

/-- A property of trees holds of all if it passes to a tree from the trees it is built from. -/
theorem induction_on_parts (d : Document) {P : Tree → Prop}
    (step : ∀ t, (∀ c ∈ partTrees d t, P c) → P t) (t : Tree) : P t := by
  induction h : t.height using Nat.strongRecOn generalizing t with
  | ind n ih =>
    apply step
    intro c hc
    exact ih c.height (h ▸ height_lt_of_mem_partTrees hc) c rfl

end Model

end TsxLint
