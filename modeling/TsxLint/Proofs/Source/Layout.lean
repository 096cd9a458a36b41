/-
Module: TsxLint.Proofs.Source.Layout
Purpose: The contents of an element come one behind the other, and its attributes not among them.
Main exports: Model.Assembled.imp, Model.OpensOutside, Node.IsLaidOut, SourceFile.Parsed.isLaidOut
-/
import TsxLint.Proofs.Source.Templates

namespace TsxLint

/-!
What the parts of a node are related to may be replaced by something weaker, and it is enough that
this follows for trees below the one that the node is put together from.  So a condition on all
nodes of a tree is at hand wherever a node is put together.

The contents of an element are listed in the order of the text.  Its attributes are those in the
opening tag, which stands in front of the contents in what a grammar yields; all that counts is that
it does not stand between two of them.
-/

namespace Model

variable {d : Document} {R S : Tree → Node → Prop} {t : Tree} {n : Node}

/-! ### Parts that are related otherwise -/

theorem forall₂_imp_of_mem {α β : Type} {R S : α → β → Prop} {xs : List α} {ys : List β}
    (h : List.Forall₂ R xs ys) (himp : ∀ x ∈ xs, ∀ y, R x y → S x y) : List.Forall₂ S xs ys :=
  ((List.forall₂_and_left _ _).2 ⟨fun _ hx => hx, h⟩).imp fun x y hxy => himp x hxy.1 y hxy.2

theorem rel_imp_of_mem {α β : Type} {R S : α → β → Prop} {x : Option α} {y : Option β}
    (h : Option.Rel R x y) (himp : ∀ a ∈ x, ∀ b, R a b → S a b) : Option.Rel S x y := by
  cases h with
  | none => exact .none
  | some hxy => exact .some (himp _ rfl _ hxy)

theorem ValueFrom.imp {u : Option Tree} {m : Option Node} (h : ValueFrom d R u m)
    (himp : ∀ c ∈ u, ∀ m, R c m → S c m) : ValueFrom d S u m := by
  cases h with
  | missing => exact .missing
  | string type text => exact .string type text
  | part type built => exact .part type (himp _ rfl _ built)

theorem mem_subtrees_of_mem_kids {c : Tree} (h : c ∈ t.kids) : c ∈ t.subtrees :=
  Tree.mem_subtrees_of_mem_children (Tree.mem_children_of_mem_kids h)

theorem AttributeFrom.imp (h : AttributeFrom d R t n)
    (himp : ∀ c ∈ t.subtrees, ∀ m, R c m → S c m) : AttributeFrom d S t n := by
  cases h with
  | attr type hvalue hname =>
    refine .attr type (hvalue.imp fun c hc => himp c ?_) hname
    exact mem_subtrees_of_mem_kids (List.mem_of_getElem? hc)
  | spread type hargument =>
    refine .spread type (rel_imp_of_mem hargument fun c hc => himp c ?_)
    exact mem_subtrees_of_mem_kids (List.mem_of_mem_head? (Option.filter_eq_some_iff.1 hc).1)

theorem ParameterFrom.imp {p : Parameter Node} (h : ParameterFrom d R t p)
    (himp : ∀ c ∈ t.subtrees, ∀ m, R c m → S c m) : ParameterFrom d S t p := by
  cases h with
  | identifier type hname => exact .identifier type hname
  | pattern type hname hdefault =>
    refine .pattern type hname (rel_imp_of_mem hdefault fun c hc => himp c ?_)
    apply Tree.mem_subtrees_of_mem_children
    rcases Option.or_eq_some_iff.1 hc with hc | ⟨-, hc⟩
    · exact Tree.mem_children_of_field? hc
    · exact Tree.mem_children_of_field? hc

theorem SubstitutionFrom.imp (h : SubstitutionFrom d R t n)
    (himp : ∀ c ∈ t.subtrees, ∀ m, R c m → S c m) : SubstitutionFrom d S t n := by
  cases h with
  | empty kids => exact .empty kids
  | part kids built =>
    exact .part kids (himp _ (mem_subtrees_of_mem_kids (List.mem_of_mem_head? kids)) _ built)

theorem TemplateFrom.imp {stop cursor : Int} {ts : List Tree} {chunks : List Chunk}
    {nodes : List Node} (h : TemplateFrom d R stop cursor ts chunks nodes)
    (himp : ∀ u ∈ ts, ∀ c ∈ u.subtrees, ∀ m, R c m → S c m) :
    TemplateFrom d S stop cursor ts chunks nodes := by
  induction h with
  | last hchunk => exact .last hchunk
  | next hchunk hexpression _ ih =>
    exact .next hchunk (hexpression.imp (himp _ List.mem_cons_self))
      (ih fun u hu => himp u (List.mem_cons_of_mem _ hu))

theorem mem_subtrees_of_mem_attributeTrees {tag : Option Tree} {u : Tree}
    (htag : ∀ c ∈ tag, c ∈ t.subtrees) (h : u ∈ attributeTrees tag) : u ∈ t.subtrees := by
  cases tag with
  | none => cases h
  | some c =>
    exact Tree.mem_subtrees_trans (mem_subtrees_of_mem_kids (List.mem_of_mem_filter h)) (htag c rfl)

/-- A node is put together from parts below its tree, so it is enough to know what follows for
these. -/
theorem Assembled.imp (h : Assembled d R t n) (himp : ∀ u ∈ t.subtrees, ∀ m, R u m → S u m) :
    Assembled d S t n := by
  have hbelow : ∀ {u}, u ∈ t.subtrees → ∀ c ∈ u.subtrees, ∀ m, R c m → S c m :=
    fun hu c hc => himp c (Tree.mem_subtrees_trans hc hu)
  have hkids : ∀ {us nodes}, us.Sublist t.kids →
      List.Forall₂ R us nodes → List.Forall₂ S us nodes := fun hus hnodes =>
    forall₂_imp_of_mem hnodes fun u hu => himp u (mem_subtrees_of_mem_kids (hus.subset hu))
  have hhead : ∀ {m}, Option.Rel R t.kids.head? m → Option.Rel S t.kids.head? m := fun hm =>
    rel_imp_of_mem hm fun u hu => himp u (mem_subtrees_of_mem_kids (List.mem_of_mem_head? hu))
  have hfield : ∀ {field m}, Option.Rel R (t.field? field) m → Option.Rel S (t.field? field) m :=
    fun hm => rel_imp_of_mem hm fun u hu =>
      himp u (Tree.mem_subtrees_of_mem_children (Tree.mem_children_of_field? hu))
  have hattributes : ∀ {tag nodes}, (∀ c ∈ tag, c ∈ t.subtrees) →
      List.Forall₂ (AttributeFrom d R) (attributeTrees tag) nodes →
      List.Forall₂ (AttributeFrom d S) (attributeTrees tag) nodes := fun htag hnodes =>
    forall₂_imp_of_mem hnodes fun u hu m hm =>
      hm.imp (hbelow (mem_subtrees_of_mem_attributeTrees htag hu))
  cases h with
  | program type hbody => exact .program type (hkids (.refl _) hbody)
  | importDeclaration type hsource hspecifiers =>
    exact .importDeclaration type hsource hspecifiers
  | exportDeclaration type hclause hspecifiers hsource =>
    exact .exportDeclaration type hclause hspecifiers hsource
  | element type hopening hclosing hattrs hbody =>
    exact .element type hopening hclosing
      (hattributes (fun c hc => Tree.mem_subtrees_of_mem_children (openingTree?_mem hc)) hattrs)
      (hkids List.filter_sublist hbody)
  | selfClosing type hopening hattrs =>
    refine .selfClosing type hopening (hattributes (fun c hc => ?_) hattrs)
    cases hc
    exact Tree.self_mem_subtrees t
  | fragment type hbody => exact .fragment type (hkids (.refl _) hbody)
  | container type hexpression => exact .container type (hhead hexpression)
  | text type hvalue => exact .text type hvalue
  | string type hraw plain => exact .string type hraw plain
  | number type hraw hvalue => exact .number type hraw hvalue
  | keyword type => exact .keyword type
  | template type hparts =>
    exact .template type (hparts.imp fun u hu =>
      hbelow (Tree.mem_subtrees_of_mem_children (List.mem_of_mem_filter hu)))
  | arrow type hparams hbody htypeParameters hreturnType =>
    refine .arrow type (forall₂_imp_of_mem hparams fun u hu p hp => hp.imp (hbelow ?_))
      (hfield hbody) htypeParameters hreturnType
    obtain ⟨c, hc, -, hu⟩ := exists_of_mem_parameterTrees hu
    exact Tree.mem_subtrees_trans hu (Tree.mem_subtrees_of_mem_children hc)
  | block type hbody => exact .block type (hkids (.refl _) hbody)
  | statement type hexpression => exact .statement type (hhead hexpression)
  | declarator type hname hbound hinit => exact .declarator type hname hbound (hfield hinit)
  | other type hnodes => exact .other type (hkids (.refl _) hnodes)

theorem Assembled.span_eq {part : Tree → Node → Prop} (h : Assembled d part t n) :
    n.span = spanOf d t := by
  cases h <;> rfl

/-! ### Contents in order -/

/-- The opening tag of an element does not stand between two of its contents. -/
def OpensOutside (t : Tree) : Prop :=
  t.type = "jsx_element" → ∀ tag ∈ openingTree? t,
    (bodyTrees t).Pairwise fun b c => tag.stop ≤ b.start ∨ c.stop ≤ tag.start

instance : DecidablePred OpensOutside := fun t =>
  inferInstanceAs (Decidable (t.type = "jsx_element" → ∀ tag ∈ openingTree? t,
    (bodyTrees t).Pairwise fun b c => tag.stop ≤ b.start ∨ c.stop ≤ tag.start))

end Model

/-- The contents of an element have places in the tree, inside the element and one behind the other,
and no attribute stands between two of them. -/
structure Element.IsLaidOut (d : Document) (root : Tree) (e : Element Node) : Prop where
  placed : ∀ b ∈ e.body, ∃ u ∈ root.subtrees, b.span = Model.spanOf d u
  inside : ∀ b ∈ e.body, e.span.start ≤ b.start ∧ b.stop ≤ e.span.stop
  ordered : e.body.Pairwise fun b c => b.stop ≤ c.start
  apart : e.body.Pairwise fun b c => ∀ a ∈ e.attributes, a.stop ≤ b.start ∨ c.stop ≤ a.start

/-- If a node is an element, its contents are laid out. -/
def Node.IsLaidOut (d : Document) (root : Tree) : Node → Prop
  | .element e => e.IsLaidOut d root
  | _ => True

namespace Model

variable {d : Document} {text : String} {root t : Tree} {n : Node}

/-- The span of a node is that of the tree it is built from. -/
def HasSpan (d : Document) (t : Tree) (n : Node) : Prop := n.span = spanOf d t

theorem HasSpan.start_eq (h : HasSpan d t n) : n.start = t.start := congrArg Span.start h

theorem HasSpan.stop_eq (h : HasSpan d t n) : n.stop = t.stop := congrArg Span.stop h

theorem holdsOfSmall_isLaidOut : HoldsOfSmall (Node.IsLaidOut d root) where
  bare h := by
    obtain ⟨-, hkind⟩ := h
    unfold Node.IsLaidOut
    split
    · simp [Node.kind] at hkind
    · trivial
  inner hkind := by
    unfold Node.IsLaidOut
    split
    · simp [Node.kind] at hkind
    · trivial

theorem placed_of_forall₂ {us : List Tree} {nodes : List Node}
    (h : List.Forall₂ (HasSpan d) us nodes) (hus : ∀ u ∈ us, u ∈ root.subtrees) :
    ∀ b ∈ nodes, ∃ u ∈ root.subtrees, b.span = spanOf d u := by
  intro b hb
  obtain ⟨u, hu, hspan⟩ := Outcome.exists_left_of_mem h hb
  exact ⟨u, hus u hu, hspan⟩

theorem inside_of_forall₂ {us : List Tree} {nodes : List Node} (ht : t.WellFormed text)
    (h : List.Forall₂ (HasSpan d) us nodes) (hus : ∀ u ∈ us, u ∈ t.kids) :
    ∀ b ∈ nodes, (t.start : Int) ≤ b.start ∧ b.stop ≤ t.stop := by
  intro b hb
  obtain ⟨u, hu, hspan⟩ := Outcome.exists_left_of_mem h hb
  have hinside := ht.isLaidOut.inside u (Tree.mem_children_of_mem_kids (hus u hu))
  rw [hspan.start_eq, hspan.stop_eq]
  exact ⟨Int.ofNat_le.2 hinside.1, Int.ofNat_le.2 hinside.2⟩

theorem ordered_of_forall₂ {us : List Tree} {nodes : List Node}
    (h : List.Forall₂ (HasSpan d) us nodes) (hus : us.Pairwise fun b c => b.stop ≤ c.start) :
    nodes.Pairwise fun b c => b.stop ≤ c.start := by
  refine pairwise_of_forall₂ h hus fun u _ v _ b c huv hb hc => ?_
  rw [hb.stop_eq, hc.start_eq]
  exact Int.ofNat_le.2 huv

/-- The attributes in a tag lie inside it. -/
theorem inside_of_mem_attributes {tag : Option Tree} {attributes : List Node}
    (htag : ∀ c ∈ tag, c.WellFormed text)
    (h : List.Forall₂ (AttributeFrom d (HasSpan d)) (attributeTrees tag) attributes) {a : Node}
    (ha : a ∈ attributes) : ∃ c ∈ tag, (c.start : Int) ≤ a.start ∧ a.stop ≤ c.stop := by
  have hspans : List.Forall₂ (HasSpan d) (attributeTrees tag) attributes :=
    h.imp fun u b hfrom => by cases hfrom <;> rfl
  cases tag with
  | none =>
    cases hspans
    cases ha
  | some c =>
    exact ⟨c, rfl, inside_of_forall₂ (htag c rfl) hspans (fun _ => List.mem_of_mem_filter) a ha⟩

theorem Assembled.isLaidOut (h : Assembled d (HasSpan d) t n) (hroot : root.WellFormed text)
    (ht : t ∈ root.subtrees) (hopens : OpensOutside t) : n.IsLaidOut d root := by
  have hwell := hroot.of_mem ht
  have hkids : ∀ u ∈ t.kids, u ∈ root.subtrees := fun u hu =>
    Tree.mem_subtrees_trans (mem_subtrees_of_mem_kids hu) ht
  cases h with
  | element type hopening hclosing hattributes hbody =>
    refine ⟨placed_of_forall₂ hbody fun u hu => hkids u (List.mem_of_mem_filter hu),
      inside_of_forall₂ hwell hbody fun _ => List.mem_of_mem_filter,
      ordered_of_forall₂ hbody (hwell.ordered_kids.sublist List.filter_sublist), ?_⟩
    have htag : ∀ c ∈ openingTree? t, c.WellFormed text := fun c hc =>
      hwell.of_mem (Tree.mem_subtrees_of_mem_children (openingTree?_mem hc))
    -- an attribute lies inside the tag, and the tag not between two of the contents
    have hpairwise : (bodyTrees t).Pairwise fun b c => ∀ tag ∈ openingTree? t,
        tag.stop ≤ b.start ∨ c.stop ≤ tag.start := by
      cases htag : openingTree? t with
      | none => exact List.pairwise_of_forall fun b c tag h => by cases h
      | some tag =>
        refine (hopens type tag htag).imp fun {b c} h other hother => ?_
        cases hother
        exact h
    refine pairwise_of_forall₂ hbody hpairwise fun u _ v _ b c huv hb hc a ha => ?_
    obtain ⟨tag, htag, hstart, hstop⟩ := inside_of_mem_attributes htag hattributes ha
    rw [hb.start_eq, hc.stop_eq]
    rcases huv tag htag with hbefore | hbehind
    · exact .inl (Int.le_trans hstop (Int.ofNat_le.2 hbefore))
    · exact .inr (Int.le_trans (Int.ofNat_le.2 hbehind) hstart)
  | selfClosing type hopening hattributes => exact ⟨by simp, by simp, .nil, .nil⟩
  | fragment type hbody =>
    exact ⟨placed_of_forall₂ hbody hkids, inside_of_forall₂ hwell hbody fun _ hu => hu,
      ordered_of_forall₂ hbody hwell.ordered_kids,
      List.pairwise_of_forall fun b c a ha => absurd ha (by simp)⟩
  | _ => trivial

/-- All contents of elements are laid out in what is built of a tree whose opening tags stand
outside their contents. -/
theorem throughout_isLaidOut (hroot : root.WellFormed text) (hopens : root.Everywhere OpensOutside)
    (h : build d root = .ok n) : n.Throughout (Node.IsLaidOut d root) := by
  let P (t : Tree) (n : Node) : Prop :=
    t ∈ root.subtrees → HasSpan d t n ∧ n.Throughout (Node.IsLaidOut d root)
  have hbuilt : P root n := by
    refine buildWithin_induction (P := P) (fun t _ => ?_) (fun t n hassembled ht => ?_) h
    · exact ⟨rfl, holdsOfSmall_isLaidOut.throughout_bare ⟨rfl, by simp [Node.kind]⟩⟩
    · have hparts := hassembled.imp fun u hu m hm => hm (Tree.mem_subtrees_trans hu ht)
      have hspans : Assembled d (HasSpan d) t n := hparts.imp fun _ _ _ hm => hm.1
      refine ⟨hassembled.span_eq, Node.throughout_of_children ?_ fun c hc => ?_⟩
      · exact hspans.isLaidOut hroot ht (hopens t ht)
      · exact throughout_children_of_assembled holdsOfSmall_isLaidOut
          (hparts.imp fun _ _ _ hm => hm.2) hc
  exact (hbuilt (Tree.self_mem_subtrees root)).2

end Model

/-- The contents of every element of a file are laid out. -/
theorem SourceFile.Parsed.isLaidOut {text : String} {root : Tree} {source : SourceFile}
    (hs : source.Parsed text root) (hroot : root.WellFormed text)
    (hopens : root.Everywhere Model.OpensOutside) {e : Element Node}
    (he : .element e ∈ source.root.preorder) : e.IsLaidOut (Document.ofText text) root := by
  obtain ⟨n, hbuild, hbelow⟩ := hs.exists_build_of_mem
  exact Model.throughout_isLaidOut hroot hopens hbuild _ (hbelow _ he (by simp [Node.kind]))

end TsxLint
