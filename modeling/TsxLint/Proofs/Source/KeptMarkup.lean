/-
Module: TsxLint.Proofs.Source.KeptMarkup
Purpose: Which elements and arrow functions of a text are in the model, and where they are lost.
Main exports: Model.KeepsMarkup, Model.keepsMarkup_of_kids, Model.IsRegular,
  Model.builtMarkup_perm, Model.builtMarkup_subperm, SourceFile.markup_perm_iff
-/
import Mathlib.Data.List.Perm.Subperm
import TsxLint.Proofs.Source.Files
import TsxLint.Proofs.Source.Markup

namespace TsxLint

/-!
A construct keeps the markup in it if what the builder goes into holds as much of it as all children
of the construct.  A construct that is kept whole does.  One with a node of its own may not: a
declarator keeps its initial value and drops the pattern that it binds.

Nothing makes up for what is lost.  The trees that the builder goes into lie beside each other, so
they hold no more markup than there is, and the markup of a file is complete only if no construct on
the way drops any.
-/

namespace Model

variable {d : Document} {t : Tree}

/-! ### Constructs that keep their markup -/

/-- What the builder goes into for a tree holds the markup below the tree. -/
def KeepsMarkup (d : Document) (t : Tree) : Prop :=
  (t.markupBelow d).Perm ((partTrees d t).flatMap (Tree.markup d))

instance (d : Document) (t : Tree) : Decidable (KeepsMarkup d t) :=
  inferInstanceAs (Decidable (List.Perm _ _))

theorem kids_eq_filter_visibleChildren (t : Tree) : t.kids = t.visibleChildren.filter Tree.named := by
  rw [Tree.visibleChildren, List.filter_filter]
  rfl

theorem kids_sublist_visibleChildren (t : Tree) : t.kids.Sublist t.visibleChildren := by
  rw [kids_eq_filter_visibleChildren]
  exact List.filter_sublist

/-- A construct that is built from all its named children keeps its markup: fixed pieces of text hold
none. -/
theorem keepsMarkup_of_kids (hparts : partTrees d t = t.kids)
    (hfixed : ∀ c ∈ t.children, c.named = false → c.markup d = []) : KeepsMarkup d t := by
  have hsplit := List.filter_append_perm Tree.named t.visibleChildren
  have hnone : (t.visibleChildren.filter fun c => !c.named).flatMap (Tree.markup d) = [] := by
    rw [List.flatMap_eq_nil_iff]
    intro c hc
    obtain ⟨hc, hfixed'⟩ := List.mem_filter.1 hc
    exact hfixed c (List.mem_of_mem_filter hc) (by simpa using hfixed')
  have hperm := hsplit.flatMap_right (Tree.markup d)
  rw [List.flatMap_append, hnone, List.append_nil, ← kids_eq_filter_visibleChildren] at hperm
  rw [KeepsMarkup, hparts]
  exact hperm.symm

/-- Constructs without a node of their own, programs, fragments and blocks keep their markup. -/
theorem keepsMarkup_of_whole
    (h : isKeptWhole d t = true ∨ t.type ∈ ["program", "jsx_fragment", "statement_block"])
    (hfixed : ∀ c ∈ t.children, c.named = false → c.markup d = []) : KeepsMarkup d t := by
  apply keepsMarkup_of_kids _ hfixed
  cases hwhole : isKeptWhole d t with
  | true => exact partTrees_of_isKeptWhole hwhole
  | false =>
    have htype := h.resolve_left (by simp [hwhole])
    simp only [List.mem_cons, List.not_mem_nil, or_false] at htype
    rcases htype with htype | htype | htype
    · exact partTrees_of_ofType hwhole (c := .program) (by rw [htype]; rfl)
    · exact partTrees_of_ofType hwhole (c := .fragment) (by rw [htype]; rfl)
    · exact partTrees_of_ofType hwhole (c := .block) (by rw [htype]; rfl)

/-- If every construct that the builder goes into keeps its markup, none is lost. -/
theorem builtMarkup_perm (h : ∀ u ∈ built d t, KeepsMarkup d u) :
    (builtMarkup d t).Perm (t.markup d) := by
  induction t using induction_on_parts d with
  | step t ih =>
    rw [built_eq, List.forall_mem_cons] at h
    obtain ⟨hself, hparts⟩ := h
    have hbelow : ((partTrees d t).flatMap (builtMarkup d)).Perm
        ((partTrees d t).flatMap (Tree.markup d)) := by
      apply List.Perm.flatMap_left
      intro c hc
      exact ih c hc fun u hu => hparts u (List.mem_flatMap.2 ⟨c, hc, hu⟩)
    rw [builtMarkup_eq, Tree.markup_eq]
    exact (hbelow.trans hself.symm).append_left _

/-! ### Markup is read once -/

/-- An element opens with a tag, and comments fill no fields. -/
structure IsRegular (t : Tree) : Prop where
  opens : OpensWithTag t
  comments : ∀ c ∈ t.children, c.isComment = true → c.field = ""

instance : DecidablePred IsRegular := fun t =>
  decidable_of_iff (OpensWithTag t ∧ ∀ c ∈ t.children, c.isComment = true → c.field = "")
    ⟨fun ⟨h₁, h₂⟩ => ⟨h₁, h₂⟩, fun ⟨h₁, h₂⟩ => ⟨h₁, h₂⟩⟩

theorem mem_visibleChildren_of_mem_kids {c : Tree} (h : c ∈ t.kids) : c ∈ t.visibleChildren :=
  (kids_sublist_visibleChildren t).subset h

theorem IsRegular.mem_visibleChildren (h : IsRegular t) {c : Tree} {field : String}
    (hc : t.field? field = some c) (hfield : field ≠ "") : c ∈ t.visibleChildren := by
  have hmem := Tree.mem_children_of_field? hc
  refine List.mem_filter.2 ⟨hmem, ?_⟩
  by_contra hcomment
  have hempty := h.comments c hmem (by simpa using hcomment)
  rw [Tree.field_of_field? hc] at hempty
  exact hfield hempty

theorem markupBelow_sublist (d : Document) (t : Tree) : (t.markupBelow d).Sublist (t.markup d) := by
  rw [Tree.markup_eq]
  exact List.sublist_append_right _ _

theorem markup_sublist_of_mem {ts : List Tree} {c : Tree} (h : c ∈ ts) :
    (c.markup d).Sublist (ts.flatMap (Tree.markup d)) := by
  have hsingle := (List.singleton_sublist.2 h).flatMap (Tree.markup d)
  rwa [List.flatMap_singleton] at hsingle

/-- One child holds part of the markup below a tree. -/
theorem markup_toList_sublist {u : Option Tree} (h : ∀ c ∈ u, c ∈ t.visibleChildren) :
    (u.toList.flatMap (Tree.markup d)).Sublist (t.markupBelow d) := by
  cases u with
  | none => exact List.nil_sublist _
  | some c =>
    rw [Option.toList_some, List.flatMap_singleton]
    exact markup_sublist_of_mem (h c rfl)

theorem markup_kids_sublist {ts : List Tree} (h : ts.Sublist t.kids) :
    (ts.flatMap (Tree.markup d)).Sublist (t.markupBelow d) :=
  (h.trans (kids_sublist_visibleChildren t)).flatMap _

/-- Markup in two sets of children that have none in common is part of the markup below a tree. -/
theorem append_subperm_markupBelow {p : Tree → Bool} {xs ys : List (NodeKind × Span)}
    (hxs : xs.Sublist ((t.visibleChildren.filter p).flatMap (Tree.markup d)))
    (hys : ys.Sublist ((t.visibleChildren.filter fun c => !p c).flatMap (Tree.markup d))) :
    (xs ++ ys).Subperm (t.markupBelow d) := by
  have hsplit := (List.filter_append_perm p t.visibleChildren).flatMap_right (Tree.markup d)
  rw [List.flatMap_append] at hsplit
  exact (hxs.append hys).subperm.trans hsplit.subperm

theorem attributeParts_sublist (d : Document) (a : Tree) :
    ((attributeParts a).flatMap (Tree.markup d)).Sublist (a.markup d) := by
  refine List.Sublist.trans ?_ (markupBelow_sublist d a)
  unfold attributeParts
  split
  · refine markup_toList_sublist fun c hc => mem_visibleChildren_of_mem_kids ?_
    exact List.mem_of_getElem? (Option.filter_eq_some_iff.1 hc).1
  · refine markup_toList_sublist fun c hc => mem_visibleChildren_of_mem_kids ?_
    exact List.mem_of_mem_head? (Option.filter_eq_some_iff.1 hc).1

theorem substitutionParts_sublist (d : Document) (s : Tree) :
    ((substitutionParts s).flatMap (Tree.markup d)).Sublist (s.markup d) := by
  refine List.Sublist.trans ?_ (markupBelow_sublist d s)
  exact markup_toList_sublist fun c hc => mem_visibleChildren_of_mem_kids (List.mem_of_mem_head? hc)

theorem parameterParts_sublist (d : Document) {p : Tree} (h : IsRegular p) :
    ((parameterParts p).flatMap (Tree.markup d)).Sublist (p.markup d) := by
  refine List.Sublist.trans ?_ (markupBelow_sublist d p)
  unfold parameterParts
  split
  · exact List.nil_sublist _
  · refine markup_toList_sublist fun c hc => ?_
    rcases Option.or_eq_some_iff.1 hc with hc | ⟨-, hc⟩
    · exact h.mem_visibleChildren hc (by simp)
    · exact h.mem_visibleChildren hc (by simp)

theorem attributes_sublist (d : Document) (tag : Tree) :
    (((attributeTrees (some tag)).flatMap attributeParts).flatMap (Tree.markup d)).Sublist
      (tag.markupBelow d) := by
  rw [List.flatMap_assoc]
  refine (List.Sublist.flatMap_right _ fun a _ => attributeParts_sublist d a).trans ?_
  exact markup_kids_sublist List.filter_sublist

theorem element_subperm (h : IsRegular t) (htype : t.type = "jsx_element") :
    ((ownParts t .element).flatMap (Tree.markup d)).Subperm (t.markupBelow d) := by
  rw [ownParts, List.flatMap_append]
  apply append_subperm_markupBelow (p := isTag)
  · cases htag : openingTree? t with
    | none => exact List.nil_sublist _
    | some tag =>
      have hisTag : isTag tag = true := isTag_of_openingTree? htype h.opens htag
      have hvisible : tag ∈ t.visibleChildren := by
        refine List.mem_filter.2 ⟨openingTree?_mem htag, ?_⟩
        simp only [isTag, Bool.or_eq_true, beq_iff_eq] at hisTag
        rcases hisTag with htype | htype <;> simp [Tree.isComment, htype]
      refine ((attributes_sublist d tag).trans (markupBelow_sublist d tag)).trans ?_
      exact markup_sublist_of_mem (List.mem_filter.2 ⟨hvisible, hisTag⟩)
  · exact ((kids_sublist_visibleChildren t).filter _).flatMap _

/-- The parameters of a function hold markup of one child only, which is not its body. -/
theorem parameters_sublist (h : t.Everywhere IsRegular) :
    (((parameterTrees t).flatMap parameterParts).flatMap (Tree.markup d)).Sublist
      ((t.visibleChildren.filter fun c => c.field != "body").flatMap (Tree.markup d)) := by
  rw [List.flatMap_assoc, parameterTrees]
  have hchild {c : Tree} {field : String} (hc : t.field? field = some c) (hne : field ≠ "")
      (hbody : field ≠ "body") : c ∈ t.visibleChildren.filter fun c => c.field != "body" := by
    refine List.mem_filter.2 ⟨h.self.mem_visibleChildren hc hne, ?_⟩
    simpa [Tree.field_of_field? hc] using hbody
  cases hsingle : t.field? "parameter" with
  | some single =>
    have hmem := Tree.mem_subtrees_of_mem_children (Tree.mem_children_of_field? hsingle)
    rw [List.flatMap_singleton]
    refine (parameterParts_sublist d (h single hmem)).trans ?_
    exact markup_sublist_of_mem (hchild hsingle (by simp) (by simp))
  | none =>
    cases hformal : t.field? "parameters" with
    | none => exact List.nil_sublist _
    | some formal =>
      have hmem := Tree.mem_subtrees_of_mem_children (Tree.mem_children_of_field? hformal)
      have hregular (p : Tree) (hp : p ∈ formal.kids) : IsRegular p :=
        h p (Tree.mem_subtrees_trans
          (Tree.mem_subtrees_of_mem_children (Tree.mem_children_of_mem_kids hp)) hmem)
      have hparams := List.Sublist.flatMap_right
        (formal.kids.filter fun c => parameterTypes.contains c.type)
        fun p hp => parameterParts_sublist d (hregular p (List.mem_of_mem_filter hp))
      refine (hparams.trans (markup_kids_sublist List.filter_sublist)).trans ?_
      refine (markupBelow_sublist d formal).trans ?_
      exact markup_sublist_of_mem (hchild hformal (by simp) (by simp))

theorem arrow_subperm (h : t.Everywhere IsRegular) :
    ((ownParts t .arrow).flatMap (Tree.markup d)).Subperm (t.markupBelow d) := by
  rw [ownParts, List.flatMap_append]
  apply append_subperm_markupBelow (p := fun c => c.field != "body") (parameters_sublist h)
  cases hbody : t.field? "body" with
  | none => exact List.nil_sublist _
  | some body =>
    rw [Option.toList_some, List.flatMap_singleton]
    apply markup_sublist_of_mem
    refine List.mem_filter.2 ⟨h.self.mem_visibleChildren hbody (by simp), ?_⟩
    simp [Tree.field_of_field? hbody]

theorem template_sublist (d : Document) (t : Tree) :
    ((ownParts t .template).flatMap (Tree.markup d)).Sublist (t.markupBelow d) := by
  rw [ownParts, List.flatMap_assoc]
  refine (List.Sublist.flatMap_right _ fun s _ => substitutionParts_sublist d s).trans ?_
  apply List.Sublist.flatMap
  apply List.monotone_filter_right
  intro c hc
  simp only [Bool.and_eq_true, beq_iff_eq] at hc
  simp [Tree.isComment, hc.2]

/-- The trees that the builder goes into hold no more markup than there is below a tree. -/
theorem parts_subperm (d : Document) (h : t.Everywhere IsRegular) :
    ((partTrees d t).flatMap (Tree.markup d)).Subperm (t.markupBelow d) := by
  have hkids : (t.kids.flatMap (Tree.markup d)).Sublist (t.markupBelow d) :=
    markup_kids_sublist (List.Sublist.refl _)
  have hhead : (t.kids.head?.toList.flatMap (Tree.markup d)).Sublist (t.markupBelow d) :=
    markup_toList_sublist fun c hc => mem_visibleChildren_of_mem_kids (List.mem_of_mem_head? hc)
  rw [partTrees]
  split
  · exact hkids.subperm
  · cases hc : Construct.ofType t.type with
    | program | fragment | block => exact hkids.subperm
    | element =>
      have htype := type_mem_typesOf hc (by simp)
      exact element_subperm h.self (List.mem_singleton.1 htype)
    | selfClosingElement => exact (attributes_sublist d t).subperm
    | container | statement => exact hhead.subperm
    | template => exact (template_sublist d t).subperm
    | arrow => exact arrow_subperm h
    | declarator =>
      refine (markup_toList_sublist fun c hc => ?_).subperm
      exact h.self.mem_visibleChildren hc (by simp)
    | importStatement | exportStatement | text | string | number | keyword | unknown =>
      exact (List.nil_sublist _).subperm

theorem flatMap_subperm {f g : Tree → List (NodeKind × Span)} {ts : List Tree}
    (h : ∀ c ∈ ts, (f c).Subperm (g c)) : (ts.flatMap f).Subperm (ts.flatMap g) := by
  induction ts with
  | nil => exact .refl _
  | cons c rest ih =>
    obtain ⟨hc, hrest⟩ := List.forall_mem_cons.1 h
    rw [List.flatMap_cons, List.flatMap_cons]
    exact hc.append (ih hrest)

/-- In a tree that is regular everywhere, no markup is read twice. -/
theorem builtMarkup_subperm (h : t.Everywhere IsRegular) :
    (builtMarkup d t).Subperm (t.markup d) := by
  induction t using induction_on_parts d with
  | step t ih =>
    have hparts := flatMap_subperm fun c hc =>
      ih c hc (h.of_mem (mem_subtrees_of_mem_partTrees hc))
    rw [builtMarkup_eq, Tree.markup_eq]
    exact List.Subperm.append (.refl _) (hparts.trans (parts_subperm d h))

/-- Where lists are part of others one by one and not shorter in all, each is as long. -/
theorem length_le_of_flatMap {f g : Tree → List (NodeKind × Span)} {ts : List Tree}
    (hsub : ∀ c ∈ ts, (f c).Subperm (g c))
    (h : (ts.flatMap g).length ≤ (ts.flatMap f).length) : ∀ c ∈ ts, (g c).length ≤ (f c).length := by
  induction ts with
  | nil => simp
  | cons c rest ih =>
    obtain ⟨hc, hrest⟩ := List.forall_mem_cons.1 hsub
    rw [List.flatMap_cons, List.flatMap_cons, List.length_append, List.length_append] at h
    have hfirst := hc.length_le
    have hlater := (flatMap_subperm hrest).length_le
    exact List.forall_mem_cons.2 ⟨by omega, ih hrest (by omega)⟩

/-- If no markup is lost, every construct that the builder goes into keeps its markup. -/
theorem keepsMarkup_of_length_le (h : t.Everywhere IsRegular)
    (hlength : (t.markup d).length ≤ (builtMarkup d t).length) :
    ∀ u ∈ built d t, KeepsMarkup d u := by
  induction t using induction_on_parts d with
  | step t ih =>
    have hpart (c : Tree) (hc : c ∈ partTrees d t) : (builtMarkup d c).Subperm (c.markup d) :=
      builtMarkup_subperm (h.of_mem (mem_subtrees_of_mem_partTrees hc))
    have hbuilt := (flatMap_subperm hpart).length_le
    have hbelow := (parts_subperm d h).length_le
    rw [builtMarkup_eq, Tree.markup_eq, List.length_append, List.length_append] at hlength
    rw [built_eq, List.forall_mem_cons]
    constructor
    · exact ((parts_subperm d h).perm_of_length_le (by omega)).symm
    · intro u hu
      obtain ⟨c, hc, hu⟩ := List.mem_flatMap.1 hu
      have hregular := h.of_mem (mem_subtrees_of_mem_partTrees hc)
      exact ih c hc hregular (length_le_of_flatMap hpart (by omega) c hc) u hu

end Model

/-! ### Markup of a file -/

namespace SourceFile

/-- The markup among the nodes of a file is what is built of its tree. -/
theorem markup_perm_of_ofTree {path : FilePath} {language : Language} {text : String}
    {tree : ParseTree} {source : SourceFile} (h : ofTree path language text tree = .ok source) :
    (source.nodes.filterMap Node.markup?).Perm
      ((Model.partTrees (Document.ofText text) tree.root).flatMap
        (Model.builtMarkup (Document.ofText text))) := by
  obtain ⟨n, hn, -, hbody⟩ := (parsed_of_ofTree h).exists_build
  change source.root.markup.Perm _
  rw [Node.markup_eq]
  change (source.program.body.flatMap Node.markup).Perm _
  rw [hbody]
  exact Model.markupBelow_perm_of_build hn

/-- The elements and arrow functions below the root of a tree, comments aside, are those among the
nodes of the file, each once, if every construct that the builder goes into keeps the markup in it;
constructs without a node of their own do.  In a tree that is regular everywhere no markup is among
the nodes more than once, and if one construct on the way does not keep its markup, some is lost. -/
theorem markup_perm_iff (path : FilePath) (language : Language) (text : String) (tree : ParseTree)
    (source : SourceFile) (h : ofTree path language text tree = .ok source) :
    let d := Document.ofText text
    let found := source.nodes.filterMap Node.markup?
    ((∀ u ∈ Model.built d tree.root, Model.KeepsMarkup d u) →
      found.Perm (tree.root.markupBelow d)) ∧
    (∀ u ∈ Model.built d tree.root,
      (Model.isKeptWhole d u = true ∨ u.type ∈ ["program", "jsx_fragment", "statement_block"]) →
      (∀ c ∈ u.children, c.named = false → c.markup d = []) → Model.KeepsMarkup d u) ∧
    (tree.root.Everywhere Model.IsRegular →
      found.Subperm (tree.root.markupBelow d) ∧
      (found.Perm (tree.root.markupBelow d) →
        ∀ u ∈ Model.built d tree.root, Model.KeepsMarkup d u)) := by
  intro d found
  have hfile := markup_perm_of_ofTree h
  refine ⟨?_, fun _ _ => Model.keepsMarkup_of_whole, ?_⟩
  · intro hkeeps
    have hall := Model.builtMarkup_perm hkeeps
    rw [Model.builtMarkup_eq, Tree.markup_eq, List.perm_append_left_iff] at hall
    exact hfile.trans hall
  · intro hregular
    constructor
    · have hall := Model.builtMarkup_subperm (d := d) hregular
      rw [Model.builtMarkup_eq, Tree.markup_eq, List.subperm_append_left] at hall
      exact hfile.subperm.trans hall
    · intro hperm
      apply Model.keepsMarkup_of_length_le hregular
      apply Nat.le_of_eq
      rw [Model.builtMarkup_eq, Tree.markup_eq, List.length_append, List.length_append,
        ← hfile.length_eq, hperm.length_eq]

/-! ### Elements in declarations -/

/-- The tree of a constant that is an element without parts. -/
def elementConstant : ParseTree :=
  ⟨.node "program" true "" 0 15
    [.node "lexical_declaration" true "" 0 15
      [.node "const" false "kind" 0 5 [],
        .node "variable_declarator" true "" 6 14
          [.node "identifier" true "name" 6 7 [], .node "=" false "" 8 9 [],
            .node "jsx_self_closing_element" true "value" 10 14
              [.node "<" false "" 10 11 [], .node "identifier" true "name" 11 12 [],
                .node "/>" false "" 12 14 []]],
        .node ";" false "" 14 15 []]], false⟩

/-- The tree of a constant that is bound by a pattern with an element as a default. -/
def elementDefault : ParseTree :=
  ⟨.node "program" true "" 0 21
    [.node "lexical_declaration" true "" 0 21
      [.node "const" false "kind" 0 5 [],
        .node "variable_declarator" true "" 6 20
          [.node "object_pattern" true "name" 6 16
            [.node "\x7b" false "" 6 7 [],
              .node "object_assignment_pattern" true "" 7 15
                [.node "shorthand_property_identifier_pattern" true "left" 7 8 [],
                  .node "=" false "" 9 10 [],
                  .node "jsx_self_closing_element" true "right" 11 15
                    [.node "<" false "" 11 12 [], .node "identifier" true "name" 12 13 [],
                      .node "/>" false "" 13 15 []]],
              .node "\x7d" false "" 15 16 []],
            .node "=" false "" 17 18 [], .node "identifier" true "value" 19 20 []],
        .node ";" false "" 20 21 []]], false⟩

/-- An element that is the value of a constant is among the nodes. -/
theorem markup_perm_elementConstant :
    ∃ source, ofTree ⟨"", ["a.tsx"]⟩ .tsx "const a = <b/>;" elementConstant = .ok source ∧
      (source.nodes.filterMap Node.markup?).Perm [(.element, ⟨1, 10, 1, 14, 10, 14⟩)] := by
  have hok : (ofTree ⟨"", ["a.tsx"]⟩ .tsx "const a = <b/>;" elementConstant).toOption.isSome := by
    decide +kernel
  obtain ⟨source, hsource⟩ := Option.isSome_iff_exists.1 hok
  have hsource := Outcome.eq_ok_of_toOption_eq_some hsource
  have hperm := (markup_perm_iff _ _ _ _ _ hsource).1 (by decide +kernel)
  have hbelow : elementConstant.root.markupBelow (Document.ofText "const a = <b/>;") =
      [(.element, ⟨1, 10, 1, 14, 10, 14⟩)] := by
    decide +kernel
  rw [hbelow] at hperm
  exact ⟨source, hsource, hperm⟩

/-- An element in a pattern is lost: the tree of a declaration may hold markup that is not among
the nodes. -/
theorem markup_may_be_lost :
    ¬ ∀ (path : FilePath) (language : Language) (text : String) (tree : ParseTree)
        (source : SourceFile), tree.root.WellFormed text → tree.root.Everywhere Model.IsRegular →
      ofTree path language text tree = .ok source →
      (source.nodes.filterMap Node.markup?).Perm
        (tree.root.markupBelow (Document.ofText text)) := by
  intro hall
  have hnone : (ofTree ⟨"", ["a.tsx"]⟩ .tsx "const \x7ba = <b/>\x7d = c;"
      elementDefault).toOption.map (fun s => (s.nodes.filterMap Node.markup?).length) = some 0 := by
    decide +kernel
  obtain ⟨source, hsource, hlength⟩ := Option.map_eq_some_iff.1 hnone
  have hsource := Outcome.eq_ok_of_toOption_eq_some hsource
  have hperm := hall _ _ _ _ _ (by decide +kernel) (by decide +kernel) hsource
  have hsome : (elementDefault.root.markupBelow
      (Document.ofText "const \x7ba = <b/>\x7d = c;")).length = 1 := by
    decide +kernel
  rw [← hperm.length_eq, hlength] at hsome
  cases hsome

end SourceFile

end TsxLint
