/-
Module: TsxLint.Proofs.Source.Placement
Purpose: Where the nodes of a model lie: each at a place of the tree, no two parts at the same.
Main exports: Model.OpensWithTag, Model.Stems, Model.stems_of_build,
  Model.childrenInOrder_of_assembled
-/
import TsxLint.Proofs.Rule.Visits
import TsxLint.Proofs.Source.Assembly
import TsxLint.Proofs.Source.WellFormed

namespace TsxLint.Model

/-!
A node of the model has the span of the tree it stems from, and its children stem from parts of
that tree which lie beside each other.  So the tree is read once: what is at one place of the
text becomes one node.  The exceptions are nodes without children that rules do not look at by
themselves: bindings, chunks of template strings, modules, and empty substitutions.

There is one way to read a tree twice.  The opening tag of an element is the child in a field,
and if that child is no tag by its type, it is taken for a part of the contents as well.
-/

open TsxLint.Tree (Beside WellFormed)

/-- The child that fills the field for the opening tag of an element is a tag. -/
def OpensWithTag (t : Tree) : Prop :=
  t.type = "jsx_element" → ∀ c ∈ t.field? "open_tag", isTag c = true

instance : DecidablePred OpensWithTag := fun t =>
  inferInstanceAs (Decidable (t.type = "jsx_element" → ∀ c ∈ t.field? "open_tag", isTag c = true))

/-- A well-formed tree of which nothing is read twice. -/
structure Readable (text : String) (t : Tree) : Prop where
  wellFormed : t.WellFormed text
  opens : t.Everywhere OpensWithTag

theorem Readable.of_mem {text : String} {t u : Tree} (h : Readable text t) (hu : u ∈ t.subtrees) :
    Readable text u :=
  ⟨h.wellFormed.of_mem hu, h.opens.of_mem hu⟩

/-- A node without children of a kind that no rule listens to. -/
def IsBare (n : Node) : Prop :=
  n.children = [] ∧ n.kind ∈ [NodeKind.chunk, .specifier, .literal, .other]

/-- What a node of a kind says about the tree it stems from. -/
def Suits (d : Document) (t : Tree) : Node → Prop
  | .importDeclaration _ => t.type = "import_statement"
  | .exportDeclaration _ => t.type = "export_statement"
  | .element e =>
    (∀ s ∈ e.nameSpan, ∃ u ∈ t.subtrees, s = spanOf d u) ∧
      ∀ a ∈ e.attributes, a.kind ∈ [NodeKind.attr, .spread]
  | .attr a =>
    t.type = "jsx_attribute" ∧ ∀ v ∈ a.value, ∃ u, t.kids[1]? = some u ∧ v.span = spanOf d u
  | _ => True

/-- Trees below a tree, beside each other. -/
structure AreParts (t : Tree) (us : List Tree) : Prop where
  below : ∀ u ∈ us, u ∈ t.subtrees
  beside : us.Pairwise Beside

/-- A node has the span of a tree, and its children stem from parts of the tree. -/
inductive Stems (d : Document) : Tree → Node → Prop
  | intro {t : Tree} {n : Node} (us : List Tree) (parts bare : List Node)
      (span : n.span = spanOf d t) (suits : Suits d t n)
      (children : n.children.Perm (parts ++ bare)) (isBare : ∀ b ∈ bare, IsBare b)
      (areParts : AreParts t us) (stems : List.Forall₂ (Stems d) us parts) : Stems d t n

/-! ### Parts of a tree -/

namespace AreParts

variable {text : String} {t : Tree} {us vs : List Tree}

theorem nil : AreParts t [] := ⟨by simp, .nil⟩

theorem of_sublist (h : t.WellFormed text) (hsub : us.Sublist t.children) : AreParts t us where
  below _ hu := Tree.mem_subtrees_of_mem_children (hsub.subset hu)
  beside := (h.isLaidOut.ordered.sublist hsub).imp Or.inl

theorem toList {u : Option Tree} (h : ∀ v ∈ u, v ∈ t.subtrees) : AreParts t u.toList where
  below _ hv := h _ (Option.mem_toList.1 hv)
  beside := by cases u <;> simp

theorem append (hus : AreParts t us) (hvs : AreParts t vs)
    (across : ∀ u ∈ us, ∀ v ∈ vs, u.Beside v) : AreParts t (us ++ vs) where
  below u hu := by
    rcases List.mem_append.1 hu with hu | hu
    · exact hus.below u hu
    · exact hvs.below u hu
  beside := List.pairwise_append.2 ⟨hus.beside, hvs.beside, across⟩

/-- Parts of a part are parts. -/
theorem of_mem_subtrees {c : Tree} (h : AreParts c us) (hc : c ∈ t.subtrees) : AreParts t us where
  below u hu := Tree.mem_subtrees_trans (h.below u hu) hc
  beside := h.beside

theorem kids (h : t.WellFormed text) : AreParts t t.kids := .of_sublist h List.filter_sublist

theorem attributeTrees {tag : Option Tree} (h : t.WellFormed text)
    (htag : ∀ c ∈ tag, c ∈ t.subtrees) : AreParts t (attributeTrees tag) := by
  cases tag with
  | none => exact nil
  | some c =>
    have hc : c ∈ t.subtrees := htag c rfl
    exact (of_sublist (h.of_mem hc) (List.filter_sublist.trans List.filter_sublist)).of_mem_subtrees hc

end AreParts

theorem openingTree?_mem {t c : Tree} (h : c ∈ openingTree? t) : c ∈ t.children := by
  rcases Option.or_eq_some_iff.1 h with h | ⟨-, h⟩
  · exact Tree.mem_children_of_field? h
  · exact Tree.mem_children_of_first? h

/-- An opening tag is no part of the contents of its element. -/
theorem isTag_of_openingTree? {t c : Tree} (htype : t.type = "jsx_element")
    (hopens : OpensWithTag t) (h : c ∈ openingTree? t) : isTag c = true := by
  rcases Option.or_eq_some_iff.1 h with h | ⟨-, h⟩
  · exact hopens htype c h
  · simp [isTag, Tree.type_of_first? h]

/-- The attributes in the opening tag of an element lie beside its contents. -/
theorem AreParts.element {text : String} {t : Tree} (h : Readable text t)
    (htype : t.type = "jsx_element") :
    AreParts t (Model.attributeTrees (openingTree? t) ++ bodyTrees t) := by
  have hattributes : AreParts t (Model.attributeTrees (openingTree? t)) :=
    attributeTrees h.wellFormed fun c hc => Tree.mem_subtrees_of_mem_children (openingTree?_mem hc)
  have hbody : AreParts t (bodyTrees t) :=
    of_sublist h.wellFormed (List.filter_sublist.trans List.filter_sublist)
  refine hattributes.append hbody ?_
  intro u hu v hv
  cases htag : openingTree? t with
  | none =>
    rw [htag] at hu
    cases hu
  | some c =>
    rw [htag] at hu
    obtain ⟨hv, hvtag⟩ := List.mem_filter.1 hv
    have hc : c ∈ t.children := openingTree?_mem htag
    have hne : c ≠ v := by
      rintro rfl
      rw [isTag_of_openingTree? htype h.opens.self htag] at hvtag
      cases hvtag
    have hbeside := h.wellFormed.beside_of_mem_children hc (Tree.mem_children_of_mem_kids hv) hne
    have hkid : u ∈ c.kids := (List.mem_filter.1 hu).1
    exact Tree.WellFormed.beside_of_mem
      (h.wellFormed.of_mem (Tree.mem_subtrees_of_mem_children hc))
      (h.wellFormed.of_mem (Tree.mem_subtrees_of_mem_children (Tree.mem_children_of_mem_kids hv)))
      hbeside (Tree.mem_subtrees_of_mem_children (Tree.mem_children_of_mem_kids hkid))
      (Tree.self_mem_subtrees v)

/-- Every formal parameter is a child in one of two fields, or a child of it. -/
theorem exists_of_mem_parameterTrees {t u : Tree} (h : u ∈ parameterTrees t) :
    ∃ c ∈ t.children, c.field ∈ ["parameter", "parameters"] ∧ u ∈ c.subtrees := by
  rw [parameterTrees] at h
  cases hsingle : t.field? "parameter" with
  | some single =>
    rw [hsingle] at h
    cases List.mem_singleton.1 h
    exact ⟨u, Tree.mem_children_of_field? hsingle, by simp [Tree.field_of_field? hsingle],
      Tree.self_mem_subtrees u⟩
  | none =>
    rw [hsingle] at h
    cases hformal : t.field? "parameters" with
    | some formal =>
      simp only [hformal] at h
      have hkid := (List.mem_filter.1 h).1
      exact ⟨formal, Tree.mem_children_of_field? hformal, by simp [Tree.field_of_field? hformal],
        Tree.mem_subtrees_of_mem_children (Tree.mem_children_of_mem_kids hkid)⟩
    | none =>
      simp only [hformal] at h
      cases h

/-- Formal parameters come one behind the other. -/
theorem pairwise_parameterTrees {text : String} {t : Tree} (ht : t.WellFormed text) :
    (parameterTrees t).Pairwise fun a b => a.stop ≤ b.start := by
  rw [parameterTrees]
  cases hsingle : t.field? "parameter" with
  | some single => exact List.pairwise_singleton _ _
  | none =>
    cases hformal : t.field? "parameters" with
    | some formal =>
      have hformal' := Tree.mem_subtrees_of_mem_children (Tree.mem_children_of_field? hformal)
      exact (ht.of_mem hformal').ordered_kids.sublist List.filter_sublist
    | none => exact .nil

theorem AreParts.parameters {text : String} {t : Tree} (h : t.WellFormed text) :
    AreParts t (parameterTrees t) where
  below u hu := by
    obtain ⟨c, hc, -, hu⟩ := exists_of_mem_parameterTrees hu
    exact Tree.mem_subtrees_trans hu (Tree.mem_subtrees_of_mem_children hc)
  beside := (pairwise_parameterTrees h).imp Or.inl

/-- The parameters of a function lie beside its body. -/
theorem AreParts.arrow {text : String} {t : Tree} (h : t.WellFormed text) :
    AreParts t (parameterTrees t ++ (t.field? "body").toList) := by
  refine (parameters h).append (toList fun v hv => ?_) ?_
  · exact Tree.mem_subtrees_of_mem_children (Tree.mem_children_of_field? hv)
  · intro u hu v hv
    obtain ⟨c, hc, hfield, hu⟩ := exists_of_mem_parameterTrees hu
    have hbody : t.field? "body" = some v := Option.mem_toList.1 hv
    have hne : c ≠ v := by
      rintro rfl
      rw [Tree.field_of_field? hbody] at hfield
      simp at hfield
    have hv' := Tree.mem_children_of_field? hbody
    exact Tree.WellFormed.beside_of_mem (h.of_mem (Tree.mem_subtrees_of_mem_children hc))
      (h.of_mem (Tree.mem_subtrees_of_mem_children hv')) (h.beside_of_mem_children hc hv' hne) hu
      (Tree.self_mem_subtrees v)

/-- The expressions of substitutions that have one. -/
def expressionTrees (ts : List Tree) : List Tree := ts.filterMap fun t => t.kids.head?

theorem AreParts.expressions {text : String} {t : Tree} (h : t.WellFormed text) {ts : List Tree}
    (hts : AreParts t ts) : AreParts t (expressionTrees ts) := by
  have hmem : ∀ {u v : Tree}, u.kids.head? = some v → v ∈ u.subtrees := fun {u v} huv =>
    Tree.mem_subtrees_of_mem_children (Tree.mem_children_of_mem_kids (List.mem_of_mem_head? huv))
  constructor
  · intro v hv
    obtain ⟨u, hu, huv⟩ := List.mem_filterMap.1 hv
    exact Tree.mem_subtrees_trans (hmem huv) (hts.below u hu)
  · refine List.pairwise_filterMap.2 (hts.beside.imp_of_mem ?_)
    intro u v hu hv hbeside x hx y hy
    exact Tree.WellFormed.beside_of_mem (h.of_mem (hts.below u hu)) (h.of_mem (hts.below v hv))
      hbeside (hmem hx) (hmem hy)

/-! ### Every node stems from its tree -/

/-- A node without children stems from the tree whose span it has. -/
theorem stems_of_children_eq_nil {d : Document} {t : Tree} {n : Node} (hspan : n.span = spanOf d t)
    (hsuits : Suits d t n) (hchildren : n.children = []) : Stems d t n :=
  .intro [] [] [] hspan hsuits (by rw [hchildren]; exact .refl _) (by simp) .nil .nil

/-- A node whose children are all built from parts of a tree stems from the tree. -/
theorem stems_of_forall₂ {d : Document} {t : Tree} {n : Node} {us : List Tree}
    (hspan : n.span = spanOf d t) (hsuits : Suits d t n) (hparts : AreParts t us)
    (hstems : List.Forall₂ (Stems d) us n.children) : Stems d t n :=
  .intro us n.children [] hspan hsuits (by rw [List.append_nil]) (by simp) hparts hstems

section Parts

variable {d : Document} {text : String}

/-- A node stems from a tree if the tree is readable. -/
def StemsIfReadable (d : Document) (text : String) (t : Tree) (n : Node) : Prop :=
  Readable text t → Stems d t n

theorem forall₂_stems {ts : List Tree} {nodes : List Node}
    (h : List.Forall₂ (StemsIfReadable d text) ts nodes) (hts : ∀ t ∈ ts, Readable text t) :
    List.Forall₂ (Stems d) ts nodes := by
  induction h with
  | nil => exact .nil
  | cons hstems _ ih =>
    exact .cons (hstems (hts _ List.mem_cons_self)) (ih fun t ht => hts t (List.mem_cons_of_mem _ ht))

theorem forall₂_stems_toList {t : Option Tree} {n : Option Node}
    (h : Option.Rel (StemsIfReadable d text) t n) (ht : ∀ u ∈ t, Readable text u) :
    List.Forall₂ (Stems d) t.toList n.toList := by
  cases h with
  | none => exact .nil
  | some hstems => exact .cons (hstems (ht _ rfl)) .nil

theorem stems_of_valueFrom {t : Option Tree} {n : Option Node}
    (h : ValueFrom d (StemsIfReadable d text) t n) (ht : ∀ u ∈ t, Readable text u) :
    List.Forall₂ (Stems d) t.toList n.toList := by
  cases h with
  | missing => exact .nil
  | string htype hraw => exact .cons (stems_of_children_eq_nil rfl trivial rfl) .nil
  | part htype hstems => exact .cons (hstems (ht _ rfl)) .nil

theorem Stems.span_eq {t : Tree} {n : Node} (h : Stems d t n) : n.span = spanOf d t := by
  cases h with
  | intro us parts bare span => exact span

theorem Stems.suits_self {t : Tree} {n : Node} (h : Stems d t n) : Suits d t n := by
  cases h with
  | intro us parts bare span suits => exact suits

theorem stems_of_attributeFrom {t : Tree} {n : Node}
    (h : AttributeFrom d (StemsIfReadable d text) t n) (ht : Readable text t) : Stems d t n := by
  cases h with
  | @attr name value htype hvalue hname =>
    have hkid : ∀ u ∈ t.kids[1]?, u ∈ t.subtrees := fun u hu =>
      Tree.mem_subtrees_of_mem_children
        (Tree.mem_children_of_mem_kids (List.mem_of_getElem? hu))
    have hstems := stems_of_valueFrom hvalue fun u hu => ht.of_mem (hkid u hu)
    refine stems_of_forall₂ rfl ⟨htype, ?_⟩ (.toList hkid) hstems
    intro v hv
    cases hu : t.kids[1]? with
    | none =>
      rw [hu] at hvalue
      cases hvalue
      cases hv
    | some u =>
      rw [hu, show value = some v from hv] at hstems
      cases hstems with
      | cons hstems _ => exact ⟨u, rfl, hstems.span_eq⟩
  | @spread argument htype hargument =>
    have hkid : ∀ u ∈ spreadTree? t, u ∈ t.subtrees := fun u hu =>
      Tree.mem_subtrees_of_mem_children (Tree.mem_children_of_mem_kids
        (List.mem_of_mem_head? (Option.filter_eq_some_iff.1 hu).1))
    exact stems_of_forall₂ rfl trivial (.toList hkid)
      (forall₂_stems_toList hargument fun u hu => ht.of_mem (hkid u hu))

theorem kind_of_attributeFrom {part : Tree → Node → Prop} {t : Tree} {n : Node}
    (h : AttributeFrom d part t n) : n.kind ∈ [NodeKind.attr, .spread] := by
  cases h <;> simp [Node.kind]

theorem kind_of_mem_attributes {part : Tree → Node → Prop} {ts : List Tree} {nodes : List Node}
    (h : List.Forall₂ (AttributeFrom d part) ts nodes) :
    ∀ n ∈ nodes, n.kind ∈ [NodeKind.attr, .spread] := by
  intro n hn
  obtain ⟨t, -, hfrom⟩ := Outcome.exists_left_of_mem h hn
  exact kind_of_attributeFrom hfrom

theorem forall₂_stems_attributes {ts : List Tree} {nodes : List Node}
    (h : List.Forall₂ (AttributeFrom d (StemsIfReadable d text)) ts nodes)
    (hts : ∀ t ∈ ts, Readable text t) : List.Forall₂ (Stems d) ts nodes := by
  induction h with
  | nil => exact .nil
  | cons hfrom _ ih =>
    exact .cons (stems_of_attributeFrom hfrom (hts _ List.mem_cons_self))
      (ih fun t ht => hts t (List.mem_cons_of_mem _ ht))

theorem stems_of_parameterFrom {t : Tree} {p : Parameter Node}
    (h : ParameterFrom d (StemsIfReadable d text) t p) (ht : Readable text t) :
    Stems d t (.parameter p) := by
  cases h with
  | identifier htype hname => exact stems_of_children_eq_nil rfl trivial rfl
  | pattern htype hname hdefault =>
    have hchild : ∀ u ∈ defaultTree? t, u ∈ t.subtrees := by
      intro u hu
      rcases Option.or_eq_some_iff.1 hu with hu | ⟨-, hu⟩
      · exact Tree.mem_subtrees_of_mem_children (Tree.mem_children_of_field? hu)
      · exact Tree.mem_subtrees_of_mem_children (Tree.mem_children_of_field? hu)
    exact stems_of_forall₂ rfl trivial (.toList hchild)
      (forall₂_stems_toList hdefault fun u hu => ht.of_mem (hchild u hu))

theorem forall₂_stems_parameters {ts : List Tree} {params : List (Parameter Node)}
    (h : List.Forall₂ (ParameterFrom d (StemsIfReadable d text)) ts params)
    (hts : ∀ t ∈ ts, Readable text t) :
    List.Forall₂ (Stems d) ts (params.map Node.parameter) := by
  induction h with
  | nil => exact .nil
  | cons hfrom _ ih =>
    exact .cons (stems_of_parameterFrom hfrom (hts _ List.mem_cons_self))
      (ih fun t ht => hts t (List.mem_cons_of_mem _ ht))

/-- The expressions of a template string stem from what is substituted; empty substitutions are
bare. -/
theorem stems_of_templateFrom {stop cursor : Int} {ts : List Tree} {chunks : List Chunk}
    {nodes : List Node} (h : TemplateFrom d (StemsIfReadable d text) stop cursor ts chunks nodes)
    (hts : ∀ t ∈ expressionTrees ts, Readable text t) :
    ∃ parts bare, nodes.Perm (parts ++ bare) ∧ (∀ b ∈ bare, IsBare b) ∧
      List.Forall₂ (Stems d) (expressionTrees ts) parts := by
  induction h with
  | last hchunk => exact ⟨[], [], .refl _, by simp, .nil⟩
  | @next cursor t rest c n chunks nodes hchunk hexpression hrest ih =>
    cases hexpression with
    | empty hkids =>
      have hskip : expressionTrees (t :: rest) = expressionTrees rest := by
        rw [expressionTrees, List.filterMap_cons, hkids]
        rfl
      rw [hskip] at hts ⊢
      obtain ⟨parts, bare, hperm, hbare, hstems⟩ := ih hts
      refine ⟨parts, _ :: bare, (hperm.cons _).trans List.perm_middle.symm, ?_, hstems⟩
      intro b hb
      rcases List.mem_cons.1 hb with rfl | hb
      · exact ⟨rfl, by simp [Node.kind]⟩
      · exact hbare b hb
    | @part first _ hkids hstems =>
      have htake : expressionTrees (t :: rest) = first :: expressionTrees rest := by
        rw [expressionTrees, List.filterMap_cons, hkids]
        rfl
      rw [htake] at hts ⊢
      obtain ⟨parts, bare, hperm, hbare, hlater⟩ := ih fun t ht => hts t (List.mem_cons_of_mem _ ht)
      exact ⟨n :: parts, bare, hperm.cons n, hbare, .cons (hstems (hts _ List.mem_cons_self)) hlater⟩

/-- The place of a name in a tag is one of the tree. -/
theorem exists_of_tagName {t : Tree} {tag : Option Tree} {name : String} {nameSpan : Option Span}
    (h : tagName d tag = .ok (name, nameSpan)) (htag : ∀ c ∈ tag, c ∈ t.subtrees) :
    ∀ s ∈ nameSpan, ∃ u ∈ t.subtrees, s = spanOf d u := by
  intro s hs
  rw [tagName] at h
  cases hname : tag.bind fun c => c.field? "name" with
  | none =>
    rw [hname] at h
    cases h
    cases hs
  | some u =>
    rw [hname] at h
    obtain ⟨text, -, h⟩ := Outcome.exists_of_bind_eq_ok h
    cases h
    cases hs
    obtain ⟨c, hc, hu⟩ := Option.bind_eq_some_iff.1 hname
    exact ⟨u, Tree.mem_subtrees_trans
      (Tree.mem_subtrees_of_mem_children (Tree.mem_children_of_field? hu)) (htag c hc), rfl⟩

theorem stems_of_forall₂_kids {t : Tree} {n : Node} (ht : Readable text t)
    (hspan : n.span = spanOf d t) (hsuits : Suits d t n)
    (h : List.Forall₂ (StemsIfReadable d text) t.kids n.children) : Stems d t n :=
  stems_of_forall₂ hspan hsuits (.kids ht.wellFormed)
    (forall₂_stems h fun _ hu => ht.of_mem (AreParts.below (.kids ht.wellFormed) _ hu))

theorem stems_of_head?_kids {t : Tree} {n : Node} {expression : Option Node}
    (ht : Readable text t) (hspan : n.span = spanOf d t) (hsuits : Suits d t n)
    (hchildren : n.children = expression.toList)
    (h : Option.Rel (StemsIfReadable d text) t.kids.head? expression) : Stems d t n := by
  have hkid : ∀ u ∈ t.kids.head?, u ∈ t.subtrees := fun u hu =>
    Tree.mem_subtrees_of_mem_children (Tree.mem_children_of_mem_kids (List.mem_of_mem_head? hu))
  refine stems_of_forall₂ hspan hsuits (.toList hkid) ?_
  rw [hchildren]
  exact forall₂_stems_toList h fun u hu => ht.of_mem (hkid u hu)

/-- A declaration has bare children only. -/
theorem isBare_of_mem_children {n : Declaration} {b : Node}
    (h : b ∈ n.specifiers.map Node.specifier ++ (n.source.map Node.literal).toList) : IsBare b := by
  rcases List.mem_append.1 h with h | h
  · obtain ⟨s, -, rfl⟩ := List.mem_map.1 h
    exact ⟨rfl, by simp [Node.kind]⟩
  · obtain ⟨l, -, rfl⟩ := Option.map_eq_some_iff.1 (Option.mem_toList.1 h)
    exact ⟨rfl, by simp [Node.kind]⟩

/-- What is assembled from parts that stem from theirs stems from the tree. -/
theorem stems_of_assembled {t : Tree} {n : Node} (h : Assembled d (StemsIfReadable d text) t n)
    (ht : Readable text t) : Stems d t n := by
  cases h with
  | program htype hbody => exact stems_of_forall₂_kids ht rfl trivial hbody
  | importDeclaration htype hsource hspecifiers =>
    exact .intro [] [] _ rfl htype (.refl _) (fun b hb => isBare_of_mem_children hb) .nil .nil
  | exportDeclaration htype hclause hspecifiers hsource =>
    exact .intro [] [] _ rfl htype (.refl _) (fun b hb => isBare_of_mem_children hb) .nil .nil
  | element htype hopening hclosing hattributes hbody =>
    have hparts := AreParts.element ht htype
    have hread : ∀ u ∈ attributeTrees (openingTree? t) ++ bodyTrees t, Readable text u :=
      fun u hu => ht.of_mem (hparts.below u hu)
    have hnames := exists_of_tagName hopening fun c hc =>
      Tree.mem_subtrees_of_mem_children (openingTree?_mem hc)
    exact stems_of_forall₂ rfl ⟨hnames, kind_of_mem_attributes hattributes⟩ hparts (List.rel_append
      (forall₂_stems_attributes hattributes fun u hu => hread u (List.mem_append_left _ hu))
      (forall₂_stems hbody fun u hu => hread u (List.mem_append_right _ hu)))
  | selfClosing htype hopening hattributes =>
    have hself : ∀ c ∈ some t, c ∈ t.subtrees := by
      intro c hc
      cases hc
      exact Tree.self_mem_subtrees t
    have hparts := AreParts.attributeTrees ht.wellFormed hself
    refine stems_of_forall₂ rfl
      ⟨exists_of_tagName hopening hself, kind_of_mem_attributes hattributes⟩ hparts ?_
    simp only [Node.children, List.append_nil]
    exact forall₂_stems_attributes hattributes fun u hu => ht.of_mem (hparts.below u hu)
  | fragment htype hbody =>
    refine stems_of_forall₂_kids ht rfl ?_ hbody
    exact ⟨by simp, by simp⟩
  | container htype hexpression => exact stems_of_head?_kids ht rfl trivial rfl hexpression
  | text htype hvalue => exact stems_of_children_eq_nil rfl trivial rfl
  | string htype hraw hplain => exact stems_of_children_eq_nil rfl trivial rfl
  | number htype hraw hvalue => exact stems_of_children_eq_nil rfl trivial rfl
  | keyword htype => exact stems_of_children_eq_nil rfl trivial rfl
  | @template chunks expressions htype hparts =>
    have hsubstitutions : AreParts t (substitutionTrees t) :=
      .of_sublist ht.wellFormed List.filter_sublist
    have hexpressions := AreParts.expressions ht.wellFormed hsubstitutions
    obtain ⟨parts, bare, hperm, hbare, hstems⟩ :=
      stems_of_templateFrom hparts fun u hu => ht.of_mem (hexpressions.below u hu)
    -- the chunks are bare, and children are put in order of their beginnings
    refine .intro _ parts (chunks.map .chunk ++ bare) rfl trivial ?_ ?_ hexpressions hstems
    · refine (Node.inOrder_perm _).trans ((hperm.append_left _).trans ?_)
      rw [← List.append_assoc, ← List.append_assoc]
      exact List.perm_append_comm.append_right _
    · intro b hb
      rcases List.mem_append.1 hb with hb | hb
      · obtain ⟨c, -, rfl⟩ := List.mem_map.1 hb
        exact ⟨rfl, by simp [Node.kind]⟩
      · exact hbare b hb
  | arrow htype hparams hbody htypeParameters hreturnType =>
    have hparts := AreParts.arrow ht.wellFormed
    exact stems_of_forall₂ rfl trivial hparts (List.rel_append
      (forall₂_stems_parameters hparams fun u hu =>
        ht.of_mem (hparts.below u (List.mem_append_left _ hu)))
      (forall₂_stems_toList hbody fun u hu =>
        ht.of_mem (hparts.below u (List.mem_append_right _ (Option.mem_toList.2 hu)))))
  | block htype hbody => exact stems_of_forall₂_kids ht rfl trivial hbody
  | statement htype hexpression => exact stems_of_head?_kids ht rfl trivial rfl hexpression
  | declarator htype hname hbound hinit =>
    have hvalue : ∀ u ∈ t.field? "value", u ∈ t.subtrees := fun u hu =>
      Tree.mem_subtrees_of_mem_children (Tree.mem_children_of_field? hu)
    exact stems_of_forall₂ rfl trivial (.toList hvalue)
      (forall₂_stems_toList hinit fun u hu => ht.of_mem (hvalue u hu))
  | other htype hnodes => exact stems_of_forall₂_kids ht rfl trivial hnodes

theorem stemsIfReadable_of_buildWithin {depth : Nat} {t : Tree} {n : Node}
    (h : buildWithin d depth t = .ok n) : StemsIfReadable d text t n := by
  refine buildWithin_induction (fun t _ => ?_) (fun t n hassembled => ?_) h
  · exact stems_of_children_eq_nil rfl trivial rfl
  · exact stems_of_assembled hassembled

/-- Every node that is built stems from the tree it is built from. -/
theorem stems_of_build {t : Tree} {n : Node} (h : build d t = .ok n) (ht : Readable text t) :
    Stems d t n :=
  stemsIfReadable_of_buildWithin h ht

theorem assembled_of_build {t : Tree} {n : Node} (h : build d t = .ok n) :
    Assembled d (StemsIfReadable d text) t n := by
  cases t with
  | node type named field start stop children =>
    rw [build, Tree.height] at h
    exact assembled_of_assemble (fun _ _ => stemsIfReadable_of_buildWithin) h

end Parts

/-! ### Children in order -/

/-- The children of a node stem from parts of a tree that come one behind the other. -/
def ChildrenInOrder (d : Document) (t : Tree) (nodes : List Node) : Prop :=
  ∃ us : List Tree, us.Pairwise (fun a b => a.stop ≤ b.start) ∧ (∀ u ∈ us, u ∈ t.subtrees) ∧
    List.Forall₂ (Stems d) us nodes

/-- The types of trees whose nodes list children in another order than the tree does. -/
def reorderedTypes : List String := ["jsx_element", "arrow_function", "template_string"]

section Order

variable {d : Document} {text : String} {t : Tree} {n : Node}

theorem childrenInOrder_nil : ChildrenInOrder d t [] := ⟨[], .nil, by simp, .nil⟩

theorem childrenInOrder_kids (ht : Readable text t) {us : List Tree} (hus : us.Sublist t.kids)
    {nodes : List Node} (h : (∀ u ∈ us, Readable text u) → List.Forall₂ (Stems d) us nodes) :
    ChildrenInOrder d t nodes := by
  have hbelow : ∀ u ∈ us, u ∈ t.subtrees := fun u hu =>
    Tree.mem_subtrees_of_mem_children (Tree.mem_children_of_mem_kids (hus.subset hu))
  exact ⟨us, ht.wellFormed.ordered_kids.sublist hus, hbelow, h fun u hu => ht.of_mem (hbelow u hu)⟩

theorem childrenInOrder_toList {u : Option Tree} {nodes : List Node} (ht : Readable text t)
    (hu : ∀ v ∈ u, v ∈ t.subtrees)
    (h : (∀ v ∈ u, Readable text v) → List.Forall₂ (Stems d) u.toList nodes) :
    ChildrenInOrder d t nodes :=
  ⟨u.toList, by cases u <;> simp, fun v hv => hu v (Option.mem_toList.1 hv),
    h fun v hv => ht.of_mem (hu v hv)⟩

/-- Of most constructs the children come in the order of their trees; declarations have no
children that matter. -/
theorem childrenInOrder_of_assembled (h : Assembled d (StemsIfReadable d text) t n)
    (ht : Readable text t) (htype : t.type ∉ reorderedTypes) :
    n.kind ∈ [NodeKind.importDeclaration, .exportDeclaration] ∨ ChildrenInOrder d t n.children := by
  have hhead : ∀ u ∈ t.kids.head?, u ∈ t.subtrees := fun u hu =>
    Tree.mem_subtrees_of_mem_children (Tree.mem_children_of_mem_kids (List.mem_of_mem_head? hu))
  cases h with
  | importDeclaration => exact .inl (by simp [Node.kind])
  | exportDeclaration => exact .inl (by simp [Node.kind])
  | program _ hbody => exact .inr (childrenInOrder_kids ht (.refl _) (forall₂_stems hbody))
  | fragment _ hbody => exact .inr (childrenInOrder_kids ht (.refl _) (forall₂_stems hbody))
  | block _ hbody => exact .inr (childrenInOrder_kids ht (.refl _) (forall₂_stems hbody))
  | other _ hnodes => exact .inr (childrenInOrder_kids ht (.refl _) (forall₂_stems hnodes))
  | selfClosing _ _ hattributes =>
    refine .inr ?_
    simp only [Node.children, List.append_nil]
    exact childrenInOrder_kids ht List.filter_sublist (forall₂_stems_attributes hattributes)
  | container _ hexpression =>
    exact .inr (childrenInOrder_toList ht hhead (forall₂_stems_toList hexpression))
  | statement _ hexpression =>
    exact .inr (childrenInOrder_toList ht hhead (forall₂_stems_toList hexpression))
  | declarator _ _ _ hinit =>
    refine .inr (childrenInOrder_toList ht ?_ (forall₂_stems_toList hinit))
    exact fun u hu => Tree.mem_subtrees_of_mem_children (Tree.mem_children_of_field? hu)
  | text | string | number | keyword => exact .inr childrenInOrder_nil
  | element helement => exact absurd (by simp [reorderedTypes, helement]) htype
  | template htemplate => exact absurd (by simp [reorderedTypes, htemplate]) htype
  | arrow harrow => exact absurd (by simp [reorderedTypes, harrow]) htype

end Order

end TsxLint.Model
