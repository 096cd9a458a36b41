/-
Module: TsxLint.Proofs.Source.NestedSpans
Purpose: The spans of a model are nested, and the children of a node come one behind the other.
Main exports: Node.IsNested, Node.pairwise_preorder, Node.AreClear.inOrder,
  Model.FollowsGrammar, Model.Spans, Model.spans_of_build, SourceFile.exists_nested_ofTree
-/
import TsxLint.Proofs.Source.Bindings
import TsxLint.Proofs.Source.TemplateSplit

namespace TsxLint

/-!
Most nodes have the span of the tree they are built of, so that they are nested because the tree is.
The spans in a template string are made up instead: a chunk reaches from one substitution to the
next one or to a mark, and a substitution without an expression stands for what is between its
marks.  These are nested as long as the marks are there.  What is more, chunks and expressions are
put in order by their beginnings only, and an empty chunk may begin where an expression does; it was
in front before and stays there.
-/

namespace Node

variable {a b n x : Node} {first last : Int} {nodes : List Node}

/-! ### Nested nodes -/

/-- A node does not end before it begins, and its children lie inside it, one behind the other. -/
structure IsNested (n : Node) : Prop where
  extent : n.start ≤ n.stop
  inside : ∀ c ∈ n.children, n.start ≤ c.start ∧ c.stop ≤ n.stop
  ordered : n.children.Pairwise fun a b => a.stop ≤ b.start

/-- Where all nodes are nested, what is below a node lies inside it. -/
theorem inside_of_mem_preorder (h : n.Throughout IsNested) (hx : x ∈ n.preorder) :
    n.start ≤ x.start ∧ x.stop ≤ n.stop := by
  induction n using induction_on_children with
  | step n ih =>
    rcases mem_preorder_iff.1 hx with rfl | ⟨c, hc, hx⟩
    · exact ⟨Int.le_refl _, Int.le_refl _⟩
    · have hinside := (h n n.self_mem_preorder).inside c hc
      have hbelow := ih c hc (h.of_mem_children hc) hx
      omega

/-- In preorder, nested nodes begin one behind the other. -/
theorem pairwise_preorder (h : n.Throughout IsNested) :
    n.preorder.Pairwise fun x y => x.start ≤ y.start := by
  induction n using induction_on_children with
  | step n ih =>
    have hn := h n n.self_mem_preorder
    rw [preorder_eq, List.pairwise_cons, List.pairwise_flatMap]
    refine ⟨fun x hx => ?_, fun c hc => ih c hc (h.of_mem_children hc), ?_⟩
    · obtain ⟨c, hc, hx⟩ := List.mem_flatMap.1 hx
      exact (inside_of_mem_preorder h (mem_preorder_iff.2 (.inr ⟨c, hc, hx⟩))).1
    · refine hn.ordered.imp_of_mem fun {a b} ha hb hab x hx y hy => ?_
      have hxinside := inside_of_mem_preorder (h.of_mem_children ha) hx
      have hyinside := inside_of_mem_preorder (h.of_mem_children hb) hy
      have hextent := (h x (mem_preorder_iff.2 (.inr ⟨a, ha, hx⟩))).extent
      omega

/-- Nested nodes between two places, one behind the other. -/
structure AreNested (first last : Int) (nodes : List Node) : Prop where
  inside : ∀ n ∈ nodes, first ≤ n.start ∧ n.stop ≤ last
  ordered : nodes.Pairwise fun a b => a.stop ≤ b.start
  throughout : ∀ n ∈ nodes, n.Throughout IsNested

theorem AreNested.throughout_of_children (h : AreNested n.start n.stop n.children)
    (hextent : n.start ≤ n.stop) : n.Throughout IsNested :=
  Node.throughout_of_children ⟨hextent, h.inside, h.ordered⟩ h.throughout

theorem throughout_isNested_of_leaf (hleaf : n.children = []) (hextent : n.start ≤ n.stop) :
    n.Throughout IsNested := by
  refine AreNested.throughout_of_children ?_ hextent
  rw [hleaf]
  exact ⟨by simp, .nil, by simp⟩

/-! ### Nodes that clear each other -/

/-- Of two nodes the one that begins first ends before the other one begins.  If they begin
together, the one that is named first counts as the one that begins first. -/
def Clears (a b : Node) : Prop :=
  (a.start ≤ b.start → a.stop ≤ b.start) ∧ (b.start < a.start → b.stop ≤ a.start)

theorem Clears.swap (h : a.Clears b) (hlt : b.start < a.start) : b.Clears a :=
  ⟨fun _ => h.2 hlt, fun hgt => by omega⟩

theorem clears_of_stop_le (hextent : a.start ≤ a.stop) (h : a.stop ≤ b.start) : a.Clears b :=
  ⟨fun _ => h, fun hlt => by omega⟩

/-- Nested nodes between two places that clear each other. -/
structure AreClear (first last : Int) (nodes : List Node) : Prop where
  inside : ∀ n ∈ nodes, first ≤ n.start ∧ n.stop ≤ last
  clears : nodes.Pairwise Clears
  throughout : ∀ n ∈ nodes, n.Throughout IsNested

namespace AreClear

variable {middle : Int} {xs ys : List Node}

theorem singleton (hfirst : first ≤ n.start) (hlast : n.stop ≤ last)
    (hn : n.Throughout IsNested) : AreClear first last [n] := by
  refine ⟨?_, List.pairwise_singleton _ n, ?_⟩
  · simp [hfirst, hlast]
  · simpa using hn

/-- A node in front of others. -/
theorem cons (h : AreClear middle last nodes) (hfirst : first ≤ n.start) (hmiddle : n.stop ≤ middle)
    (hle : middle ≤ last) (hn : n.Throughout IsNested) : AreClear first last (n :: nodes) := by
  have hextent := (hn n n.self_mem_preorder).extent
  refine ⟨?_, List.pairwise_cons.2 ⟨fun m hm => ?_, h.clears⟩, ?_⟩
  · refine List.forall_mem_cons.2 ⟨by omega, fun m hm => ?_⟩
    have := h.inside m hm
    omega
  · have := h.inside m hm
    exact clears_of_stop_le hextent (by omega)
  · exact List.forall_mem_cons.2 ⟨hn, h.throughout⟩

/-- A node in front of others that is listed in the midst of them. -/
theorem insert (h : AreClear middle last (xs ++ ys)) (hfirst : first ≤ n.start)
    (hlt : n.start < middle) (hmiddle : n.stop ≤ middle) (hle : middle ≤ last)
    (hn : n.Throughout IsNested) : AreClear first last (xs ++ n :: ys) := by
  have hperm : (xs ++ n :: ys).Perm (n :: (xs ++ ys)) := List.perm_middle
  have hcons := h.cons hfirst hmiddle hle hn
  refine ⟨fun m hm => hcons.inside m (hperm.mem_iff.1 hm), ?_,
    fun m hm => hcons.throughout m (hperm.mem_iff.1 hm)⟩
  obtain ⟨hxs, hys, hacross⟩ := List.pairwise_append.1 h.clears
  refine List.pairwise_append.2 ⟨hxs, List.pairwise_cons.2 ⟨fun y hy => ?_, hys⟩,
    fun x hx => List.forall_mem_cons.2 ⟨?_, hacross x hx⟩⟩
  · exact List.rel_of_pairwise_cons hcons.clears (List.mem_append_right _ hy)
  · have := h.inside x (List.mem_append_left _ hx)
    exact ⟨fun hge => by omega, fun _ => by omega⟩

/-- Nodes that clear each other come one behind the other once they are put in order. -/
theorem inOrder (h : AreClear first last nodes) : AreNested first last (Node.inOrder nodes) where
  inside n hn := h.inside n ((inOrder_perm nodes).mem_iff.1 hn)
  ordered := by
    have hclears := pairwise_inOrder (fun _ _ => Clears.swap) h.clears
    exact hclears.imp₂ (fun a b hab hle => hab.1 hle) (pairwise_start_inOrder nodes)
  throughout n hn := h.throughout n ((inOrder_perm nodes).mem_iff.1 hn)

end AreClear

end Node

namespace Model

variable {d : Document} {text : String} {root t c : Tree} {n : Node}

/-! ### Trees that follow the grammar -/

/-- What is imported or exported stands in front of the module it comes from, tags and parameters in
front of contents and bodies, and template strings and substitutions have their marks. -/
structure FollowsGrammar (text : String) (t : Tree) : Prop where
  source : ∀ v ∈ specifierTrees t, ∀ s ∈ t.field? "source", v.stop ≤ s.start
  opens : OpensInFront t
  quoted : t.type = "template_string" →
    ∃ inner, textOf (.ofText text) t = .ok ("\x60" ++ inner ++ "\x60")
  braced : t.type = "template_substitution" → IsBraced (.ofText text) t

/-! ### Spans that are taken from trees -/

/-- A node has the span of a tree and is nested with all below it. -/
structure Spans (d : Document) (t : Tree) (n : Node) : Prop where
  hasSpan : HasSpan d t n
  throughout : n.Throughout Node.IsNested

theorem spans_of_areNested (ht : t.WellFormed text) (hspan : n.span = spanOf d t)
    (h : Node.AreNested t.start t.stop n.children) : Spans d t n := by
  refine ⟨hspan, Node.AreNested.throughout_of_children ?_ ?_⟩
  · rw [HasSpan.start_eq hspan, HasSpan.stop_eq hspan]
    exact h
  · rw [HasSpan.start_eq hspan, HasSpan.stop_eq hspan]
    exact Int.ofNat_le.2 ht.isLaidOut.start_le_stop

/-- Nodes with the spans of trees in a row are nested in the tree above these. -/
theorem areNested_of_forall₂ {us : List Tree} {nodes : List Node} (ht : t.WellFormed text)
    (hrow : InRow t us) (h : List.Forall₂ (Spans d) us nodes) :
    Node.AreNested t.start t.stop nodes where
  inside n hn := by
    obtain ⟨u, hu, hspans⟩ := Outcome.exists_left_of_mem h hn
    have hinside := ht.inside (hrow.below u hu)
    rw [hspans.hasSpan.start_eq, hspans.hasSpan.stop_eq]
    exact ⟨Int.ofNat_le.2 hinside.1, Int.ofNat_le.2 hinside.2⟩
  ordered := ordered_of_forall₂ (h.imp fun _ _ => Spans.hasSpan) hrow.ordered
  throughout n hn := by
    obtain ⟨u, -, hspans⟩ := Outcome.exists_left_of_mem h hn
    exact hspans.throughout

theorem passesUp_spans : PassesUp d text (Spans d) := fun _ _ _ ht hspan hrow hchildren =>
  spans_of_areNested ht hspan (areNested_of_forall₂ ht hrow hchildren)

/-! ### Declarations -/

/-- A declaration with bindings and a module behind them. -/
theorem spans_of_declaration {specifiers : List Specifier} {source : Option Literal}
    (ht : t.WellFormed text)
    (horder : ∀ v ∈ specifierTrees t, ∀ s ∈ t.field? "source", v.stop ≤ s.start)
    (hspan : n.span = spanOf d t)
    (hchildren : n.children = specifiers.map .specifier ++ (source.map .literal).toList)
    (hspecifiers : List.Forall₂ (fun c s => s.span = spanOf d c) (specifierTrees t) specifiers)
    (hsource : moduleLiteral d (t.field? "source") = .ok source) : Spans d t n := by
  have hfield {s : Tree} (hs : s ∈ moduleTree? t) : s ∈ t.field? "source" :=
    (Option.filter_eq_some_iff.1 hs).1
  have hspecifierRow := inRow_specifierTrees ht
  have hmoduleRow : InRow t (moduleTree? t).toList := .toList fun s hs =>
    Tree.mem_subtrees_of_mem_children (Tree.mem_children_of_field? (hfield hs))
  have hrow := hspecifierRow.append hmoduleRow fun v hv s hs =>
    horder v hv s (hfield (Option.mem_toList.1 hs))
  refine passesUp_spans t n _ ht hspan hrow ?_
  rw [hchildren, Option.toList_map]
  refine List.rel_append (List.forall₂_map_right_iff.2 (forall₂_imp_of_mem hspecifiers ?_))
    (List.forall₂_map_right_iff.2
      (forall₂_imp_of_mem (forall₂_toList (rel_of_moduleLiteral hsource)) ?_))
  · intro u hu specifier hs
    exact passesUp_spans.of_leaf (ht.of_mem (hspecifierRow.below u hu)) hs rfl
  · intro s hs literal hl
    exact passesUp_spans.of_leaf (ht.of_mem (hmoduleRow.below s hs)) hl rfl

theorem Assembled.spans_of_declaration (h : Assembled d (Spans d) t n) (ht : t.WellFormed text)
    (horder : ∀ v ∈ specifierTrees t, ∀ s ∈ t.field? "source", v.stop ≤ s.start)
    (hkind : n.kind ∈ [NodeKind.importDeclaration, .exportDeclaration]) : Spans d t n := by
  cases h with
  | importDeclaration type hsource hspecifiers =>
    refine Model.spans_of_declaration ht horder rfl rfl ?_ hsource
    rw [specifierTrees, if_pos type]
    exact forall₂_of_clauseParts hspecifiers
  | exportDeclaration type hclause hspecifiers hsource =>
    refine Model.spans_of_declaration ht horder rfl rfl ?_ hsource
    rw [specifierTrees, type, if_neg (by decide), if_pos rfl, hclause]
    exact forall₂_of_namedSpecifiers hspecifiers
  | _ => simp [Node.kind] at hkind

/-! ### Template strings -/

/-- The expression of a substitution lies inside it and does not begin at its end. -/
structure IsWithin (c : Tree) (e : Node) : Prop where
  start_le : (c.start : Int) ≤ e.start
  start_lt : e.start < c.stop
  stop_le : e.stop ≤ c.stop
  throughout : e.Throughout Node.IsNested

theorem isWithin_of_substitutionFrom {e : Node} (hc : c.WellFormed text)
    (hbraced : IsBraced (.ofText text) c) (hextent : ∀ k ∈ c.kids, k.start < k.stop)
    (h : SubstitutionFrom d (Spans d) c e) : IsWithin c e := by
  have hlength := hbraced.length_le hc.isLaidOut
  cases h with
  | empty hkids =>
    have hstart : (Node.other ⟨d.span (c.start + 2) ((c.stop : Int) - 1), "empty", []⟩).start =
        c.start + 2 := rfl
    have hstop : (Node.other ⟨d.span (c.start + 2) ((c.stop : Int) - 1), "empty", []⟩).stop =
        (c.stop : Int) - 1 := rfl
    exact ⟨by omega, by omega, by omega, Node.throughout_isNested_of_leaf rfl (by omega)⟩
  | part hkids built =>
    have hk := List.mem_of_mem_head? hkids
    have hinside := hc.inside (mem_subtrees_of_mem_kids hk)
    have hkid := hextent _ hk
    have hstart := built.hasSpan.start_eq
    have hstop := built.hasSpan.stop_eq
    exact ⟨by omega, by omega, by omega, built.throughout⟩

/-- Chunks and expressions clear each other, though they are not listed in turn. -/
theorem areClear_of_templateFrom {cursor stop : Nat} {ts : List Tree} {chunks : List Chunk}
    {nodes : List Node} (h : TemplateFrom d (Spans d) stop cursor ts chunks nodes)
    (hturn : InTurn cursor stop ts)
    (hwithin : ∀ c ∈ ts, ∀ e, SubstitutionFrom d (Spans d) c e → IsWithin c e) :
    Node.AreClear cursor stop (chunks.map Node.chunk ++ nodes) := by
  -- On the substitutions: whatever is still to come lies between the cursor and the stop.
  induction ts generalizing cursor chunks nodes with
  | nil =>
    cases h with
    | last hchunk =>
      obtain ⟨hstart, hstop⟩ := ends_of_chunk hchunk
      have hle := Int.ofNat_le.2 hturn.le
      exact .singleton (by omega) (by omega) (Node.throughout_isNested_of_leaf rfl (by omega))
  | cons c rest ih =>
    cases h with
    | next hchunk hexpression hrest =>
      obtain ⟨hc, hwithin⟩ := List.forall_mem_cons.1 hwithin
      obtain ⟨hcursor, hextent, hturn⟩ := hturn
      obtain ⟨hfirst, hbegins, hends, hthroughout⟩ := hc _ hexpression
      obtain ⟨hstart, hstop⟩ := ends_of_chunk hchunk
      have hle := Int.ofNat_le.2 hturn.le
      -- the expression is listed behind all later chunks, the chunk in front of it first of all
      have hexpressions := (ih hrest hturn hwithin).insert hfirst hbegins hends hle hthroughout
      exact hexpressions.cons (by omega) (by omega) (by omega)
        (Node.throughout_isNested_of_leaf rfl (by omega))

/-- A template string between its marks, with substitutions between theirs. -/
theorem Assembled.spans_of_template (h : Assembled (.ofText text) (Spans (.ofText text)) t n)
    (ht : t.WellFormed text) (hextent : t.Everywhere fun u => u.start < u.stop)
    (hquoted : ∃ inner, textOf (.ofText text) t = .ok ("\x60" ++ inner ++ "\x60"))
    (hbraced : ∀ c ∈ substitutionTrees t, IsBraced (.ofText text) c)
    (hkind : n.kind = .template) : Spans (.ofText text) t n := by
  cases h with
  | @template chunks expressions type hparts =>
    obtain ⟨inner, hquoted⟩ := hquoted
    have hturn := inTurn_of_isBraced ht hquoted hbraced
    have hstop : (t.stop : Int) - 1 = (t.stop - 1 : Nat) := by
      have := hturn.le
      omega
    have hcursor : (t.start : Int) + 1 = (t.start + 1 : Nat) := rfl
    rw [hstop, hcursor] at hparts
    have hclear := areClear_of_templateFrom hparts hturn fun c hc e he => by
      have hbelow := Tree.mem_subtrees_of_mem_children (List.mem_of_mem_filter hc)
      refine isWithin_of_substitutionFrom (ht.of_mem hbelow) (hbraced c hc) (fun k hk => ?_) he
      exact hextent k (Tree.mem_subtrees_trans (mem_subtrees_of_mem_kids hk) hbelow)
    have hnested := hclear.inOrder
    refine spans_of_areNested ht rfl ⟨fun m hm => ?_, hnested.ordered, hnested.throughout⟩
    have hinside := hnested.inside m hm
    omega
  | _ => simp [Node.kind] at hkind

/-! ### Every node -/

/-- What is built of a tree that follows the grammar has its span and is nested. -/
theorem spans_of_build (hroot : root.WellFormed text)
    (hextent : root.Everywhere fun t => t.start < t.stop)
    (hgrammar : root.Everywhere (FollowsGrammar text)) (h : build (.ofText text) root = .ok n) :
    Spans (.ofText text) root n := by
  refine passesUp_spans.of_build hroot (fun t ht => (hgrammar t ht).opens)
    (fun t ht n hassembled hkind => ?_) h
  have hwell := hroot.of_mem ht
  by_cases htemplate : n.kind = .template
  · have type : t.type = "template_string" := by
      cases hassembled with
      | template type => exact type
      | _ => simp [Node.kind] at htemplate
    refine hassembled.spans_of_template hwell (hextent.of_mem ht) ((hgrammar t ht).quoted type)
      (fun c hc => ?_) htemplate
    obtain ⟨hchild, hc⟩ := List.mem_filter.1 hc
    have hbelow := Tree.mem_subtrees_trans (Tree.mem_subtrees_of_mem_children hchild) ht
    exact (hgrammar c hbelow).braced (beq_iff_eq.1 (Bool.and_eq_true_iff.1 hc).2)
  · refine hassembled.spans_of_declaration hwell (hgrammar t ht).source ?_
    simpa [htemplate] using hkind

end Model

namespace SourceFile

variable {text : String} {root : Tree} {source : SourceFile}

/-- The nodes of a file are nested. -/
theorem Parsed.throughout_isNested (hs : source.Parsed text root) (hroot : root.WellFormed text)
    (hextent : root.Everywhere fun t => t.start < t.stop)
    (hgrammar : root.Everywhere (Model.FollowsGrammar text)) :
    source.root.Throughout Node.IsNested := by
  obtain ⟨n, hbuild, hstart, hstop, hchildren⟩ := hs.exists_build_ends
  have hthroughout := (Model.spans_of_build hroot hextent hgrammar hbuild).throughout
  have hn := hthroughout n n.self_mem_preorder
  refine Node.AreNested.throughout_of_children ?_ ?_
  · rw [hstart, hstop, hchildren]
    exact ⟨hn.inside, hn.ordered, fun c hc => hthroughout.of_mem_children hc⟩
  · rw [hstart, hstop]
    exact hn.extent

/-- If the tree of a text is well-formed, has no empty nodes, and follows the grammar in what stands
in front of what and in the marks of template strings, a file is made of it.  No node of its program
ends before it begins; the children of each node lie inside it, one behind the other; and so the
nodes begin one behind the other in preorder. -/
theorem exists_nested_ofTree (path : FilePath) (language : Language) (text : String)
    (tree : ParseTree) (wellFormed : tree.root.WellFormed text)
    (extent : tree.root.Everywhere fun t => t.start < t.stop)
    (grammar : tree.root.Everywhere (Model.FollowsGrammar text)) :
    ∃ source, ofTree path language text tree = .ok source ∧
      source.root.Throughout Node.IsNested ∧
      source.nodes.Pairwise fun a b => a.start ≤ b.start := by
  have hmarks : tree.root.Everywhere (Tree.HasMarks text) := fun t ht htype => by
    obtain ⟨inner, hquoted⟩ := (grammar t ht).quoted htype
    exact Model.hasMarks_of_quoted (wellFormed t ht) hquoted htype
  have hread := Model.readsWithoutFault wellFormed hmarks
  obtain ⟨source, hsource⟩ :=
    (failsOnly_ofTree_of_readsWith path language text tree hread).exists_ok
  have hnested := (parsed_of_ofTree hsource).throughout_isNested wellFormed extent grammar
  exact ⟨source, hsource, hnested, Node.pairwise_preorder hnested⟩

/-- An import and an arrow function that answers a template string, with an empty substitution
behind a letter of two bytes and another one right behind it. -/
def importAndArrow : String := "import a from\"m\";x=>\x60é$\x7b\x7d$\x7by\x7d\x60"

/-- The tree of the import and the arrow function. -/
def importAndArrowTree : ParseTree :=
  ⟨.node "program" true "" 0 31
    [.node "import_statement" true "" 0 17
      [.node "import" false "" 0 6 [],
        .node "import_clause" true "" 7 8 [.node "identifier" true "" 7 8 []],
        .node "from" false "" 9 13 [], .node "string" true "source" 13 16 [],
        .node ";" false "" 16 17 []],
      .node "expression_statement" true "" 17 31
        [.node "arrow_function" true "" 17 31
          [.node "identifier" true "parameter" 17 18 [], .node "=>" false "" 18 20 [],
            .node "template_string" true "body" 20 31
              [.node "\x60" false "" 20 21 [], .node "string_fragment" true "" 21 23 [],
                .node "template_substitution" true "" 23 26
                  [.node "$\x7b" false "" 23 25 [], .node "\x7d" false "" 25 26 []],
                .node "template_substitution" true "" 26 30
                  [.node "$\x7b" false "" 26 28 [], .node "identifier" true "" 28 29 [],
                    .node "\x7d" false "" 29 30 []],
                .node "\x60" false "" 30 31 []]]]], false⟩

theorem exists_nested_ofTree_importAndArrow :
    ∃ source, ofTree default .tsx importAndArrow importAndArrowTree = .ok source ∧
      source.root.Throughout Node.IsNested ∧
      source.nodes.Pairwise fun a b => a.start ≤ b.start := by
  have htemplate : ∀ t ∈ importAndArrowTree.root.subtrees, t.type = "template_string" →
      t.start = 20 ∧ t.stop = 31 := by decide
  have hsubstitution : ∀ t ∈ importAndArrowTree.root.subtrees, t.type = "template_substitution" →
      (t.start = 23 ∧ t.stop = 26) ∨ (t.start = 26 ∧ t.stop = 30) := by decide
  have hsource : ∀ t ∈ importAndArrowTree.root.subtrees, ∀ v ∈ Model.specifierTrees t,
      ∀ s ∈ t.field? "source", v.stop ≤ s.start := by decide
  have hopens : importAndArrowTree.root.Everywhere Model.OpensInFront := by decide
  refine exists_nested_ofTree default .tsx importAndArrow importAndArrowTree (by decide) (by decide)
    fun t ht => ⟨hsource t ht, hopens t ht, fun type => ?_, fun type => ?_⟩
  · obtain ⟨hstart, hstop⟩ := htemplate t ht type
    refine ⟨"é$\x7b\x7d$\x7by\x7d", Document.slice_eq_ok_iff.2 ?_⟩
    rw [hstart, hstop]
    decide
  · rcases hsubstitution t ht type with ⟨hstart, hstop⟩ | ⟨hstart, hstop⟩
    · refine ⟨"", Document.slice_eq_ok_iff.2 ?_⟩
      rw [hstart, hstop]
      decide
    · refine ⟨"y", Document.slice_eq_ok_iff.2 ?_⟩
      rw [hstart, hstop]
      decide

end SourceFile

end TsxLint
