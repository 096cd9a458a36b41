/-
Module: TsxLint.Proofs.Source.ReadingOrder
Purpose: The nodes of a model come in the order in which the text has them.
Main exports: Node.placed, Node.InReadingOrder, Node.pairwise_placed,
  SourceFile.Parsed.inReadingOrder
-/
import TsxLint.Proofs.Source.NodeOrder
import TsxLint.Proofs.Source.Rows

namespace TsxLint

/-!
The children of a node lie inside it, and what belongs to one of them ends before anything of the
next one begins.  So the nodes of a file, taken in preorder, begin one behind the other.

Not all nodes take part in this.  Chunks, bindings, literals and constructs that are not inspected
need not have the place of a node of the tree; rules report none of them.
-/

namespace Node

variable {a b n x : Node} {first last : Int}

/-! ### Nodes with places -/

/-- A node is of a kind that has the place of a node of the tree. -/
def IsPlaced (n : Node) : Prop := n.kind ∉ [NodeKind.chunk, .specifier, .literal, .other]

instance : DecidablePred IsPlaced := fun n =>
  inferInstanceAs (Decidable (n.kind ∉ [NodeKind.chunk, .specifier, .literal, .other]))

/-- What has a place in a node, the node itself and all below it, in preorder. -/
def placed (n : Node) : List Node := n.preorder.filter fun m => m.IsPlaced

theorem mem_placed_iff : x ∈ n.placed ↔ x ∈ n.preorder ∧ x.IsPlaced := by
  rw [placed, List.mem_filter, decide_eq_true_iff]

theorem placed_eq (n : Node) :
    n.placed = (if n.IsPlaced then [n] else []) ++ n.children.flatMap placed := by
  have hbelow : (n.children.flatMap preorder).filter (fun m => m.IsPlaced) =
      n.children.flatMap placed := List.filter_flatMap
  rw [placed, preorder_eq, List.filter_cons, hbelow]
  by_cases h : n.IsPlaced
  · rw [if_pos (decide_eq_true h), if_pos h, List.singleton_append]
  · rw [if_neg (by simpa using h), if_neg h, List.nil_append]

theorem eq_or_exists_of_mem_placed (h : x ∈ n.placed) : x = n ∨ ∃ c ∈ n.children, x ∈ c.placed := by
  rw [placed_eq, List.mem_append, List.mem_flatMap] at h
  rcases h with h | h
  · split at h
    · exact .inl (List.mem_singleton.1 h)
    · cases h
  · exact .inr h

theorem placed_eq_nil_of_isBare (h : Model.IsBare n) : n.placed = [] := by
  have hnot : ¬ n.IsPlaced := not_not_intro h.2
  rw [placed_eq, h.1, if_neg hnot]
  rfl

/-! ### Order -/

/-- A node lies between two places: it begins there, and what has a place in it is there.  This says
nothing of a node in which nothing has a place. -/
def LiesIn (first last : Int) (n : Node) : Prop :=
  ∀ x ∈ n.placed, (first ≤ n.start ∧ n.start ≤ last) ∧
    first ≤ x.start ∧ x.start ≤ x.stop ∧ x.stop ≤ last

theorem LiesIn.widen (h : n.LiesIn first last) {first' last' : Int} (hfirst : first' ≤ first)
    (hlast : last ≤ last') : n.LiesIn first' last' := by
  intro x hx
  have := h x hx
  omega

/-- A node comes before another: it begins first, and what has a place in it ends before anything in
the other one begins. -/
def Before (a b : Node) : Prop :=
  ∀ x ∈ a.placed, ∀ y ∈ b.placed, a.start ≤ b.start ∧ x.stop ≤ y.start

/-- If a node that comes before another begins behind it, nothing has a place in one of them. -/
theorem Before.swap (h : a.Before b) (hlt : b.start < a.start) : b.Before a := by
  intro y hy x hx
  have := (h x hx y hy).1
  omega

/-- The children of a node lie inside it, one behind the other. -/
structure InReadingOrder (n : Node) : Prop where
  inside : ∀ c ∈ n.children, c.LiesIn n.start n.stop
  ordered : n.children.Pairwise Before

/-- What is below a node does not begin before it. -/
theorem InReadingOrder.start_le (h : n.InReadingOrder) {c : Node} (hc : c ∈ n.children)
    (hx : x ∈ c.placed) : n.start ≤ x.start :=
  (h.inside c hc x hx).2.1

/-- What has a place in a node does not begin before it. -/
theorem start_le_of_mem_placed (h : n.Throughout InReadingOrder) (hx : x ∈ n.placed) :
    n.start ≤ x.start := by
  rcases eq_or_exists_of_mem_placed hx with rfl | ⟨c, hc, hx⟩
  · exact Int.le_refl _
  · exact (h n n.self_mem_preorder).start_le hc hx

/-- What is below an earlier child of a node ends before anything below a later one begins. -/
theorem InReadingOrder.stop_le_start (h : n.InReadingOrder) {before behind : List Node}
    (hchildren : n.children = before ++ a :: behind) {c y : Node} (hc : c ∈ before)
    (hx : x ∈ c.placed) (hy : y ∈ a.placed) : x.stop ≤ y.start := by
  have hordered := h.ordered
  rw [hchildren, List.pairwise_append] at hordered
  exact (hordered.2.2 c hc a List.mem_cons_self x hx y hy).2

/-- In preorder, the nodes with places begin one behind the other. -/
theorem pairwise_placed (h : n.Throughout InReadingOrder) :
    n.placed.Pairwise fun x y => x.start ≤ y.start := by
  induction n using induction_on_children with
  | step n ih =>
    have hn := h n n.self_mem_preorder
    rw [placed_eq]
    -- Two nodes are both below one child or below two of them, or the first is `n` itself.
    refine List.pairwise_append.2 ⟨?_, List.pairwise_flatMap.2 ⟨fun c hc => ?_, ?_⟩, ?_⟩
    · split
      · exact List.pairwise_singleton _ _
      · exact .nil
    · exact ih c hc (h.of_mem_children hc)
    · refine hn.ordered.imp_of_mem fun {a b} ha _ hab x hx y hy => ?_
      have hextent := (hn.inside a ha x hx).2.2.1
      have hbehind := (hab x hx y hy).2
      omega
    · intro x hx y hy
      obtain ⟨c, hc, hy⟩ := List.mem_flatMap.1 hy
      split at hx
      · rw [List.mem_singleton.1 hx]
        exact hn.start_le hc hy
      · cases hx

end Node

namespace Model

variable {d : Document} {text : String} {root t u : Tree} {n : Node} {nodes : List Node}

/-! ### Nodes that are read from a tree -/

/-- What is read from a tree lies inside it, in reading order. -/
structure Reads (t : Tree) (n : Node) : Prop where
  inside : n.LiesIn t.start t.stop
  throughout : n.Throughout Node.InReadingOrder

/-- Nodes inside a tree, one behind the other, each in reading order. -/
structure AreListed (t : Tree) (nodes : List Node) : Prop where
  inside : ∀ n ∈ nodes, n.LiesIn t.start t.stop
  ordered : nodes.Pairwise Node.Before
  throughout : ∀ n ∈ nodes, n.Throughout Node.InReadingOrder

theorem Reads.widen (h : Reads u n) (ht : t.WellFormed text) (hu : u ∈ t.subtrees) :
    Reads t n where
  inside := by
    have hinside := ht.inside hu
    exact h.inside.widen (Int.ofNat_le.2 hinside.1) (Int.ofNat_le.2 hinside.2)
  throughout := h.throughout

theorem reads_of_isBare (h : IsBare n) : Reads t n where
  inside x hx := by
    rw [Node.placed_eq_nil_of_isBare h] at hx
    cases hx
  throughout := by
    have hchildren : ∀ c ∈ n.children, False := by
      rw [h.1]
      intro c hc
      cases hc
    refine Node.throughout_of_children ⟨fun c hc => (hchildren c hc).elim, ?_⟩ fun c hc =>
      (hchildren c hc).elim
    rw [h.1]
    exact .nil

/-- A node that has the span of a tree is read from it if its children are listed in it. -/
theorem reads_of_areListed (hspan : n.span = spanOf d t) (ht : t.WellFormed text)
    (h : AreListed t n.children) : Reads t n := by
  have hstart : n.start = t.start := congrArg Span.start hspan
  have hstop : n.stop = t.stop := congrArg Span.stop hspan
  have hextent := Int.ofNat_le.2 ht.isLaidOut.start_le_stop
  constructor
  · intro x hx
    rw [hstart]
    refine ⟨⟨Int.le_refl _, hextent⟩, ?_⟩
    rcases Node.eq_or_exists_of_mem_placed hx with rfl | ⟨c, hc, hx⟩
    · rw [hstart, hstop]
      exact ⟨Int.le_refl _, hextent, Int.le_refl _⟩
    · exact (h.inside c hc x hx).2
  · refine Node.throughout_of_children ⟨?_, h.ordered⟩ h.throughout
    rw [hstart, hstop]
    exact h.inside

/-! ### Lists of nodes -/

namespace AreListed

theorem nil : AreListed t [] := ⟨by simp, .nil, by simp⟩

/-- Nodes that are read from trees in a row below a tree are listed in it. -/
theorem of_forall₂ {us : List Tree} (ht : t.WellFormed text) (hrow : InRow t us)
    (h : List.Forall₂ Reads us nodes) : AreListed t nodes where
  inside n hn := by
    obtain ⟨u, hu, hreads⟩ := Outcome.exists_left_of_mem h hn
    exact (hreads.widen ht (hrow.below u hu)).inside
  ordered := by
    refine pairwise_of_forall₂ h hrow.ordered fun u _ v _ a b huv ha hb x hx y hy => ?_
    have hx := ha.inside x hx
    have hy := hb.inside y hy
    omega
  throughout n hn := by
    obtain ⟨u, -, hreads⟩ := Outcome.exists_left_of_mem h hn
    exact hreads.throughout

/-- Bare nodes may stand anywhere. -/
theorem of_isBare_append {bare : List Node} (hbare : ∀ b ∈ bare, IsBare b)
    (h : AreListed t nodes) : AreListed t (bare ++ nodes) where
  inside n hn := by
    rcases List.mem_append.1 hn with hn | hn
    · exact (reads_of_isBare (hbare n hn)).inside
    · exact h.inside n hn
  ordered := by
    have hbefore : ∀ a ∈ bare, ∀ b, a.Before b := by
      intro a ha b x hx
      rw [Node.placed_eq_nil_of_isBare (hbare a ha)] at hx
      cases hx
    refine List.pairwise_append.2 ⟨?_, h.ordered, fun a ha b _ => hbefore a ha b⟩
    exact List.pairwise_of_forall_mem_list fun a ha b _ => hbefore a ha b
  throughout n hn := by
    rcases List.mem_append.1 hn with hn | hn
    · exact (reads_of_isBare (t := t) (hbare n hn)).throughout
    · exact h.throughout n hn

theorem of_isBare (h : ∀ b ∈ nodes, IsBare b) : AreListed t nodes := by
  have hlisted := of_isBare_append (t := t) h nil
  rw [List.append_nil] at hlisted
  exact hlisted

theorem inOrder (h : AreListed t nodes) : AreListed t (Node.inOrder nodes) where
  inside n hn := h.inside n ((Node.inOrder_perm nodes).mem_iff.1 hn)
  ordered := Node.pairwise_inOrder (fun _ _ => Node.Before.swap) h.ordered
  throughout n hn := h.throughout n ((Node.inOrder_perm nodes).mem_iff.1 hn)

end AreListed

/-! ### Every node is read from its tree -/

theorem passesUp_reads : PassesUp d text Reads := fun _ _ _ ht hspan hrow hchildren =>
  reads_of_areListed hspan ht (.of_forall₂ ht hrow hchildren)

/-- A substitution is read from its tree: it lies in there, or it is empty. -/
theorem reads_of_substitutionFrom (hu : u.WellFormed text) (h : SubstitutionFrom d Reads u n) :
    Reads u n := by
  cases h with
  | empty kids => exact reads_of_isBare ⟨rfl, by simp [Node.kind]⟩
  | part kids built => exact built.widen hu (mem_subtrees_of_mem_kids (List.mem_of_mem_head? kids))

theorem forall₂_reads_of_templateFrom {stop cursor : Int} {us : List Tree} {chunks : List Chunk}
    (hus : ∀ u ∈ us, u.WellFormed text) (h : TemplateFrom d Reads stop cursor us chunks nodes) :
    List.Forall₂ Reads us nodes := by
  induction h with
  | last hchunk => exact .nil
  | next hchunk hexpression _ ih =>
    exact .cons (reads_of_substitutionFrom (hus _ List.mem_cons_self) hexpression)
      (ih fun u hu => hus u (List.mem_cons_of_mem _ hu))

/-- The children of declarations are bare, and so are the chunks of template strings. -/
theorem Assembled.areListed (h : Assembled d Reads t n) (ht : t.WellFormed text)
    (hkind : n.kind ∈ [NodeKind.importDeclaration, .exportDeclaration, .template]) :
    AreListed t n.children := by
  cases h with
  | importDeclaration type hsource hspecifiers => exact .of_isBare fun b => isBare_of_mem_children
  | exportDeclaration type hclause hspecifiers hsource =>
    exact .of_isBare fun b => isBare_of_mem_children
  | template type hparts =>
    have hsubstitutions : InRow t (substitutionTrees t) :=
      ⟨fun u hu => Tree.mem_subtrees_of_mem_children (List.mem_of_mem_filter hu),
        ht.isLaidOut.ordered.sublist List.filter_sublist⟩
    have hreads := forall₂_reads_of_templateFrom
      (fun u hu => ht.of_mem (hsubstitutions.below u hu)) hparts
    have hexpressions := AreListed.of_forall₂ ht hsubstitutions hreads
    refine AreListed.inOrder (.of_isBare_append (fun b hb => ?_) hexpressions)
    obtain ⟨c, -, rfl⟩ := List.mem_map.1 hb
    exact ⟨rfl, by simp [Node.kind]⟩
  | _ => simp [Node.kind] at hkind

/-- What is built of a tree is read from it. -/
theorem reads_of_build (hroot : root.WellFormed text) (hopens : root.Everywhere OpensInFront)
    (h : build d root = .ok n) : Reads root n := by
  refine passesUp_reads.of_build hroot hopens (fun t ht n hassembled hkind => ?_) h
  have hwell := hroot.of_mem ht
  exact reads_of_areListed hassembled.span_eq hwell (hassembled.areListed hwell hkind)

end Model

/-- The nodes of a file are in reading order. -/
theorem SourceFile.Parsed.inReadingOrder {text : String} {root : Tree} {source : SourceFile}
    (hs : source.Parsed text root) (hroot : root.WellFormed text)
    (hopens : root.Everywhere Model.OpensInFront) :
    source.root.Throughout Node.InReadingOrder := by
  obtain ⟨n, hbuild, hstart, hstop, hchildren⟩ := hs.exists_build_ends
  have hthroughout := (Model.reads_of_build hroot hopens hbuild).throughout
  have hn := hthroughout n n.self_mem_preorder
  refine Node.throughout_of_children ⟨?_, ?_⟩ ?_
  · rw [hstart, hstop, hchildren]
    exact hn.inside
  · rw [hchildren]
    exact hn.ordered
  · rw [hchildren]
    exact fun c hc => hthroughout.of_mem_children hc

end TsxLint
