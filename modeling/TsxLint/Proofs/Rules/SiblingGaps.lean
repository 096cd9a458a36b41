/-
Module: TsxLint.Proofs.Rules.SiblingGaps
Purpose: The gaps between neighbouring children of elements lie apart from each other.
Main exports: Node.siblings, SourceFile.siblings, SourceFile.AreSides, SourceFile.pairwise_siblings
-/
import TsxLint.Proofs.Source.Layout
import TsxLint.Proofs.Source.Tokens

namespace TsxLint

/-!
A gap lies between two neighbouring children of an element that count, from the last token of the
one to the first token of the other.  Gaps occur at every depth: inside the children themselves, in
attributes, and in the expressions of either.  No two of them touch.  Between neighbours of one
element this is so since a token of the common child stands between their gaps; a gap further in
lies between tokens of a child, so that one of its tokens stands between it and the gap outside; and
gaps of different parts of a node are where the parts are, beside each other.
-/

/-! ### Neighbours in a list -/

/-- Each item of a list with the next one. -/
def neighbours {α : Type} : List α → List (α × α)
  | a :: b :: rest => (a, b) :: neighbours (b :: rest)
  | _ => []

section Neighbours

variable {α : Type} {R : α → α → Prop} {l : List α} {p : α × α}

theorem mem_neighbours_cons_cons {a b : α} {rest : List α} :
    p ∈ neighbours (a :: b :: rest) ↔ p = (a, b) ∨ p ∈ neighbours (b :: rest) :=
  List.mem_cons

theorem mem_of_mem_neighbours (h : p ∈ neighbours l) : p.1 ∈ l ∧ p.2 ∈ l := by
  induction l with
  | nil => cases h
  | cons a rest ih =>
    cases rest with
    | nil => cases h
    | cons b rest =>
      rcases mem_neighbours_cons_cons.1 h with rfl | h
      · simp
      · exact ⟨List.mem_cons_of_mem a (ih h).1, List.mem_cons_of_mem a (ih h).2⟩

theorem rel_of_mem_neighbours (hR : l.Pairwise R) (h : p ∈ neighbours l) : R p.1 p.2 := by
  induction l with
  | nil => cases h
  | cons a rest ih =>
    cases rest with
    | nil => cases h
    | cons b rest =>
      rcases mem_neighbours_cons_cons.1 h with rfl | h
      · exact List.rel_of_pairwise_cons hR List.mem_cons_self
      · exact ih hR.of_cons h

/-- An item is one of two neighbours, or it comes in front of both or behind both. -/
theorem eq_or_rel_of_mem_neighbours (hR : l.Pairwise R) (h : p ∈ neighbours l) {c : α}
    (hc : c ∈ l) : c = p.1 ∨ c = p.2 ∨ R c p.1 ∨ R p.2 c := by
  induction l with
  | nil => cases h
  | cons a rest ih =>
    cases rest with
    | nil => cases h
    | cons b rest =>
      rcases mem_neighbours_cons_cons.1 h with rfl | hlater
      · rcases List.mem_cons.1 hc with rfl | hc
        · exact .inl rfl
        · rcases List.mem_cons.1 hc with rfl | hc
          · exact .inr (.inl rfl)
          · exact .inr (.inr (.inr (List.rel_of_pairwise_cons hR.of_cons hc)))
      · have hfirst := (mem_of_mem_neighbours hlater).1
        rcases List.mem_cons.1 hc with rfl | hc
        · exact .inr (.inr (.inl (List.rel_of_pairwise_cons hR hfirst)))
        · exact ih hR.of_cons hlater hc

/-- Of two pairs of neighbours the first ends with what the second begins with, or in front of
it. -/
theorem pairwise_neighbours (hR : l.Pairwise R) :
    (neighbours l).Pairwise fun p q => p.2 = q.1 ∨ R p.2 q.1 := by
  induction l with
  | nil => exact .nil
  | cons a rest ih =>
    cases rest with
    | nil => exact .nil
    | cons b rest =>
      refine List.pairwise_cons.2 ⟨fun q hq => ?_, ih hR.of_cons⟩
      rcases List.mem_cons.1 (mem_of_mem_neighbours hq).1 with heq | hmem
      · exact .inl heq.symm
      · exact .inr (List.rel_of_pairwise_cons hR.of_cons hmem)

end Neighbours

/-! ### Siblings -/

/-- The neighbours among the children of an element that count; an element that is one tag has
none. -/
def Node.siblings : Node → List (Node × Node)
  | .element e => if e.selfClosing then [] else neighbours e.significantChildren
  | _ => []

/-- The neighbouring children of a node and of all nodes below it, in preorder. -/
def Node.siblingsBelow (n : Node) : List (Node × Node) := n.preorder.flatMap Node.siblings

/-- The neighbouring children of all elements of a file, in preorder. -/
def SourceFile.siblings (f : SourceFile) : List (Node × Node) := f.root.siblingsBelow

theorem Node.siblingsBelow_eq (n : Node) :
    n.siblingsBelow = n.siblings ++ n.children.flatMap Node.siblingsBelow := by
  rw [siblingsBelow, preorder_eq, List.flatMap_cons, List.flatMap_assoc]
  rfl

theorem Node.siblingsBelow_of_children_eq_nil {n : Node} (h : n.children = [])
    (hsiblings : n.siblings = []) : n.siblingsBelow = [] := by
  rw [siblingsBelow_eq, h, hsiblings]
  rfl

theorem Model.IsBare.siblingsBelow_eq {n : Node} (h : Model.IsBare n) : n.siblingsBelow = [] := by
  refine Node.siblingsBelow_of_children_eq_nil h.1 ?_
  obtain ⟨-, hkind⟩ := h
  cases n <;> simp [Node.kind] at hkind <;> rfl

/-- A child that does not count has no children that count. -/
theorem Element.siblingsBelow_of_not_isSignificant {n : Node} (h : isSignificant n = false) :
    n.siblingsBelow = [] := by
  cases n with
  | text t => exact Node.siblingsBelow_of_children_eq_nil rfl rfl
  | container c =>
    obtain ⟨span, expression⟩ := c
    cases expression with
    | none => exact Node.siblingsBelow_of_children_eq_nil rfl rfl
    | some x => cases h
  | _ => cases h

theorem Element.significantChildren_sublist (e : Element Node) :
    e.significantChildren.Sublist e.body :=
  List.filter_sublist

/-- Siblings are children of one element. -/
theorem Node.exists_of_mem_siblings {n : Node} {p : Node × Node} (h : p ∈ n.siblings) :
    ∃ e, n = .element e ∧ p ∈ neighbours e.significantChildren := by
  cases n with
  | element e =>
    refine ⟨e, rfl, ?_⟩
    rw [siblings] at h
    split at h
    · cases h
    · exact h
  | _ => cases h

namespace SourceFile

/-! ### Gaps -/

/-- Two tokens stand on both sides of the gap between two nodes: the last one of the first node and
the first one of the second. -/
structure AreSides (source : SourceFile) (p : Node × Node) (before behind : Token) : Prop where
  last : source.IsLastIn p.1.span before
  first : source.IsFirstIn p.2.span behind

/-- One of two gaps ends before the other begins, and a token stands between them. -/
def AreApart (source : SourceFile) (p q : Node × Node) : Prop :=
  ∀ a b a' b' : Token, source.AreSides p a b → source.AreSides q a' b' →
    b.span.start < a'.span.stop ∨ b'.span.start < a.span.stop

/-- Two nodes lie inside a span. -/
def BothWithin (p : Node × Node) (s : Span) : Prop := p.1.span.Within s ∧ p.2.span.Within s

variable {source : SourceFile} {p q : Node × Node}

theorem AreApart.symm (h : source.AreApart p q) : source.AreApart q p :=
  fun a b a' b' hq hp => (h a' b' a b hp hq).symm

instance : Std.Symm source.AreApart := ⟨fun _ _ => AreApart.symm⟩

theorem areApart_of_eq (h : p.2 = q.1) (hx : source.HasTokensInOrder) : source.AreApart p q := by
  intro a b a' b' hp hq
  have ha' := hx.extent a' hq.last.mem
  have hle := hp.first.first a' hq.last.mem (h ▸ hq.last.within)
  omega

theorem areApart_of_le (h : p.2.stop ≤ q.1.start) (hx : source.HasTokensInOrder) :
    source.AreApart p q := by
  intro a b a' b' hp hq
  have hb := hx.extent b hp.first.mem
  have ha' := hx.extent a' hq.last.mem
  have hinside := hp.first.within.2
  have hinside' := hq.last.within.1
  rw [Node.stop, Node.start] at h
  omega

/-- The gap between two nodes is apart from those inside the first one. -/
theorem areApart_of_within_first (h : BothWithin q p.1.span) (hx : source.HasTokensInOrder) :
    source.AreApart p q := by
  intro a b a' b' hp hq
  have hb' := hx.extent b' hq.first.mem
  have hle := hp.last.last b' hq.first.mem (hq.first.within.trans h.2)
  omega

/-- The gap between two nodes is apart from those inside the second one. -/
theorem areApart_of_within_second (h : BothWithin q p.2.span) (hx : source.HasTokensInOrder) :
    source.AreApart p q := by
  intro a b a' b' hp hq
  have ha' := hx.extent a' hq.last.mem
  have hle := hp.first.first a' hq.last.mem (hq.last.within.trans h.1)
  omega

/-- Gaps inside spans that lie beside each other are apart. -/
theorem areApart_of_beside {s t : Span} (hp : BothWithin p s) (hq : BothWithin q t)
    (hst : s.Beside t) (hx : source.HasTokensInOrder) : source.AreApart p q := by
  rcases hst with hst | hts
  · refine areApart_of_le ?_ hx
    exact Int.le_trans hp.2.2 (Int.le_trans hst hq.1.1)
  · refine (areApart_of_le ?_ hx).symm
    exact Int.le_trans hq.2.2 (Int.le_trans hts hp.1.1)

end SourceFile

/-! ### Gaps of a whole file -/

section Stems

variable {source : SourceFile} {d : Document} {text : String} {root t : Tree} {n : Node}

/-- The neighbours below a node lie inside it. -/
theorem Model.Stems.bothWithin (h : Model.Stems d t n) (ht : t.WellFormed text)
    (hlaid : n.Throughout (Node.IsLaidOut d root)) {p : Node × Node} (hp : p ∈ n.siblingsBelow) :
    SourceFile.BothWithin p n.span := by
  obtain ⟨m, hm, hsiblings⟩ := List.mem_flatMap.1 hp
  obtain ⟨e, rfl, hneighbours⟩ := Node.exists_of_mem_siblings hsiblings
  obtain ⟨u, hu, hstems⟩ := h.exists_of_kind hm (by simp [Node.kind])
  have hinside := ht.inside hu
  have hwithin : e.span.Within n.span := by
    rw [h.span_eq, show e.span = Model.spanOf d u from hstems.span_eq]
    exact ⟨Int.ofNat_le.2 hinside.1, Int.ofNat_le.2 hinside.2⟩
  have hbody : ∀ b ∈ e.significantChildren, b.span.Within n.span := fun b hb =>
    Span.Within.trans ((hlaid _ hm).inside b (e.significantChildren_sublist.subset hb)) hwithin
  obtain ⟨hfirst, hsecond⟩ := mem_of_mem_neighbours hneighbours
  exact ⟨hbody _ hfirst, hbody _ hsecond⟩

/-- The gaps between the children of one element are apart. -/
theorem Element.IsLaidOut.pairwise_siblings {e : Element Node} (h : e.IsLaidOut d root)
    (hx : source.HasTokensInOrder) : (Node.element e).siblings.Pairwise source.AreApart := by
  rw [Node.siblings]
  split
  · exact .nil
  · have hordered := h.ordered.sublist e.significantChildren_sublist
    refine (pairwise_neighbours hordered).imp fun {p q} hpq => ?_
    rcases hpq with heq | hle
    · exact SourceFile.areApart_of_eq heq hx
    · exact SourceFile.areApart_of_le hle hx

/-- The gap between two children of an element is apart from those inside any child. -/
theorem Element.IsLaidOut.areApart_of_mem_children {e : Element Node} (h : e.IsLaidOut d root)
    (hx : source.HasTokensInOrder) {p q : Node × Node}
    (hp : p ∈ (Node.element e).siblings) {c : Node} (hc : c ∈ (Node.element e).children)
    (hq : q ∈ c.siblingsBelow) (hwithin : SourceFile.BothWithin q c.span) :
    source.AreApart p q := by
  obtain ⟨_, heq, hneighbours⟩ := Node.exists_of_mem_siblings hp
  cases heq
  have hbeside : p.2.stop ≤ c.start ∨ c.stop ≤ p.1.start → source.AreApart p q := by
    rintro (hle | hle)
    · exact SourceFile.areApart_of_le (Int.le_trans hle hwithin.1.1) hx
    · exact (SourceFile.areApart_of_le (Int.le_trans hwithin.2.2 hle) hx).symm
  rcases List.mem_append.1 hc with hc | hc
  · have hapart := h.apart.sublist e.significantChildren_sublist
    exact hbeside (rel_of_mem_neighbours hapart hneighbours c hc).symm
  · by_cases hcounts : Element.isSignificant c = true
    · have hmem : c ∈ e.significantChildren := List.mem_filter.2 ⟨hc, hcounts⟩
      have hordered := h.ordered.sublist e.significantChildren_sublist
      rcases eq_or_rel_of_mem_neighbours hordered hneighbours hmem with rfl | rfl | hle | hle
      · exact SourceFile.areApart_of_within_first hwithin hx
      · exact SourceFile.areApart_of_within_second hwithin hx
      · exact hbeside (.inr hle)
      · exact hbeside (.inl hle)
    · rw [Element.siblingsBelow_of_not_isSignificant (Bool.eq_false_iff.2 hcounts)] at hq
      cases hq

/-- The gaps inside different children of a node are apart. -/
theorem Model.Stems.pairwise_children (h : Model.Stems d t n) (ht : t.WellFormed text)
    (hlaid : ∀ c ∈ n.children, c.Throughout (Node.IsLaidOut d root))
    (hx : source.HasTokensInOrder) :
    n.children.Pairwise fun a b =>
      ∀ p ∈ a.siblingsBelow, ∀ q ∈ b.siblingsBelow, source.AreApart p q := by
  cases h with
  | intro us parts bare hspan hsuits hchildren hbare hparts hstems =>
    have hnone : ∀ a ∈ bare, a.siblingsBelow = [] := fun a ha => (hbare a ha).siblingsBelow_eq
    have hlaid' : ∀ a ∈ parts, a.Throughout (Node.IsLaidOut d root) := fun a ha =>
      hlaid a (hchildren.mem_iff.2 (List.mem_append_left _ ha))
    have hbeside : parts.Pairwise fun a b => ∃ u ∈ t.subtrees, ∃ v ∈ t.subtrees,
        Model.Stems d u a ∧ Model.Stems d v b ∧ u.Beside v :=
      pairwise_of_forall₂ hstems hparts.beside fun u hu v hv a b huv ha hb =>
        ⟨u, hparts.below u hu, v, hparts.below v hv, ha, hb, huv⟩
    refine (hchildren.pairwise_iff fun {a b} hab q hq p hp => (hab p hp q hq).symm).2 ?_
    refine List.pairwise_append.2 ⟨hbeside.imp_of_mem ?_, ?_, ?_⟩
    · rintro a b ha hb ⟨u, hu, v, hv, hua, hvb, huv⟩ p hp q hq
      refine SourceFile.areApart_of_beside (hua.bothWithin (ht.of_mem hu) (hlaid' a ha) hp)
        (hvb.bothWithin (ht.of_mem hv) (hlaid' b hb) hq) ?_ hx
      rw [hua.span_eq, hvb.span_eq]
      exact huv.imp Int.ofNat_le.2 Int.ofNat_le.2
    · refine List.pairwise_of_forall_mem_list fun a ha b hb p hp => ?_
      rw [hnone a ha] at hp
      cases hp
    · intro a ha b hb p hp q hq
      rw [hnone b hb] at hq
      cases hq

/-- The gaps below a node are apart. -/
theorem Model.Stems.pairwise_siblingsBelow (h : Model.Stems d t n) (ht : t.WellFormed text)
    (hlaid : n.Throughout (Node.IsLaidOut d root)) (hx : source.HasTokensInOrder) :
    n.siblingsBelow.Pairwise source.AreApart := by
  induction n using Node.induction_on_children generalizing t with
  | step n ih =>
    have hlaid' : ∀ c ∈ n.children, c.Throughout (Node.IsLaidOut d root) := fun c hc =>
      hlaid.of_mem_children hc
    rw [Node.siblingsBelow_eq, List.pairwise_append, List.pairwise_flatMap]
    refine ⟨?_, ⟨fun c hc => ?_, h.pairwise_children ht hlaid' hx⟩, fun p hp q hq => ?_⟩
    · cases n with
      | element e => exact (hlaid _ (Node.self_mem_preorder _)).pairwise_siblings hx
      | _ => exact .nil
    · rcases h.exists_of_mem_children hc with hbare | ⟨u, hu, hstems⟩
      · rw [hbare.siblingsBelow_eq]
        exact .nil
      · exact ih c hc hstems (ht.of_mem hu) (hlaid' c hc)
    · obtain ⟨c, hc, hqc⟩ := List.mem_flatMap.1 hq
      obtain ⟨e, rfl, -⟩ := Node.exists_of_mem_siblings hp
      rcases h.exists_of_mem_children hc with hbare | ⟨u, hu, hstems⟩
      · rw [hbare.siblingsBelow_eq] at hqc
        cases hqc
      · exact Element.IsLaidOut.areApart_of_mem_children (hlaid _ (Node.self_mem_preorder _)) hx hp
          hc hqc (hstems.bothWithin (ht.of_mem hu) (hlaid' c hc) hqc)

end Stems

/-- A file that is read from a tree, nothing of it twice and every opening tag outside the contents
of its element. -/
structure SourceFile.ReadInOrder (text : String) (root : Tree) (source : SourceFile) : Prop where
  parsed : source.Parsed text root
  readable : Model.Readable text root
  outside : root.Everywhere Model.OpensOutside

namespace SourceFile.ReadInOrder

variable {text : String} {root : Tree} {source : SourceFile} {p : Node × Node} {a b : Token}

theorem hasTokensInOrder (h : source.ReadInOrder text root) : source.HasTokensInOrder :=
  h.parsed.hasTokensInOrder h.readable.wellFormed

theorem throughout_isLaidOut (h : source.ReadInOrder text root) :
    source.root.Throughout (Node.IsLaidOut (Document.ofText text) root) := by
  intro m hm
  cases m with
  | element e => exact h.parsed.isLaidOut h.readable.wellFormed h.outside hm
  | _ => trivial

/-- No two gaps of a file touch. -/
theorem pairwise_siblings (h : source.ReadInOrder text root) :
    source.siblings.Pairwise source.AreApart :=
  (h.parsed.stems_root h.readable).pairwise_siblingsBelow h.readable.wellFormed
    h.throughout_isLaidOut h.hasTokensInOrder

/-- Siblings have places in the tree, one behind the other. -/
theorem places_of_mem_siblings (h : source.ReadInOrder text root) (hp : p ∈ source.siblings) :
    (∃ u ∈ root.subtrees, p.1.span = Model.spanOf (Document.ofText text) u) ∧
      (∃ u ∈ root.subtrees, p.2.span = Model.spanOf (Document.ofText text) u) ∧
      p.1.stop ≤ p.2.start := by
  obtain ⟨m, hm, hsiblings⟩ := List.mem_flatMap.1 hp
  obtain ⟨e, rfl, hneighbours⟩ := Node.exists_of_mem_siblings hsiblings
  have hlaid := h.parsed.isLaidOut h.readable.wellFormed h.outside hm
  obtain ⟨hfirst, hsecond⟩ := mem_of_mem_neighbours hneighbours
  exact ⟨hlaid.placed _ (e.significantChildren_sublist.subset hfirst),
    hlaid.placed _ (e.significantChildren_sublist.subset hsecond),
    rel_of_mem_neighbours (hlaid.ordered.sublist e.significantChildren_sublist) hneighbours⟩

/-- The tokens that are looked up for two siblings are those on both sides of their gap. -/
theorem areSides_iff (h : source.ReadInOrder text root) (hp : p ∈ source.siblings) :
    source.AreSides p a b ↔
      source.lastToken? p.1.span = some a ∧ source.firstToken? p.2.span = some b := by
  obtain ⟨⟨u, hu, hspan⟩, -⟩ := h.places_of_mem_siblings hp
  rw [h.hasTokensInOrder.firstToken?_eq_some_iff, hspan,
    h.parsed.lastToken?_eq_some_iff h.readable.wellFormed hu, ← hspan]
  exact ⟨fun ⟨hlast, hfirst⟩ => ⟨hlast, hfirst⟩, fun ⟨hlast, hfirst⟩ => ⟨hlast, hfirst⟩⟩

/-- The token in front of a gap ends before the one behind it begins. -/
theorem stop_le_start (h : source.ReadInOrder text root) (hp : p ∈ source.siblings)
    (hsides : source.AreSides p a b) : a.span.stop ≤ b.span.start := by
  obtain ⟨-, -, hordered⟩ := h.places_of_mem_siblings hp
  exact Int.le_trans hsides.last.within.2 (Int.le_trans hordered hsides.first.within.1)

end SourceFile.ReadInOrder

end TsxLint
