/-
Module: TsxLint.Proofs.Rules.SpacingOrder
Purpose: In which order neighbouring children that are too close are reported.
Main exports: Node.IsBelowEarlierSibling, ReportsChildren.pairwise_lt_iff,
  SiblingSpacing.pairwise_lt_iff
-/
import TsxLint.Proofs.Rule.Answers
import TsxLint.Proofs.Rules.SiblingGaps
import TsxLint.Proofs.Source.ReadingOrder
import TsxLint.Rules.SiblingSpacing

namespace TsxLint

/-!
A rule for spacing is called on the nodes of a file in preorder, and on an element it reports some
of its children.  It has reported all children of the element when it is called on what is below the
first of them.  So what is below a child is reported behind the later children, which it begins
before; apart from that the violations come in the order of the text.
-/

variable {text : String} {root : Tree} {source : SourceFile} {options : Options}
  {vs : List Violation}

open Listener (IsAbout)

/-- One node is below an earlier sibling of another, among the attributes and contents of an
element. -/
def Node.IsBelowEarlierSibling (root a b : Node) : Prop :=
  ∃ e before behind, .element e ∈ root.preorder ∧
    (Node.element e).children = before ++ a :: behind ∧ ∃ c ∈ before, b ∈ c.preorder

/-! ### Violations on children -/

/-- At each node there are violations on some of its children, in order, if the node is an element,
and none otherwise. -/
structure ReportsChildren (found : Node → List Violation) : Prop where
  element : ∀ n, ∀ v ∈ found n, ∃ e, n = .element e
  children : ∀ n, ((found n).map (·.node)).Sublist n.children
  placed : ∀ n, ∀ v ∈ found n, v.node.IsPlaced
  extent : ∀ n, ∀ v ∈ found n, v.node.start < v.node.stop

namespace ReportsChildren

variable {found : Node → List Violation} {root n c : Node} {v w : Violation}

theorem mem_children (h : ReportsChildren found) (hv : v ∈ found n) : v.node ∈ n.children :=
  (h.children n).subset (List.mem_map_of_mem hv)

theorem mem_placed (h : ReportsChildren found) (hv : v ∈ n.preorder.flatMap found) :
    v.node ∈ n.placed := by
  obtain ⟨m, hm, hv⟩ := List.mem_flatMap.1 hv
  exact Node.mem_placed_iff.2
    ⟨Node.mem_preorder_of_mem_children hm (h.mem_children hv), h.placed m v hv⟩

/-- What is reported below a child of a node begins before a reported child only if it is below an
earlier one. -/
theorem le_or_isBelow (h : ReportsChildren found) (hn : n ∈ root.preorder)
    (hread : n.Throughout Node.InReadingOrder) (hv : v ∈ found n) (hc : c ∈ n.children)
    (hw : w ∈ c.preorder.flatMap found) :
    v.node.start ≤ w.node.start ∨ root.IsBelowEarlierSibling v.node w.node := by
  have hextent := h.extent n v hv
  have hw := h.mem_placed hw
  obtain ⟨before, behind, hchildren⟩ := List.append_of_mem (h.mem_children hv)
  have hself : v.node ∈ v.node.placed :=
    Node.mem_placed_iff.2 ⟨v.node.self_mem_preorder, h.placed n v hv⟩
  rw [hchildren, List.mem_append, List.mem_cons] at hc
  rcases hc with hc | rfl | hc
  · obtain ⟨e, rfl⟩ := h.element n v hv
    exact .inr ⟨e, before, behind, hn, hchildren, c, hc, (Node.mem_placed_iff.1 hw).1⟩
  · exact .inl (Node.start_le_of_mem_placed (hread.of_mem_children (h.mem_children hv)) hw)
  · have hordered := (hread n n.self_mem_preorder).ordered
    rw [hchildren, List.pairwise_append, List.pairwise_cons] at hordered
    have hbehind := (hordered.2.1.1 c hc v.node hself w.node hw).2
    exact .inl (by omega)

/-- Of two violations that are found along the nodes in preorder, the earlier one begins first, or
the later one is below an earlier sibling. -/
theorem pairwise_flatMap (h : ReportsChildren found) (hn : n ∈ root.preorder)
    (hread : n.Throughout Node.InReadingOrder) :
    (n.preorder.flatMap found).Pairwise fun v w =>
      v.node.start ≤ w.node.start ∨ root.IsBelowEarlierSibling v.node w.node := by
  induction n using Node.induction_on_children with
  | step n ih =>
    have hordered := (hread n n.self_mem_preorder).ordered
    rw [Node.preorder_eq, List.flatMap_cons, List.flatMap_assoc]
    refine List.pairwise_append.2 ⟨?_, List.pairwise_flatMap.2 ⟨fun c hc => ?_, ?_⟩, ?_⟩
    · -- children of the same node
      have hnodes := hordered.sublist (h.children n)
      rw [List.pairwise_map] at hnodes
      refine hnodes.imp_of_mem fun {v w} hv hw hvw => .inl ?_
      have hv := Node.mem_placed_iff.2 ⟨v.node.self_mem_preorder, h.placed n v hv⟩
      have hw := Node.mem_placed_iff.2 ⟨w.node.self_mem_preorder, h.placed n w hw⟩
      exact (hvw v.node hv w.node hw).1
    · exact ih c hc (Node.mem_preorder_of_mem_children hn hc) (hread.of_mem_children hc)
    · -- below two children
      refine hordered.imp fun {a b} hab v hv w hw => .inl ?_
      obtain ⟨m, -, hfound⟩ := List.mem_flatMap.1 hv
      have hextent := h.extent m v hfound
      have hbehind := (hab v.node (h.mem_placed hv) w.node (h.mem_placed hw)).2
      omega
    · intro v hv w hw
      obtain ⟨c, hc, hw⟩ := List.mem_flatMap.1 hw
      exact h.le_or_isBelow hn hread hv hc hw

/-- What is below an earlier sibling of a node begins before it. -/
theorem start_lt_of_isBelow (hread : root.Throughout Node.InReadingOrder) {a b : Node}
    (ha : a.IsPlaced) (hb : b.IsPlaced) (hextent : b.start < b.stop)
    (h : root.IsBelowEarlierSibling a b) : b.start < a.start := by
  obtain ⟨e, before, behind, he, hchildren, c, hc, hbc⟩ := h
  have hbehind := (hread _ he).stop_le_start hchildren hc (Node.mem_placed_iff.2 ⟨hbc, hb⟩)
    (Node.mem_placed_iff.2 ⟨a.self_mem_preorder, ha⟩)
  omega

/-- Of two violations that are found along the nodes in preorder, the earlier one begins behind the
later one exactly if the later one is below an earlier sibling. -/
theorem pairwise_lt_iff (h : ReportsChildren found) (hread : root.Throughout Node.InReadingOrder) :
    (root.preorder.flatMap found).Pairwise fun v w =>
      w.node.start < v.node.start ↔ root.IsBelowEarlierSibling v.node w.node := by
  refine (h.pairwise_flatMap root.self_mem_preorder hread).imp_of_mem fun {v w} hv hw hvw => ?_
  obtain ⟨m, -, hw⟩ := List.mem_flatMap.1 hw
  obtain ⟨l, -, hv⟩ := List.mem_flatMap.1 hv
  constructor
  · intro hlt
    exact hvw.resolve_left (by omega)
  · exact start_lt_of_isBelow hread (h.placed l v hv) (h.placed m w hw) (h.extent m w hw)

end ReportsChildren

/-! ### What is reported on siblings -/

namespace SiblingSpacing

/-- A node that can be reported: it has a place, and a token in it. -/
def IsReportable (source : SourceFile) (n : Node) : Prop :=
  n.IsPlaced ∧ (source.firstToken? n.span).isSome = true

instance (source : SourceFile) : DecidablePred (IsReportable source) := fun n =>
  inferInstanceAs (Decidable (n.IsPlaced ∧ (source.firstToken? n.span).isSome = true))

theorem IsReportable.extent (htokens : source.HasTokensInOrder) {n : Node}
    (h : IsReportable source n) : n.start < n.stop := by
  obtain ⟨x, hx⟩ := Option.isSome_iff_exists.1 h.2
  have hfirst := htokens.firstToken?_eq_some_iff.1 hx
  have hextent := htokens.extent x hfirst.mem
  obtain ⟨hstart, hstop⟩ := hfirst.within
  exact Int.lt_of_le_of_lt hstart (Int.lt_of_lt_of_le hextent hstop)

theorem isAbout_checkPair (earlier later : Node) (indent : Value) (message : String) :
    IsAbout later (checkPair source earlier later indent message) := by
  rw [checkPair]
  split
  · dsimp only
    split
    · exact .nil
    · exact .bind fun edits => .one rfl
  · exact .nil

/-- Two neighbours are reported on the later one, if there is a token in it. -/
theorem sublist_of_checkPair {earlier later : Node} {indent : Value} {message : String}
    {found : List Violation} (hlater : later.IsPlaced)
    (h : checkPair source earlier later indent message = .ok found) :
    (found.map (·.node)).Sublist ([later].filter fun n => IsReportable source n) := by
  by_cases hreportable : IsReportable source later
  · rw [List.filter_cons, if_pos (decide_eq_true hreportable)]
    exact isAbout_checkPair earlier later indent message found h
  · have hnone : source.firstToken? later.span = none :=
      Option.not_isSome_iff_eq_none.1 fun hsome => hreportable ⟨hlater, hsome⟩
    rw [checkPair, hnone] at h
    split at h
    · next htoken => cases htoken
    · cases h
      exact List.nil_sublist _

/-- Neighbours are reported in their order, each at most once. -/
theorem sublist_of_checkNeighbours {covers : Node → Node → Bool}
    (hcovers : ∀ earlier later, covers earlier later = true → later.IsPlaced) {message : String}
    {nodes : List Node} {found : List Violation}
    (h : checkNeighbours source options covers message nodes = .ok found) :
    (found.map (·.node)).Sublist (nodes.tail.filter fun n => IsReportable source n) := by
  induction nodes generalizing found with
  | nil =>
    cases h
    exact .slnil
  | cons earlier rest ih =>
    cases rest with
    | nil =>
      cases h
      exact .slnil
    | cons later rest =>
      have hrest : ((later :: rest).filter fun n => IsReportable source n) =
          ([later].filter fun n => IsReportable source n) ++
            rest.filter fun n => IsReportable source n := by
        rw [← List.filter_append, List.singleton_append]
      rw [checkNeighbours] at h
      rw [List.tail_cons, hrest]
      by_cases hcovered : covers earlier later = true
      · rw [if_pos hcovered] at h
        obtain ⟨indent, -, h⟩ := Outcome.exists_of_bind_eq_ok h
        obtain ⟨here, hhere, h⟩ := Outcome.exists_of_bind_eq_ok h
        obtain ⟨others, hothers, h⟩ := Outcome.exists_of_bind_eq_ok h
        cases h
        rw [List.map_append]
        exact (sublist_of_checkPair (hcovers _ _ hcovered) hhere).append (ih hothers)
      · rw [if_neg hcovered] at h
        obtain ⟨here, hhere, h⟩ := Outcome.exists_of_bind_eq_ok h
        obtain ⟨others, hothers, h⟩ := Outcome.exists_of_bind_eq_ok h
        cases hhere
        cases h
        exact (ih hothers).trans (List.sublist_append_right _ _)

/-- What is reported at a node. -/
def answer (source : SourceFile) (options : Options) (covers : Node → Node → Bool)
    (message : String) : Node → List Violation
  | .element e =>
    if e.selfClosing then []
    else ((checkNeighbours source options covers message e.significantChildren).toOption).getD []
  | _ => []

/-- Some children of an element are reported, in their order. -/
theorem sublist_answer {covers : Node → Node → Bool}
    (hcovers : ∀ earlier later, covers earlier later = true → later.IsPlaced) (message : String)
    (n : Node) : ((answer source options covers message n).map (·.node)).Sublist
      (n.children.filter fun n => IsReportable source n) := by
  cases n with
  | element e =>
    rw [answer]
    by_cases hself : e.selfClosing = true
    · rw [if_pos hself]
      exact List.nil_sublist _
    · rw [if_neg hself]
      cases hfound : checkNeighbours source options covers message e.significantChildren with
      | error fault => exact List.nil_sublist _
      | ok found =>
        refine (sublist_of_checkNeighbours hcovers hfound).trans (List.Sublist.filter _ ?_)
        exact (List.tail_sublist _).trans
          (e.significantChildren_sublist.trans (List.sublist_append_right _ _))
  | _ => exact List.nil_sublist _

theorem reportsChildren_answer (htokens : source.HasTokensInOrder) {covers : Node → Node → Bool}
    (hcovers : ∀ earlier later, covers earlier later = true → later.IsPlaced) (message : String) :
    ReportsChildren (answer source options covers message) := by
  have hreportable : ∀ n, ∀ v ∈ answer source options covers message n,
      IsReportable source v.node := fun n v hv =>
    of_decide_eq_true (List.mem_filter.1
      ((sublist_answer hcovers message n).subset (List.mem_map_of_mem hv))).2
  constructor
  · intro n v hv
    cases n with
    | element e => exact ⟨e, rfl⟩
    | _ => cases hv
  · exact fun n => (sublist_answer hcovers message n).trans List.filter_sublist
  · exact fun n v hv => (hreportable n v hv).1
  · exact fun n v hv => (hreportable n v hv).extent htokens

/-- What a rule for spacing reports on a file is what it reports at the nodes, in preorder. -/
theorem eq_flatMap_answer {covers : Node → Node → Bool} {message : String}
    (h : (listener covers message).run source options = .ok vs) :
    vs = source.nodes.flatMap (answer source options covers message) := by
  refine Listener.eq_flatMap_of_run h fun way n found hanswer => ?_
  cases hanswer with
  | heard kind hreport =>
    cases n with
    | element e =>
      simp only at hreport
      rw [answer]
      by_cases hself : e.selfClosing = true
      · rw [if_pos hself] at hreport ⊢
        cases hreport
        rfl
      · rw [if_neg hself] at hreport ⊢
        rw [hreport]
        rfl
    | _ => simp [Node.kind] at kind
  | unheard kind =>
    cases n with
    | element e => simp [Node.kind] at kind
    | _ => rfl

/-- Of two violations of a rule for spacing, the one that is reported first begins behind the other
exactly if that is below an earlier sibling of it. -/
theorem pairwise_lt_iff (hs : source.Parsed text root) (hroot : root.WellFormed text)
    (hread : source.root.Throughout Node.InReadingOrder) {covers : Node → Node → Bool}
    (hcovers : ∀ earlier later, covers earlier later = true → later.IsPlaced) {message : String}
    (h : (listener covers message).run source options = .ok vs) :
    vs.Pairwise fun v w =>
      w.node.start < v.node.start ↔ source.root.IsBelowEarlierSibling v.node w.node := by
  rw [eq_flatMap_answer h]
  exact (reportsChildren_answer (hs.hasTokensInOrder hroot) hcovers message).pairwise_lt_iff hread

theorem isPlaced_of_isMixedPair (earlier later : Node) (h : isMixedPair earlier later = true) :
    later.IsPlaced := by
  rw [isMixedPair.eq_def] at h
  split at h
  · simp [Node.IsPlaced, Node.kind]
  · simp [Node.IsPlaced, Node.kind]
  · cases h

theorem isPlaced_of_isMultilinePair (earlier later : Node)
    (h : isMultilinePair earlier later = true) : later.IsPlaced := by
  rw [isMultilinePair.eq_def] at h
  split at h
  · simp [Node.IsPlaced, Node.kind]
  · cases h

end SiblingSpacing

end TsxLint
