/-
Module: TsxLint.Proofs.Rules.SingleEdits
Purpose: The edits of rules that replace one range, or none, for each violation.
Main exports: Violation.IsApplicable, Violation.ReplacesOneRange, SiblingSpacing.replacesOneRange,
  DefaultProps.replacesOneRange, ArrowBody.replacesOneRange, Wrapper.replacesOneRange
-/
import TsxLint.Proofs.Source.Files
import TsxLint.Rules.Catalog

namespace TsxLint

/-!
Most rules mend a violation by one edit: they fill the gap between two tokens, take out an
attribute with the white space on one side, or put another text in the place of a node.  There
is nothing such an edit could overlap with, so all that counts is where its range ends.
-/

/-- The edits of a violation do not overlap and lie between characters of a text. -/
structure Violation.IsApplicable (text : String) (v : Violation) : Prop where
  apart : Edit.Apart v.edits
  aligned : ∀ e ∈ v.edits, e.IsAligned text

/-- A violation has no edit, or one whose range ends where nodes of a tree do. -/
def Violation.ReplacesOneRange (root : Tree) (v : Violation) : Prop :=
  v.edits = [] ∨ ∃ start stop replacement e, v.edits = [e] ∧
    Edit.between start stop replacement = .ok e ∧ root.IsEnd start ∧ root.IsEnd stop

theorem Violation.ReplacesOneRange.isApplicable {root : Tree} {text : String} {v : Violation}
    (h : v.ReplacesOneRange root) (ht : root.WellFormed text) : v.IsApplicable text := by
  rcases h with hnone | ⟨start, stop, replacement, e, hone, he, hstart, hstop⟩
  · constructor
    · rw [hnone]
      exact .nil
    · rw [hnone]
      intro e he
      cases he
  · constructor
    · rw [hone]
      exact List.pairwise_singleton _ _
    · rw [hone]
      intro f hf
      cases List.mem_singleton.1 hf
      exact Tree.IsEnd.isAligned ht hstart hstop he

variable {text : String} {root : Tree} {source : SourceFile} {options : Options}
  {found vs : List Violation} {v : Violation}

/-! ### Blank lines between siblings -/

namespace SiblingSpacing

theorem edits_of_gapEdits {start stop : Int} {indent : Value} {edits : List Edit}
    (h : gapEdits source start stop indent = .ok edits) :
    edits = [] ∨ ∃ replacement e, edits = [e] ∧ Edit.between start stop replacement = .ok e := by
  obtain ⟨gap, -, h⟩ := Outcome.exists_of_bind_eq_ok h
  by_cases hblank : Text.isBlankText gap = true
  · rw [if_pos hblank] at h
    obtain ⟨filler, -, h⟩ := Outcome.exists_of_bind_eq_ok h
    obtain ⟨e, he, h⟩ := Outcome.exists_of_bind_eq_ok h
    cases h
    exact .inr ⟨filler, e, rfl, he⟩
  · rw [if_neg hblank] at h
    cases h
    exact .inl rfl

theorem replacesOneRange_of_checkPair (hs : source.Parsed text root) {earlier later : Node}
    {indent : Value} {message : String}
    (h : checkPair source earlier later indent message = .ok found) (hv : v ∈ found) :
    v.ReplacesOneRange root := by
  rw [checkPair] at h
  cases hbefore : source.lastToken? earlier.span with
  | none =>
    rw [hbefore] at h
    cases h
    cases hv
  | some before =>
    cases hbehind : source.firstToken? later.span with
    | none =>
      rw [hbefore, hbehind] at h
      cases h
      cases hv
    | some behind =>
      simp only [hbefore, hbehind] at h
      by_cases hlines : 1 < behind.span.startLine - before.span.endLine
      · rw [if_pos hlines] at h
        cases h
        cases hv
      · rw [if_neg hlines] at h
        obtain ⟨edits, hedits, h⟩ := Outcome.exists_of_bind_eq_ok h
        cases h
        cases List.mem_singleton.1 hv
        rcases edits_of_gapEdits hedits with hnone | ⟨replacement, e, hone, he⟩
        · exact .inl hnone
        · exact .inr ⟨_, _, replacement, e, hone, he, hs.isEnd_lastToken? hbefore,
            hs.isEnd_firstToken? hbehind⟩

theorem replacesOneRange_of_checkNeighbours (hs : source.Parsed text root)
    {covers : Node → Node → Bool} {message : String} {nodes : List Node}
    (h : checkNeighbours source options covers message nodes = .ok found) (hv : v ∈ found) :
    v.ReplacesOneRange root := by
  induction nodes generalizing found with
  | nil =>
    cases h
    cases hv
  | cons earlier rest ih =>
    cases rest with
    | nil =>
      cases h
      cases hv
    | cons later rest =>
      rw [checkNeighbours] at h
      by_cases hcovers : covers earlier later = true
      · rw [if_pos hcovers] at h
        obtain ⟨indent, -, h⟩ := Outcome.exists_of_bind_eq_ok h
        obtain ⟨here, hhere, h⟩ := Outcome.exists_of_bind_eq_ok h
        obtain ⟨others, hothers, h⟩ := Outcome.exists_of_bind_eq_ok h
        cases h
        rcases List.mem_append.1 hv with hv | hv
        · exact replacesOneRange_of_checkPair hs hhere hv
        · exact ih hothers hv
      · rw [if_neg hcovers] at h
        obtain ⟨here, hhere, h⟩ := Outcome.exists_of_bind_eq_ok h
        obtain ⟨others, hothers, h⟩ := Outcome.exists_of_bind_eq_ok h
        cases hhere
        cases h
        exact ih hothers hv

theorem replacesOneRange (hs : source.Parsed text root) {covers : Node → Node → Bool}
    {message : String} (h : (listener covers message).run source options = .ok vs) (hv : v ∈ vs) :
    v.ReplacesOneRange root := by
  obtain ⟨way, n, found, -, hreport, hv⟩ := Listener.exists_of_mem_run_atNodes h hv
  cases n with
  | element e =>
    simp only at hreport
    by_cases hself : e.selfClosing = true
    · rw [if_pos hself] at hreport
      cases hreport
      cases hv
    · rw [if_neg hself] at hreport
      exact replacesOneRange_of_checkNeighbours hs hreport hv
  | _ =>
    cases hreport
    cases hv

end SiblingSpacing

/-! ### Attributes that go -/

namespace DefaultProps

/-- The removed range ends at ends of attributes, or at the end of the name in the tag. -/
theorem isEnd_of_removedRange {e : Element Node} {index : Nat} {start stop : Int}
    {range : Int × Int} (hattributes : ∀ n ∈ e.attributes, root.IsEnd n.start ∧ root.IsEnd n.stop)
    (hname : ∀ s ∈ e.nameSpan, root.IsEnd s.stop) (hstart : root.IsEnd start)
    (hstop : root.IsEnd stop) (h : removedRange source e index start stop = .ok range) :
    root.IsEnd range.1 ∧ root.IsEnd range.2 := by
  have hbefore : ∀ {gap : Int}, root.IsEnd gap →
      withGapBefore source gap start stop = .ok range → root.IsEnd range.1 ∧ root.IsEnd range.2 := by
    intro gap hgap h
    obtain ⟨between, -, h⟩ := Outcome.exists_of_bind_eq_ok h
    cases h
    by_cases hblank : Text.isBlankRun between = true
    · rw [if_pos hblank]
      exact ⟨hgap, hstop⟩
    · rw [if_neg hblank]
      exact ⟨hstart, hstop⟩
  have hbehind : ∀ {gap : Int}, root.IsEnd gap →
      withGapBehind source gap start stop = .ok range → root.IsEnd range.1 ∧ root.IsEnd range.2 := by
    intro gap hgap h
    obtain ⟨between, -, h⟩ := Outcome.exists_of_bind_eq_ok h
    cases h
    by_cases hblank : Text.isBlankRun between = true
    · rw [if_pos hblank]
      exact ⟨hstart, hgap⟩
    · rw [if_neg hblank]
      exact ⟨hstart, hstop⟩
  cases index with
  | succ i =>
    rw [removedRange] at h
    cases hi : e.attributes[i]? with
    | some before =>
      rw [hi] at h
      exact hbefore (hattributes before (List.mem_of_getElem? hi)).2 h
    | none =>
      rw [hi] at h
      cases h
      exact ⟨hstart, hstop⟩
  | zero =>
    rw [removedRange] at h
    cases hone : e.attributes[1]? with
    | some behind =>
      simp only [hone] at h
      exact hbehind (hattributes behind (List.mem_of_getElem? hone)).1 h
    | none =>
      cases hspan : e.nameSpan with
      | some name =>
        simp only [hone, hspan] at h
        exact hbefore (hname name hspan) h
      | none =>
        simp only [hone, hspan] at h
        cases h
        exact ⟨hstart, hstop⟩

theorem replacesOneRange_of_checkAttribute {visit : Visit Unit} {e : Element Node}
    {a : Attribute Node} (hattributes : ∀ n ∈ e.attributes, root.IsEnd n.start ∧ root.IsEnd n.stop)
    (hname : ∀ s ∈ e.nameSpan, root.IsEnd s.stop) (hstart : root.IsEnd a.span.start)
    (hstop : root.IsEnd a.span.stop) (h : checkAttribute visit e a = .ok found) (hv : v ∈ found) :
    v.ReplacesOneRange root := by
  obtain ⟨known, -, h⟩ := Outcome.exists_of_bind_eq_ok h
  cases hdefault : Table.get? known a.name with
  | none =>
    simp only [hdefault] at h
    cases h
    cases hv
  | some default =>
    cases hliteral : literal? a.value with
    | none =>
      simp only [hdefault, hliteral] at h
      cases h
      cases hv
    | some l =>
      simp only [hdefault, hliteral] at h
      by_cases hsame : Value.same l.value default = true
      · rw [if_pos hsame] at h
        obtain ⟨edit, hedit, h⟩ := Outcome.exists_of_bind_eq_ok h
        cases h
        cases List.mem_singleton.1 hv
        obtain ⟨⟨start, stop⟩, hrange, hedit⟩ := Outcome.exists_of_bind_eq_ok hedit
        obtain ⟨hfirst, hlast⟩ := isEnd_of_removedRange hattributes hname hstart hstop hrange
        exact .inr ⟨start, stop, "", edit, rfl, hedit, hfirst, hlast⟩
      · rw [if_neg hsame] at h
        cases h
        cases hv

/-- The attributes of an element and the name in its tag end where nodes of the tree do. -/
theorem isEnd_of_element (hs : source.Parsed text root) (ht : Model.Readable text root)
    {e : Element Node} (he : .element e ∈ source.root.preorder) :
    (∀ n ∈ e.attributes, root.IsEnd n.start ∧ root.IsEnd n.stop) ∧
      ∀ s ∈ e.nameSpan, root.IsEnd s.stop := by
  obtain ⟨u, hu, hstems⟩ := hs.exists_stems ht he (by simp [Node.kind])
  obtain ⟨hname, hkinds⟩ := hstems.suits_self
  constructor
  · intro n hn
    have hchild : n ∈ (Node.element e).children := List.mem_append_left _ hn
    rcases hstems.exists_of_mem_children hchild with hbare | ⟨w, hw, hstems'⟩
    · have hkind := hkinds n hn
      have hkind' := hbare.2
      cases n <;> simp [Node.kind] at hkind hkind'
    · have hw' := Tree.mem_subtrees_trans hw hu
      exact ⟨hstems'.isEnd_start hw', hstems'.isEnd_stop hw'⟩
  · intro s hs
    obtain ⟨w, hw, rfl⟩ := hname s hs
    exact ⟨w, Tree.mem_subtrees_trans hw hu, .inr rfl⟩

theorem replacesOneRange (hs : source.Parsed text root) (ht : Model.Readable text root)
    (h : rule.visit source options = .ok vs) (hv : v ∈ vs) : v.ReplacesOneRange root := by
  obtain ⟨way, n, found, hvisit, hreport, hv⟩ := Listener.exists_of_mem_run_atNodes h hv
  have hn := Node.mem_preorder_of_mem_visits hvisit
  split at hreport
  · next e a hparent =>
    have he : .element e ∈ source.root.preorder := by
      rcases Node.parent_of_mem_visits hvisit with ⟨hway, -⟩ | ⟨p, hp, hway, -⟩
      · rw [hway] at hparent
        cases hparent
      · rw [Option.some.inj (hparent.symm.trans hway)]
        exact hp
    obtain ⟨hattributes, hname⟩ := isEnd_of_element hs ht he
    obtain ⟨u, hu, hstems⟩ := hs.exists_stems ht hn (by simp [Node.kind])
    exact replacesOneRange_of_checkAttribute hattributes hname (hstems.isEnd_start hu)
      (hstems.isEnd_stop hu) hreport hv
  · cases hreport
    cases hv

end DefaultProps

/-! ### Nodes that are replaced -/

/-- A violation that puts a text in the place of a node that rules listen to. -/
theorem replacesOneRange_of_node (hs : source.Parsed text root) (ht : Model.Readable text root)
    {n : Node} (hn : n ∈ source.root.preorder)
    (hkind : n.kind ∉ [NodeKind.chunk, .specifier, .literal, .other]) {replacement : String}
    {e : Edit} (he : Edit.between n.start n.stop replacement = .ok e) (hedits : v.edits = [e]) :
    v.ReplacesOneRange root := by
  obtain ⟨u, hu, hstems⟩ := hs.exists_stems ht hn hkind
  exact .inr ⟨_, _, replacement, e, hedits, he, hstems.isEnd_start hu, hstems.isEnd_stop hu⟩

namespace ArrowBody

theorem replacesOneRange (hs : source.Parsed text root) (ht : Model.Readable text root)
    (h : rule.visit source options = .ok vs) (hv : v ∈ vs) : v.ReplacesOneRange root := by
  obtain ⟨way, n, found, hvisit, hreport, hv⟩ := Listener.exists_of_mem_run_atNodes h hv
  have hn := Node.mem_preorder_of_mem_visits hvisit
  cases n with
  | arrow f =>
    simp only [checkArrow] at hreport
    cases hsole : soleExpression? f with
    | none =>
      rw [hsole] at hreport
      cases hreport
      cases hv
    | some p =>
      obtain ⟨block, expression⟩ := p
      simp only [hsole] at hreport
      by_cases hcomments : block.hasComments = true
      · rw [if_pos hcomments] at hreport
        cases hreport
        cases List.mem_singleton.1 hv
        exact .inl rfl
      · rw [if_neg hcomments] at hreport
        obtain ⟨replacement, -, hreport⟩ := Outcome.exists_of_bind_eq_ok hreport
        obtain ⟨e, he, hreport⟩ := Outcome.exists_of_bind_eq_ok hreport
        cases hreport
        cases List.mem_singleton.1 hv
        exact replacesOneRange_of_node hs ht hn (by simp [Node.kind]) he rfl
  | _ =>
    cases hreport
    cases hv

end ArrowBody

namespace Wrapper

theorem replacesOneRange_of_report (hs : source.Parsed text root) (ht : Model.Readable text root)
    {visit : Visit Unit} {e : Element Node} {child : Node}
    (he : .element e ∈ source.root.preorder) (h : report visit e child = .ok found)
    (hv : v ∈ found) : v.ReplacesOneRange root := by
  rw [report] at h
  by_cases hreplaces : isReplacement visit.parent? child = true
  · rw [if_pos hreplaces] at h
    obtain ⟨replacement, -, h⟩ := Outcome.exists_of_bind_eq_ok h
    obtain ⟨edit, hedit, h⟩ := Outcome.exists_of_bind_eq_ok h
    cases h
    cases List.mem_singleton.1 hv
    exact replacesOneRange_of_node hs ht he (by simp [Node.kind]) hedit rfl
  · rw [if_neg hreplaces] at h
    cases h
    cases List.mem_singleton.1 hv
    exact .inl rfl

theorem replacesOneRange (hs : source.Parsed text root) (ht : Model.Readable text root)
    (h : rule.visit source options = .ok vs) (hv : v ∈ vs) : v.ReplacesOneRange root := by
  obtain ⟨way, n, found, hvisit, hreport, hv⟩ := Listener.exists_of_mem_run_atNodes h hv
  have hn := Node.mem_preorder_of_mem_visits hvisit
  cases n with
  | element e =>
    simp only [checkElement] at hreport
    by_cases hself : e.selfClosing = true
    · rw [if_pos hself] at hreport
      cases hreport
      cases hv
    · rw [if_neg hself] at hreport
      obtain ⟨elements, -, hreport⟩ := Outcome.exists_of_bind_eq_ok hreport
      obtain ⟨covered, -, hreport⟩ := Outcome.exists_of_bind_eq_ok hreport
      split at hreport
      · cases hreport
        cases hv
      · split at hreport
        · exact replacesOneRange_of_report hs ht hn hreport hv
        · exact replacesOneRange_of_report hs ht hn hreport hv
        · cases hreport
          cases hv
  | _ =>
    cases hreport
    cases hv

end Wrapper

/-! ### Rules that only report -/

namespace RawElements

theorem edits_eq_nil (h : rule.visit source options = .ok vs) (hv : v ∈ vs) : v.edits = [] := by
  obtain ⟨way, n, found, -, hreport, hv⟩ := Listener.exists_of_mem_run_atNodes h hv
  cases n with
  | element e =>
    simp only [checkElement] at hreport
    by_cases hfragment : e.isFragment = true
    · rw [if_pos hfragment] at hreport
      cases hreport
      cases hv
    · rw [if_neg hfragment] at hreport
      obtain ⟨allowed, -, hreport⟩ := Outcome.exists_of_bind_eq_ok hreport
      split at hreport
      · cases hreport
        cases hv
      · obtain ⟨table, -, hreport⟩ := Outcome.exists_of_bind_eq_ok hreport
        split at hreport
        · cases hreport
          cases hv
        · cases hreport
          cases hv
        · cases hreport
          split at hv
          · cases hv
          · cases List.mem_singleton.1 hv
            rfl
  | _ =>
    cases hreport
    cases hv

end RawElements

namespace ComponentTypes

theorem edits_eq_nil (h : rule.visit source options = .ok vs) (hv : v ∈ vs) : v.edits = [] := by
  obtain ⟨way, n, found, -, hreport, hv⟩ := Listener.exists_of_mem_run_atNodes h hv
  cases n with
  | declarator d =>
    cases hreport
    rw [checkDeclarator] at hv
    split at hv
    · cases List.mem_singleton.1 hv
      rfl
    · cases hv
  | _ =>
    cases hreport
    cases hv

end ComponentTypes

end TsxLint
