/-
Module: TsxLint.Proofs.Rules.CollapsedWrappers
Purpose: What is lost when a wrapper is replaced by its child, and how far the text shrinks.
Main exports: Wrapper.IsPassedOver, Wrapper.IsCollapsed, Wrapper.exists_isCollapsed,
  Wrapper.Collapses, Wrapper.comment_kept_iff
-/
import TsxLint.Proofs.Edit.Cuts
import TsxLint.Proofs.Rules.WrapperReports
import TsxLint.Proofs.Source.Origins
import TsxLint.Proofs.Source.Slices

namespace TsxLint.Wrapper

open Model

/-!
A wrapper is replaced by the source text of one child of its tree.  All other children are passed
over: the tags, comments beside them, blank text, and pairs of braces without an expression.  What
is written in these is lost, and a pair of braces without an expression may well hold a comment.

The tags alone make the wrapper longer than its child, so the text shrinks with every wrapper that
is collapsed.
-/

variable {d : Document} {text : String} {root t kept c : Tree} {source : SourceFile}
  {options : Options} {e : Element Node} {vs : List Violation} {v : Violation} {edit : Edit}

/-! ### Children that do not count -/

/-- A child of an element's tree is none of its contents, or contents that do not count. -/
inductive IsPassedOver (d : Document) (t k : Tree) : Prop
  | unnamed (h : k.named = false)
  | comment (h : k.isComment = true)
  | tag (type : t.type = "jsx_element") (h : isTag k = true)
  | blank {s : String} (type : k.type = "jsx_text" ∨ k.type = "html_character_reference")
      (text : textOf d k = .ok s) (h : Text.isBlankText s = true)
  | emptyBraces (type : k.type = "jsx_expression") (h : k.kids = [])

/-- Contents that do not count are blank text or braces without an expression. -/
theorem isPassedOver_of_insignificant {k : Tree} {n : Node} (hfrom : IsFrom d k n)
    (hn : Element.isSignificant n = false) : IsPassedOver d t k := by
  cases n with
  | text s =>
    cases hfrom.assembled (by simp [Node.kind]) with
    | text type hvalue =>
      refine .blank type hvalue ?_
      simpa [Element.isSignificant, MarkupText.isWhitespace] using hn
  | container b =>
    cases hfrom.assembled (by simp [Node.kind]) with
    | container type hexpression =>
      cases hhead : k.kids.head? with
      | none => exact .emptyBraces type (List.head?_eq_none_iff.1 hhead)
      | some first =>
        rw [hhead] at hexpression
        cases hexpression
        cases hn
  | _ => cases hn

/-- What the contents of an element leave out is passed over. -/
theorem isPassedOver_of_not_mem_kids {k : Tree} (hk : k ∈ t.children) (hnot : k ∉ t.kids) :
    IsPassedOver d t k := by
  by_cases hnamed : k.named = true
  · by_cases hcomment : k.isComment = true
    · exact .comment hcomment
    · exact absurd (List.mem_filter.2 ⟨hk, by simp [hnamed, hcomment]⟩) hnot
  · exact .unnamed (Bool.eq_false_iff.2 hnamed)

/-- If a test keeps one of the things that are made, it comes from one source, and what is made of
any other is dropped. -/
theorem exists_sole_of_forall₂ {α β : Type} {R : α → β → Prop} {test : β → Bool} {xs : List α}
    {ys : List β} (h : List.Forall₂ R xs ys) {y : β} (hsole : ys.filter test = [y]) :
    ∃ x ∈ xs, R x y ∧ ∀ z ∈ xs, z = x ∨ ∃ w, R z w ∧ test w = false := by
  induction h with
  | nil => cases hsole
  | @cons first made xs ys hfirst hrest ih =>
    by_cases htest : test made = true
    · rw [List.filter_cons_of_pos htest] at hsole
      obtain ⟨rfl, hnone⟩ := List.cons.inj hsole
      refine ⟨first, List.mem_cons_self, hfirst, fun z hz => ?_⟩
      rcases List.mem_cons.1 hz with rfl | hz
      · exact .inl rfl
      · obtain ⟨w, hw, hzw⟩ := Outcome.exists_left_of_mem hrest.flip hz
        exact .inr ⟨w, hzw, Bool.eq_false_iff.2 (List.filter_eq_nil_iff.1 hnone w hw)⟩
    · rw [List.filter_cons_of_neg htest] at hsole
      obtain ⟨x, hx, hxy, hothers⟩ := ih hsole
      refine ⟨x, List.mem_cons_of_mem _ hx, hxy, fun z hz => ?_⟩
      rcases List.mem_cons.1 hz with rfl | hz
      · exact .inr ⟨made, hfirst, Bool.eq_false_iff.2 htest⟩
      · exact hothers z hz

/-! ### The child that is kept -/

/-- A child of an element's tree is all of it that counts. -/
structure IsKept (d : Document) (t kept : Tree) : Prop where
  mem : kept ∈ t.children
  counts : ¬ IsPassedOver d t kept
  others : ∀ k ∈ t.children, k = kept ∨ IsPassedOver d t k

/-- What an element or an expression is built of is not passed over, if it is among the contents
and counts. -/
theorem not_isPassedOver {child : Node} (hfrom : IsFrom d kept child)
    (hkept : kept ∈ t.kids) (htag : t.type = "jsx_element" → isTag kept = false)
    (hshape : child.kind = .element ∨ child.kind = .container)
    (hcounts : Element.isSignificant child = true) : ¬ IsPassedOver d t kept := by
  obtain ⟨-, hnamed⟩ := List.mem_filter.1 hkept
  rw [Bool.and_eq_true, Bool.not_eq_true'] at hnamed
  have hassembled := hfrom.assembled (by rcases hshape with h | h <;> simp [h])
  intro hpassed
  cases hpassed with
  | unnamed h => rw [hnamed.1] at h; cases h
  | comment h => rw [hnamed.2] at h; cases h
  | tag type h => rw [htag type] at h; cases h
  | blank type _ _ =>
    cases hassembled <;> simp_all [Node.kind]
  | emptyBraces type h =>
    cases hassembled with
    | container _ hexpression =>
      rw [h] at hexpression
      cases hexpression
      cases hcounts
    | _ => simp_all [Node.kind]

/-- The contents of an element among which one child counts keep that child alone. -/
theorem exists_isKept {trees : List Tree} {body : List Node} {child : Node}
    (hbody : List.Forall₂ (IsFrom d) trees body) (hkids : ∀ k ∈ trees, k ∈ t.kids)
    (htags : ∀ k ∈ trees, t.type = "jsx_element" → isTag k = false)
    (hothers : ∀ k ∈ t.kids, k ∉ trees → IsPassedOver d t k)
    (hsole : body.filter Element.isSignificant = [child])
    (hshape : child.kind = .element ∨ child.kind = .container) :
    ∃ kept, IsKept d t kept ∧ IsFrom d kept child := by
  obtain ⟨kept, hkept, hfrom, hdropped⟩ := exists_sole_of_forall₂ hbody hsole
  have hcounts : Element.isSignificant child = true := by
    have hmem : child ∈ body.filter Element.isSignificant := hsole ▸ List.mem_singleton_self _
    exact (List.mem_filter.1 hmem).2
  refine ⟨kept, ⟨Tree.mem_children_of_mem_kids (hkids kept hkept),
    not_isPassedOver hfrom (hkids kept hkept) (htags kept hkept) hshape hcounts,
    fun k hk => ?_⟩, hfrom⟩
  by_cases hmem : k ∈ trees
  · rcases hdropped k hmem with rfl | ⟨w, hw, hinsignificant⟩
    · exact .inl rfl
    · exact .inr (isPassedOver_of_insignificant hw hinsignificant)
  · by_cases hkid : k ∈ t.kids
    · exact .inr (hothers k hkid hmem)
    · exact .inr (isPassedOver_of_not_mem_kids hk hkid)

/-- A violation puts in the place of an element's tree the source text of the child that is kept. -/
structure IsCollapsed (d : Document) (root : Tree) (v : Violation) (e : Element Node) (edit : Edit)
    (t kept : Tree) : Prop where
  node_eq : v.node = .element e
  tagged : e.selfClosing = false
  mem : t ∈ root.subtrees
  assembled : Assembled d (IsFrom d) t (.element e)
  isKept : IsKept d t kept
  edits_eq : v.edits = [edit]
  start_eq : edit.start = t.start
  stop_eq : edit.stop = t.stop
  text_eq : textOf d kept = .ok edit.text

theorem exists_isKept_of_isWrapper (hassembled : Assembled d (IsFrom d) t (.element e))
    {child : Node} (hwrapper : IsWrapper options e child) :
    ∃ kept, IsKept d t kept ∧ IsFrom d kept child := by
  cases hassembled with
  | element type _ _ _ hbody =>
    refine exists_isKept hbody (fun k hk => List.mem_of_mem_filter hk) (fun k hk _ => ?_)
      (fun k hk hnot => .tag type ?_) hwrapper.sole hwrapper.shape
    · simpa using (List.mem_filter.1 hk).2
    · by_contra htag
      exact hnot (List.mem_filter.2 ⟨hk, by simpa using htag⟩)
  | selfClosing => cases hwrapper.tagged
  | fragment type hbody =>
    refine exists_isKept hbody (fun k hk => hk) (fun k hk htype => ?_)
      (fun k hk hnot => absurd hk hnot) hwrapper.sole hwrapper.shape
    rw [type] at htype
    exact absurd htype (by decide)

theorem exists_isCollapsed (hs : source.Parsed text root)
    (h : rule.visit source options = .ok vs) (hv : v ∈ vs) (hedits : v.edits ≠ []) :
    ∃ e edit t kept, IsCollapsed (Document.ofText text) root v e edit t kept := by
  obtain ⟨e, child, he, hwrapper, hreport⟩ := exists_isReport h hv
  obtain ⟨t, ht, hassembled⟩ := hs.exists_assembled he (by simp [Node.kind, made])
  obtain ⟨kept, hkept, hfrom⟩ := exists_isKept_of_isWrapper hassembled hwrapper
  obtain ⟨edit, hone, htext, hstart, hstop⟩ := hreport.edits_eq.resolve_left hedits
  have hspan : e.span = spanOf (Document.ofText text) t := hassembled.span_eq
  rw [hspan] at hstart hstop
  rw [SourceFile.textOf, hs.document_eq, hfrom.span_eq] at htext
  exact ⟨e, edit, t, kept, hreport.node_eq, hwrapper.tagged, ht, hassembled, hkept, hone,
    Int.ofNat_inj.1 hstart, Int.ofNat_inj.1 hstop, htext⟩

/-! ### What is lost -/

/-- What is below a child of a well-formed tree is not below any other child. -/
theorem mem_kept_iff (ht : t.WellFormed text) (hkept : IsKept d t kept) (hct : c ∈ t.subtrees)
    (hne : c ≠ t) (hextent : c.start < c.stop) :
    c ∈ kept.subtrees ↔ ¬ ∃ k ∈ t.children, IsPassedOver d t k ∧ c ∈ k.subtrees := by
  constructor
  · rintro hc ⟨k, hk, hpassed, hck⟩
    rw [ht.eq_of_mem_subtrees hk hkept.mem hck hc hextent] at hpassed
    exact hkept.counts hpassed
  · intro hnone
    rcases Tree.mem_subtrees_iff.1 hct with rfl | ⟨k, hk, hck⟩
    · exact absurd rfl hne
    · rcases hkept.others k hk with rfl | hpassed
      · exact hck
      · exact absurd ⟨k, hk, hpassed, hck⟩ hnone

/-! ### How far the text shrinks -/

/-- What is copied has as many bytes as the child that is kept. -/
theorem size_of_textOf (hkept : kept.WellFormed text) {s : String}
    (h : textOf (Document.ofText text) kept = .ok s) :
    s.utf8ByteSize + kept.start = kept.stop := by
  have hbytes := congrArg List.length (Document.slice_eq_ok_iff.1 h)
  have hstop : kept.stop ≤ text.utf8ByteSize := hkept.isLaidOut.stop_isValid.le_rawEndPos
  have hle := hkept.isLaidOut.start_le_stop
  simp only [List.length_drop, List.length_take, Edit.length_bytesOf] at hbytes
  omega

/-- A name that is not empty is in an opening tag that is not empty. -/
theorem exists_openingTree (ht : t.WellFormed text) {nameSpan : Option Span} {name : String}
    (h : tagName (Document.ofText text) (openingTree? t) = .ok (name, nameSpan))
    (hname : name ≠ "") : ∃ tag, openingTree? t = some tag ∧ tag.start < tag.stop := by
  cases htag : openingTree? t with
  | none =>
    rw [htag] at h
    cases h
    exact absurd rfl hname
  | some tag =>
    refine ⟨tag, rfl, ?_⟩
    rw [htag, tagName, Option.bind_some] at h
    cases hfield : tag.field? "name" with
    | none =>
      rw [hfield] at h
      cases h
      exact absurd rfl hname
    | some n =>
      rw [hfield] at h
      obtain ⟨s, hs, h⟩ := Outcome.exists_of_bind_eq_ok h
      cases h
      have htag' := ht.of_mem (Tree.mem_subtrees_of_mem_children (openingTree?_mem htag))
      have hn := Tree.mem_children_of_field? hfield
      have hsize := size_of_textOf (htag'.of_mem (Tree.mem_subtrees_of_mem_children hn)) hs
      obtain ⟨hstart, hstop⟩ := htag'.isLaidOut.inside n hn
      have hpos : name.utf8ByteSize ≠ 0 := fun hzero =>
        hname (String.utf8ByteSize_eq_zero_iff.1 hzero)
      omega

/-- An element with a name is longer than what is kept of it, if its opening tag is one. -/
theorem kept_shorter (ht : t.WellFormed text) (hopens : OpensWithTag t)
    (hassembled : Assembled (Document.ofText text) (IsFrom (Document.ofText text)) t (.element e))
    (hname : e.name ≠ "") (hclosed : e.selfClosing = false)
    (hkept : IsKept (Document.ofText text) t kept) :
    kept.stop - kept.start < t.stop - t.start := by
  cases hassembled with
  | element type hopening =>
    obtain ⟨tag, htag, hextent⟩ := exists_openingTree ht hopening hname
    have hmem := openingTree?_mem htag
    have hother : tag ≠ kept := by
      rintro rfl
      exact hkept.counts (.tag type (isTag_of_openingTree? type hopens htag))
    obtain ⟨htagStart, htagStop⟩ := ht.isLaidOut.inside tag hmem
    obtain ⟨hkeptStart, hkeptStop⟩ := ht.isLaidOut.inside kept hkept.mem
    rcases ht.beside_of_mem_children hmem hkept.mem hother with hle | hle <;> omega
  | selfClosing => cases hclosed
  | fragment => exact absurd rfl hname

namespace IsCollapsed

variable (hcollapsed : IsCollapsed (Document.ofText text) root v e edit t kept)

include hcollapsed

/-- A comment in an element is copied exactly if it is in no child that is passed over. -/
theorem comment_mem_iff (hroot : root.WellFormed text) (hc : c ∈ root.subtrees)
    (hleaf : c.children = []) (hextent : c.start < c.stop) (hstart : t.start ≤ c.start)
    (hstop : c.stop ≤ t.stop) :
    (kept.start ≤ c.start ∧ c.stop ≤ kept.stop) ↔
      ¬ ∃ k ∈ t.children, IsPassedOver (Document.ofText text) t k ∧ c ∈ k.subtrees := by
  have ht := hroot.of_mem hcollapsed.mem
  have hchild := hcollapsed.isKept.mem
  have hct : c ∈ t.subtrees :=
    (hroot.mem_subtrees_iff_inside hc hcollapsed.mem hleaf hextent).2 ⟨hstart, hstop⟩
  have hne : c ≠ t := by
    rintro rfl
    rw [hleaf] at hchild
    cases hchild
  rw [← mem_kept_iff ht hcollapsed.isKept hct hne hextent]
  exact (ht.mem_subtrees_iff_inside hct (Tree.mem_subtrees_of_mem_children hchild) hleaf
    hextent).symm

/-- The text that takes the place of an element has the bytes of the child that is kept. -/
theorem size_eq (hroot : root.WellFormed text) :
    edit.text.utf8ByteSize + kept.start = kept.stop :=
  size_of_textOf ((hroot.of_mem hcollapsed.mem).of_mem
    (Tree.mem_subtrees_of_mem_children hcollapsed.isKept.mem)) hcollapsed.text_eq

theorem type_mem : t.type ∈ ["jsx_element", "jsx_fragment"] := by
  cases hcollapsed.assembled with
  | element type => simp [type]
  | selfClosing => cases hcollapsed.tagged
  | fragment type => simp [type]

theorem isAligned (hroot : root.WellFormed text) : edit.IsAligned text := by
  have hlaid := (hroot.of_mem hcollapsed.mem).isLaidOut
  rw [Edit.IsAligned, hcollapsed.start_eq, hcollapsed.stop_eq]
  exact ⟨hlaid.start_isValid, hlaid.stop_isValid⟩

/-- Putting the child in the place of an element with a name makes the text shorter. -/
theorem exists_shorter (hroot : root.WellFormed text) (hopens : OpensWithTag t)
    (hname : e.name ≠ "") :
    edit.text.utf8ByteSize < t.stop - t.start ∧
      ∃ s, Edit.apply text v.edits = .ok s ∧ s.utf8ByteSize < text.utf8ByteSize := by
  have hshorter := kept_shorter (hroot.of_mem hcollapsed.mem) hopens hcollapsed.assembled hname
    hcollapsed.tagged hcollapsed.isKept
  have hsize := hcollapsed.size_eq hroot
  obtain ⟨s, hs, hbytes⟩ := Edit.exists_apply_singleton (hcollapsed.isAligned hroot)
  rw [hcollapsed.start_eq, hcollapsed.stop_eq] at hbytes
  rw [← hcollapsed.edits_eq] at hs
  exact ⟨by omega, s, hs, by omega⟩

end IsCollapsed

/-! ### Chains of fixes -/

/-- One text becomes another by one fix of a wrapper with a name, in a tree in which opening tags
are tags. -/
def Collapses (text later : String) : Prop :=
  ∃ (root : Tree) (source : SourceFile) (options : Options) (vs : List Violation) (v : Violation)
    (e : Element Node), source.Parsed text root ∧ Readable text root ∧
      rule.visit source options = .ok vs ∧ v ∈ vs ∧ v.edits ≠ [] ∧ v.node = .element e ∧
      e.name ≠ "" ∧ Edit.apply text v.edits = .ok later

theorem Collapses.lt {text later : String} (h : Collapses text later) :
    later.utf8ByteSize < text.utf8ByteSize := by
  obtain ⟨root, source, options, vs, v, e, hs, hroot, hvisit, hv, hedits, hnode, hname, happly⟩ := h
  obtain ⟨f, edit, t, kept, hcollapsed⟩ := exists_isCollapsed hs hvisit hv hedits
  cases hcollapsed.node_eq.symm.trans hnode
  obtain ⟨-, s, hs, hlt⟩ := hcollapsed.exists_shorter hroot.wellFormed
    (hroot.opens t hcollapsed.mem) hname
  cases hs.symm.trans happly
  exact hlt

/-- A chain of fixes has at most as many steps as the text has bytes. -/
theorem length_le_of_isChain {text : String} {later : List String}
    (h : (text :: later).IsChain Collapses) : later.length ≤ text.utf8ByteSize := by
  induction later generalizing text with
  | nil => exact Nat.zero_le _
  | cons next later ih =>
    obtain ⟨hfirst, hrest⟩ := List.isChain_cons_cons.1 h
    have hlt := hfirst.lt
    have hle := ih hrest
    rw [List.length_cons]
    omega

/-- Every violation of this rule with an edit puts the source text of one child in the place of an
element.  Of the comments inside the element, those inside children that are passed over are lost
and the others are kept.  What is put in is shorter, if the element has a name and its opening tag
is one, and so is the text afterwards; so a chain of such fixes ends. -/
theorem comment_kept_iff (hs : source.Parsed text root) (hroot : root.WellFormed text)
    (h : rule.visit source options = .ok vs) (hv : v ∈ vs) (hedits : v.edits ≠ []) :
    (∃ e edit t kept, IsCollapsed (Document.ofText text) root v e edit t kept ∧
      (∀ c ∈ root.subtrees, c.isComment = true → c.children = [] → c.start < c.stop →
        t.start ≤ c.start → c.stop ≤ t.stop →
          ((kept.start ≤ c.start ∧ c.stop ≤ kept.stop) ↔
            ¬ ∃ k ∈ t.children, IsPassedOver (Document.ofText text) t k ∧ c ∈ k.subtrees)) ∧
      edit.text.utf8ByteSize + kept.start = kept.stop ∧
      (OpensWithTag t → e.name ≠ "" → edit.text.utf8ByteSize < t.stop - t.start ∧
        ∃ s, Edit.apply text v.edits = .ok s ∧ s.utf8ByteSize < text.utf8ByteSize)) ∧
    ∀ later, (text :: later).IsChain Collapses → later.length ≤ text.utf8ByteSize := by
  obtain ⟨e, edit, t, kept, hcollapsed⟩ := exists_isCollapsed hs h hv hedits
  refine ⟨⟨e, edit, t, kept, hcollapsed, ?_, hcollapsed.size_eq hroot,
    hcollapsed.exists_shorter hroot⟩, fun later => length_le_of_isChain⟩
  intro c hc _ hleaf hextent hstart hstop
  exact hcollapsed.comment_mem_iff hroot hc hleaf hextent hstart hstop

/-! ### A comment below the child and one beside it -/

/-- A comment at a place. -/
def noteTree (start stop : Nat) : Tree := .node "comment" true "" start stop []

/-- A pair of braces around a comment. -/
def bracedNote (start stop : Nat) : Tree :=
  .node "jsx_expression" true "" start stop
    [.node "\x7b" false "" start (start + 1) [], noteTree (start + 1) (stop - 1),
      .node "\x7d" false "" (stop - 1) stop []]

/-- A wrapper around an element that holds a comment. -/
def noteBelow : Tree := pairTree 3 0 30 [pairTree 1 5 24 [bracedNote 8 20]]

/-- A wrapper around a comment and an element. -/
def noteBeside : Tree := pairTree 3 0 27 [bracedNote 5 17, tagTree 17]

theorem not_isPassedOver_of_type {k : Tree} (hnamed : k.named = true)
    (htype : k.type = "jsx_element" ∨ k.type = "jsx_self_closing_element") :
    ¬ IsPassedOver d t k := by
  intro hpassed
  cases hpassed with
  | unnamed h => rw [hnamed] at h; cases h
  | comment h => rcases htype with htype | htype <;> simp [Tree.isComment, htype] at h
  | tag _ h => rcases htype with htype | htype <;> simp [isTag, htype] at h
  | blank type => rcases htype with htype | htype <;> simp [htype] at type
  | emptyBraces type => rcases htype with htype | htype <;> simp [htype] at type

/-- The wrapper is the only element at its place. -/
theorem eq_noteBelow (ht : t ∈ (soleFile noteBelow).subtrees) (hstart : t.start = 0)
    (htype : t.type ∈ ["jsx_element", "jsx_fragment"]) : t = noteBelow := by
  have hsole : (soleFile noteBelow).subtrees.filter (fun u =>
      decide (u.start = 0 ∧ u.type ∈ ["jsx_element", "jsx_fragment"])) = [noteBelow] := rfl
  apply List.mem_singleton.1
  rw [← hsole]
  exact List.mem_filter.2 ⟨ht, decide_eq_true ⟨hstart, htype⟩⟩

/-- A comment in the child of a wrapper is kept. -/
theorem comment_kept_below :
    ∃ source v e edit t kept, SourceFile.ofTree default .tsx "<div><b>\x7b/* keep */\x7d</b></div>"
        ⟨soleFile noteBelow, false⟩ = .ok source ∧
      rule.visitPlain source = .ok [v] ∧
      IsCollapsed (Document.ofText "<div><b>\x7b/* keep */\x7d</b></div>") (soleFile noteBelow) v e
        edit t kept ∧
      kept.start ≤ 9 ∧ 19 ≤ kept.stop := by
  have hreported : rule.reported .tsx "<div><b>\x7b/* keep */\x7d</b></div>" (soleFile noteBelow)
      (fun _ v => v.edits) = some [[⟨0, 30, "<b>\x7b/* keep */\x7d</b>", by omega⟩]] := by
    decide +kernel
  have hwell : (soleFile noteBelow).WellFormed "<div><b>\x7b/* keep */\x7d</b></div>" := by decide
  obtain ⟨source, v, hsource, hvisit, hedits⟩ := Rule.exists_of_reported hreported
  obtain ⟨⟨e, edit, t, kept, hcollapsed, hcomments, -⟩, -⟩ :=
    comment_kept_iff (SourceFile.parsed_of_ofTree hsource) hwell hvisit List.mem_cons_self
      (by simp [hedits])
  have hedit : edit = ⟨0, 30, "<b>\x7b/* keep */\x7d</b>", by omega⟩ :=
    (List.cons.inj (hcollapsed.edits_eq.symm.trans hedits)).1
  obtain rfl := eq_noteBelow hcollapsed.mem (by rw [← hcollapsed.start_eq, hedit])
    hcollapsed.type_mem
  have hnote : noteTree 9 19 ∈ (soleFile noteBelow).subtrees := by
    simp [soleFile, noteBelow, pairTree, bracedNote, Tree.subtrees, Tree.subtreesOf, noteTree]
  have hpassed : ∀ d, ¬ ∃ k ∈ noteBelow.children, IsPassedOver d noteBelow k ∧
      noteTree 9 19 ∈ k.subtrees := by
    rintro d ⟨k, hk, hpassed, hbelow⟩
    have hk' := Tree.mem_subtrees_trans (Tree.mem_subtrees_of_mem_children hk) hcollapsed.mem
    obtain ⟨hstart, hstop⟩ := (hwell.of_mem hk').inside hbelow
    rcases List.mem_cons.1 hk with rfl | hk
    · exact absurd hstop (by decide)
    · rcases List.mem_cons.1 hk with rfl | hk
      · exact not_isPassedOver_of_type rfl (.inl rfl) hpassed
      · obtain rfl := List.mem_singleton.1 hk
        exact absurd hstart (by decide)
  have hkept := (hcomments _ hnote rfl rfl (by decide) (by decide) (by decide)).2 (hpassed _)
  exact ⟨source, v, e, edit, noteBelow, kept, hsource, hvisit, hcollapsed, hkept⟩

/-- A comment in braces beside the child of a wrapper is lost. -/
theorem comment_lost_beside :
    ∃ source v edit, (soleFile noteBeside).WellFormed "<div>\x7b/* keep */\x7d<b/></div>" ∧
      SourceFile.ofTree default .tsx "<div>\x7b/* keep */\x7d<b/></div>"
        ⟨soleFile noteBeside, false⟩ = .ok source ∧
      rule.visitPlain source = .ok [v] ∧ v.edits = [edit] ∧
      edit.start = noteBeside.start ∧ edit.stop = noteBeside.stop ∧ edit.text = "<b/>" ∧
      IsKept (Document.ofText "<div>\x7b/* keep */\x7d<b/></div>") noteBeside (tagTree 17) ∧
      textOf (Document.ofText "<div>\x7b/* keep */\x7d<b/></div>") (tagTree 17) = .ok "<b/>" ∧
      noteTree 6 16 ∈ noteBeside.subtrees ∧ (noteTree 6 16).isComment = true ∧
      ¬ ((tagTree 17).start ≤ (noteTree 6 16).start ∧
        (noteTree 6 16).stop ≤ (tagTree 17).stop) := by
  have hreported : rule.reported .tsx "<div>\x7b/* keep */\x7d<b/></div>" (soleFile noteBeside)
      (fun _ v => v.edits) = some [[⟨0, 27, "<b/>", by omega⟩]] := by
    decide +kernel
  have hwell : (soleFile noteBeside).WellFormed "<div>\x7b/* keep */\x7d<b/></div>" := by decide
  obtain ⟨source, v, hsource, hvisit, hedits⟩ := Rule.exists_of_reported hreported
  refine ⟨source, v, _, hwell, hsource, hvisit, hedits, rfl, rfl, rfl, ⟨?_, ?_, ?_⟩,
    Document.slice_eq_ok_iff.2 (by decide +kernel), ?_, rfl, by decide⟩
  · simp [noteBeside, pairTree, Tree.children]
  · exact not_isPassedOver_of_type rfl (.inr rfl)
  · intro k hk
    simp only [noteBeside, pairTree, Tree.children, List.cons_append, List.nil_append,
      List.mem_cons, List.not_mem_nil, or_false] at hk
    rcases hk with rfl | rfl | rfl | rfl
    · exact .inr (.tag rfl rfl)
    · exact .inr (.emptyBraces rfl rfl)
    · exact .inl rfl
    · exact .inr (.tag rfl rfl)
  · simp [noteBeside, pairTree, bracedNote, noteTree, Tree.subtrees, Tree.subtreesOf]

end TsxLint.Wrapper
