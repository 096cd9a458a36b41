/-
Module: TsxLint.Proofs.Rules.SpacingClosure
Purpose: All edits of the two spacing rules can be made at once, and then every gap is wide enough.
Main exports: SiblingSpacing.FillsGaps, SiblingSpacing.StandsBetween,
  SiblingSpacing.spacing_closes_in_one_pass
-/
import TsxLint.Proofs.Edit.Places
import TsxLint.Proofs.Rules.SpacingReports

namespace TsxLint.SiblingSpacing

/-!
The edits of both rules fill gaps between siblings, and no two gaps touch.  So all of them can be
applied in one pass.  What they replace and what they write is white space, so nothing else changes;
and since no edit reaches over a token on a side of a gap, the tokens are found again in the text
that comes out, with what was written between them.
-/

variable {text out : String} {root : Tree} {source : SourceFile} {indent : String}
  {e f : Edit} {edits others : List Edit} {p q : Node × Node} {ps qs : List (Node × Node)}
  {a b x : Token}

/-- An edit fills the gap between two tokens. -/
def Fills (before behind : Token) (e : Edit) : Prop :=
  (e.start : Int) = before.span.stop ∧ (e.stop : Int) = behind.span.start

/-- Two tokens stand in the text that edits make, with something between them.  Each begins where
that ends what the edits make of the text in front of it. -/
def StandsBetween (source : SourceFile) (edits : List Edit) (out : String)
    (before behind : Token) (between : List UInt8) : Prop :=
  ∃ head tail,
    Edit.inFrontOf (Edit.bytesOf source.text) edits before.span.start.toNat = .ok head ∧
    Edit.inFrontOf (Edit.bytesOf source.text) edits behind.span.start.toNat =
      .ok (head ++ Edit.bytesOf before.text ++ between) ∧
    Edit.bytesOf out =
      head ++ Edit.bytesOf before.text ++ between ++ Edit.bytesOf behind.text ++ tail

/-! ### Edits that fill gaps -/

/-- White space with two line feeds. -/
def IsBlankLine (s : String) : Prop := Text.isBlankText s = true ∧ s.toList.count '\n' = 2

theorem isBlankLine_newlines (source : SourceFile) (blank : Text.isBlankText indent = true)
    (oneLine : '\n' ∉ indent.toList) :
    IsBlankLine (source.newline ++ source.newline ++ indent) := by
  have hcount := List.count_eq_zero.2 oneLine
  have hblank : indent.toList.all Text.isBlank = true := blank
  rw [SourceFile.newline]
  split <;> simp [IsBlankLine, Text.isBlankText, hcount, hblank] <;> decide

/-- An edit puts a blank line into the gap between two siblings, which holds nothing but white
space. -/
structure FillsGap (source : SourceFile) (p : Node × Node) (before behind : Token) (e : Edit) :
    Prop where
  sides : source.AreSides p before behind
  fills : Fills before behind e
  filler : IsBlankLine e.text
  blank : ∃ gap, source.document.slice before.span.stop behind.span.start = .ok gap ∧
    Text.isBlankText gap = true

/-- Edits fill gaps between siblings, and none of them touches another. -/
structure FillsGaps (source : SourceFile) (ps : List (Node × Node)) (edits : List Edit) : Prop where
  untouched : Edit.Untouched edits
  fills : ∀ e ∈ edits, ∃ p ∈ ps, ∃ a b, FillsGap source p a b e

/-- Edits that fill gaps apart from each other do not touch. -/
theorem conflicts_eq_false {a' b' : Token} (hapart : source.AreApart p q)
    (he : FillsGap source p a b e) (hf : FillsGap source q a' b' f) : e.conflicts f = false := by
  have hbetween := hapart a b a' b' he.sides hf.sides
  obtain ⟨hstart, hstop⟩ := he.fills
  obtain ⟨hstart', hstop'⟩ := hf.fills
  rw [Bool.eq_false_iff, Ne, Edit.conflicts_iff]
  omega

theorem FillsGaps.mono (h : FillsGaps source ps edits) (hsub : ps ⊆ qs) :
    FillsGaps source qs edits where
  untouched := h.untouched
  fills e he := by
    obtain ⟨p, hp, hfills⟩ := h.fills e he
    exact ⟨p, hsub hp, hfills⟩

theorem FillsGaps.append (h : FillsGaps source ps edits) (hothers : FillsGaps source qs others)
    (apart : ∀ p ∈ ps, ∀ q ∈ qs, source.AreApart p q) :
    FillsGaps source (ps ++ qs) (edits ++ others) where
  untouched := by
    refine List.pairwise_append.2 ⟨h.untouched, hothers.untouched, fun e he f hf => ?_⟩
    obtain ⟨p, hp, a, b, hfill⟩ := h.fills e he
    obtain ⟨q, hq, a', b', hfill'⟩ := hothers.fills f hf
    exact conflicts_eq_false (apart p hp q hq) hfill hfill'
  fills e he := by
    rcases List.mem_append.1 he with he | he
    · exact (h.mono (List.subset_append_left ps qs)).fills e he
    · exact (hothers.mono (List.subset_append_right ps qs)).fills e he

theorem IsReport.fillsGaps {v : Violation} (h : IsReport source indent p a b v)
    (sides : source.AreSides p a b)
    (filler : IsBlankLine (source.newline ++ source.newline ++ indent)) :
    FillsGaps source [p] v.edits := by
  cases h with
  | @filled gap e node hgap blank edits fills =>
    obtain ⟨hstart, hstop, htext⟩ := Edit.between_eq_ok_iff.1 fills
    rw [edits]
    refine ⟨List.pairwise_singleton _ _, List.forall_mem_singleton.2 ?_⟩
    exact ⟨p, List.mem_cons_self, a, b, sides, ⟨hstart, hstop⟩, htext ▸ filler, gap, hgap, blank⟩
  | kept node hgap solid edits =>
    rw [edits]
    exact ⟨.nil, by simp⟩

/-- The edits of all reports on siblings fill gaps. -/
theorem Reports.fillsGaps {vs : List Violation} (h : Reports source indent ps vs)
    (apart : ps.Pairwise source.AreApart)
    (filler : IsBlankLine (source.newline ++ source.newline ++ indent)) :
    FillsGaps source ps (vs.flatMap Violation.edits) := by
  induction h with
  | nil => exact ⟨.nil, by simp⟩
  | close sides feeds report rest ih =>
    rw [List.flatMap_cons]
    refine (report.fillsGaps sides filler).append (ih apart.of_cons) ?_
    exact List.forall_mem_singleton.2 fun q hq => List.rel_of_pairwise_cons apart hq
  | far feeds rest ih => exact (ih apart.of_cons).mono (List.subset_cons_self _ _)

/-! ### The text that comes out -/

section Filled

variable (h : source.ReadInOrder text root)
include h

theorem isAligned_of_fills (ha : a ∈ source.tokens) (hb : b ∈ source.tokens)
    (hfills : Fills a b e) : e.IsAligned text := by
  obtain ⟨u, hu, hspan⟩ := h.parsed.exists_of_mem_tokens ha
  obtain ⟨v, hv, hspan'⟩ := h.parsed.exists_of_mem_tokens hb
  obtain ⟨hstart, hstop⟩ := hfills
  rw [hspan] at hstart
  rw [hspan'] at hstop
  have hwell := h.readable.wellFormed
  rw [Edit.IsAligned, Int.ofNat_inj.1 hstart, Int.ofNat_inj.1 hstop]
  exact ⟨(hwell.of_mem hu).isLaidOut.stop_isValid, (hwell.of_mem hv).isLaidOut.start_isValid⟩

theorem swapsBlanks_of_fillsGap (hfills : FillsGap source p a b e) : e.SwapsBlanks text := by
  obtain ⟨gap, hgap, hblank⟩ := hfills.blank
  obtain ⟨hstart, hstop⟩ := hfills.fills
  rw [h.parsed.document_eq, ← hstart, ← hstop, Document.slice_eq_ok_iff] at hgap
  exact ⟨hfills.filler.1, gap, hgap, hblank⟩

/-- An edit that ends in front of the end of a token does not reach into it. -/
theorem le_start_of_fills (hb : b ∈ source.tokens) (hx : x ∈ source.tokens)
    (hfills : Fills a b e) (hlt : (e.stop : Int) < x.span.stop) :
    (e.stop : Int) ≤ x.span.start := by
  have hextent := h.hasTokensInOrder.extent b hb
  obtain ⟨-, hstop⟩ := hfills
  rcases h.hasTokensInOrder.eq_or_beside hb hx with rfl | hbefore | hbehind <;> omega

/-- An edit that begins behind the beginning of a token does not reach into it. -/
theorem stop_le_of_fills (ha : a ∈ source.tokens) (hx : x ∈ source.tokens)
    (hfills : Fills a b e) (hlt : x.span.start < (e.start : Int)) :
    x.span.stop ≤ (e.start : Int) := by
  have hextent := h.hasTokensInOrder.extent a ha
  obtain ⟨hstart, -⟩ := hfills
  rcases h.hasTokensInOrder.eq_or_beside ha hx with rfl | hbefore | hbehind <;> omega

theorem isAligned_of_fillsGaps (hfills : FillsGaps source ps edits) :
    ∀ e ∈ edits, e.IsAligned text := by
  intro e he
  obtain ⟨p, -, a, b, hfill⟩ := hfills.fills e he
  exact isAligned_of_fills h hfill.sides.last.mem hfill.sides.first.mem hfill.fills

/-- No edit lies between the beginning of the token in front of a gap and the gap. -/
theorem clear_in_front (hfills : FillsGaps source ps edits) (he : e ∈ edits)
    (ha : a ∈ source.tokens) (hfill : Fills a b e) (hf : f ∈ edits) :
    (f.stop : Int) ≤ a.span.start ∨ e.start ≤ f.start := by
  have hrange := e.start_le_stop
  obtain ⟨hstart, -⟩ := hfill
  rcases hfills.untouched.eq_or_lt hf he with rfl | hbefore | hbehind
  · exact .inr (Nat.le_refl _)
  · obtain ⟨q, -, a', b', hother⟩ := hfills.fills f hf
    exact .inl (le_start_of_fills h hother.sides.first.mem ha hother.fills (by omega))
  · exact .inr (by omega)

/-- No edit lies between a gap and the end of the token behind it. -/
theorem clear_behind (hfills : FillsGaps source ps edits) (he : e ∈ edits)
    (hb : b ∈ source.tokens) (hfill : Fills a b e) (hf : f ∈ edits) :
    f.stop ≤ e.stop ∨ b.span.stop ≤ (f.start : Int) := by
  have hrange := e.start_le_stop
  obtain ⟨-, hstop⟩ := hfill
  rcases hfills.untouched.eq_or_lt hf he with rfl | hbefore | hbehind
  · exact .inl (Nat.le_refl _)
  · exact .inl (by omega)
  · obtain ⟨q, -, a', b', hother⟩ := hfills.fills f hf
    exact .inr (stop_le_of_fills h hother.sides.last.mem hb hother.fills (by omega))

/-- The tokens on both sides of a gap that is filled stand in the text that comes out, with the text
of the edit between them. -/
theorem standsBetween_of_fillsGaps (hfills : FillsGaps source ps edits)
    (happly : Edit.apply text edits = .ok out) (he : e ∈ edits) (ha : a ∈ source.tokens)
    (hb : b ∈ source.tokens) (hfill : Fills a b e) :
    StandsBetween source edits out a b (Edit.bytesOf e.text) := by
  have hextent := h.hasTokensInOrder.extent a ha
  have hextent' := h.hasTokensInOrder.extent b hb
  have hpositive := h.parsed.zero_le_start ha
  have hpositive' := h.parsed.zero_le_start hb
  have hinside : ∀ f ∈ edits, f.stop ≤ (Edit.bytesOf text).length := fun f hf => by
    rw [Edit.length_bytesOf]
    exact (isAligned_of_fillsGaps h hfills f hf).stop_le
  have hfront : ∀ f ∈ edits, f.stop ≤ a.span.start.toNat ∨ e.start ≤ f.start := fun f hf => by
    have := clear_in_front h hfills he ha hfill hf
    omega
  have hback : ∀ f ∈ edits, f.stop ≤ e.stop ∨ b.span.stop.toNat ≤ f.start := fun f hf => by
    have := clear_behind h hfills he hb hfill hf
    omega
  obtain ⟨hstart, hstop⟩ := hfill
  obtain ⟨head, tail, hhead, hthrough, hsplice⟩ :=
    Edit.exists_around hfills.untouched hinside he (by omega) (by omega) hfront hback
  -- between the places around the edit the text holds the two tokens
  have hbefore :
      ((Edit.bytesOf text).take e.start).drop a.span.start.toNat = Edit.bytesOf a.text := by
    rw [h.parsed.bytesOf_text ha, ← hstart, Int.toNat_natCast]
  have hbehind :
      ((Edit.bytesOf text).take b.span.stop.toNat).drop e.stop = Edit.bytesOf b.text := by
    rw [h.parsed.bytesOf_text hb, ← hstop, Int.toNat_natCast]
  rw [hbefore] at hthrough hsplice
  rw [hbehind] at hsplice
  refine ⟨head, tail, ?_, ?_, ?_⟩
  · rw [h.parsed.text_eq]
    exact hhead
  · rw [h.parsed.text_eq, ← hstop, Int.toNat_natCast]
    exact hthrough
  · rw [Edit.apply_eq_bind, hsplice] at happly
    exact (Edit.decoded_eq_ok_iff.1 happly).symm

end Filled

/-! ### Both rules at once -/

theorem not_isMultilinePair_of_isMixedPair {x y : Node} (h : isMixedPair x y = true) :
    isMultilinePair x y = false := by
  cases x <;> cases y <;> first | rfl | cases h

/-- The gaps that either rule looks at are apart. -/
theorem areApart_of_covered (h : source.ReadInOrder text root)
    (hp : p ∈ source.siblings.filter fun p => isMixedPair p.1 p.2)
    (hq : q ∈ source.siblings.filter fun p => isMultilinePair p.1 p.2) : source.AreApart p q := by
  obtain ⟨hp, hmixed⟩ := List.mem_filter.1 hp
  obtain ⟨hq, hmultiline⟩ := List.mem_filter.1 hq
  refine h.pairwise_siblings.forall hp hq ?_
  rintro rfl
  rw [not_isMultilinePair_of_isMixedPair hmixed] at hmultiline
  cases hmultiline

/-- The edits of both rules together fill gaps. -/
theorem fillsGaps_of_reports (h : source.ReadInOrder text root) {indent' : String}
    {vs vs' : List Violation}
    (mixed : Reports source indent (source.siblings.filter fun p => isMixedPair p.1 p.2) vs)
    (multiline :
      Reports source indent' (source.siblings.filter fun p => isMultilinePair p.1 p.2) vs')
    (filler : IsBlankLine (source.newline ++ source.newline ++ indent))
    (filler' : IsBlankLine (source.newline ++ source.newline ++ indent')) :
    FillsGaps source source.siblings ((vs ++ vs').flatMap Violation.edits) := by
  rw [List.flatMap_append]
  have hfills := mixed.fillsGaps (h.pairwise_siblings.filter _) filler
  have hfills' := multiline.fillsGaps (h.pairwise_siblings.filter _) filler'
  refine (hfills.append hfills' fun p hp q hq => areApart_of_covered h hp hq).mono ?_
  exact List.append_subset.2 ⟨List.filter_subset_self _, List.filter_subset_self _⟩

/-- What both rules report closes the gaps of a file in one pass: the reports are on the pairs that
each of them covers and that are too close; no two edits of all reports touch; and in the text that
comes out when all of them are made, two line feeds stand between the tokens on both sides of each
gap that an edit fills, and everything but white space is as before. -/
structure ClosesInOnePass (source : SourceFile) (indent indent' : String) (vs vs' : List Violation)
    (out : String) : Prop where
  mixed : Reports source indent (source.siblings.filter fun p => isMixedPair p.1 p.2) vs
  multiline : Reports source indent' (source.siblings.filter fun p => isMultilinePair p.1 p.2) vs'
  untouched : ((vs ++ vs').flatMap Violation.edits).Pairwise fun e f => e.conflicts f = false
  applied : Edit.apply source.text ((vs ++ vs').flatMap Violation.edits) = .ok out
  closed : ∀ p ∈ source.siblings, ∀ a b, source.AreSides p a b →
    ∀ e ∈ (vs ++ vs').flatMap Violation.edits, Fills a b e →
      ∃ between, StandsBetween source ((vs ++ vs').flatMap Violation.edits) out a b between ∧
        between.count 10 = 2
  kept : Text.withoutBlanks out = Text.withoutBlanks source.text

/-- With indentations of white space, both rules together close all gaps in one pass, if the opening
tag of each element is a tag and does not stand between two contents. -/
theorem spacing_closes_in_one_pass {path : FilePath} {language : Language} {tree : ParseTree}
    (laidOut : tree.root.WellFormed text) (opens : tree.root.Everywhere Model.OpensWithTag)
    (outside : tree.root.Everywhere Model.OpensOutside)
    (parsed : SourceFile.ofTree path language text tree = .ok source)
    {options options' : Options} {indent indent' : String}
    (named : options.need "indent" = .ok (.str indent))
    (named' : options'.need "indent" = .ok (.str indent'))
    (blank : Text.isBlankText indent = true) (blank' : Text.isBlankText indent' = true)
    (oneLine : '\n' ∉ indent.toList) (oneLine' : '\n' ∉ indent'.toList) :
    ∃ vs vs' out, besideExpression.visit source options = .ok vs ∧
      beforeMultiline.visit source options' = .ok vs' ∧
      ClosesInOnePass source indent indent' vs vs' out := by
  have h : source.ReadInOrder text tree.root :=
    ⟨SourceFile.parsed_of_ofTree parsed, ⟨laidOut, opens⟩, outside⟩
  obtain ⟨vs, hvs, hmixed⟩ : ∃ vs, besideExpression.visit source options = .ok vs ∧
      Reports source indent (source.siblings.filter fun p => isMixedPair p.1 p.2) vs :=
    exists_reports h named isMixedPair _
  obtain ⟨vs', hvs', hmultiline⟩ : ∃ vs, beforeMultiline.visit source options' = .ok vs ∧
      Reports source indent' (source.siblings.filter fun p => isMultilinePair p.1 p.2) vs :=
    exists_reports h named' isMultilinePair _
  have hfills := fillsGaps_of_reports h hmixed hmultiline
    (isBlankLine_newlines source blank oneLine) (isBlankLine_newlines source blank' oneLine')
  have haligned := isAligned_of_fillsGaps h hfills
  obtain ⟨out, hout⟩ := Edit.exists_apply_eq_ok hfills.untouched.apart haligned
  refine ⟨vs, vs', out, hvs, hvs', hmixed, hmultiline, hfills.untouched, ?_, ?_, ?_⟩
  · rw [h.parsed.text_eq]
    exact hout
  · intro p hp a b hsides e he hfill
    obtain ⟨q, -, a', b', hgap⟩ := hfills.fills e he
    have hcount : (Edit.bytesOf e.text).count 10 = 2 := by
      rw [Edit.count_ten_bytesOf]
      exact hgap.filler.2
    exact ⟨_, standsBetween_of_fillsGaps h hfills hout he hsides.last.mem hsides.first.mem hfill,
      hcount⟩
  · rw [h.parsed.text_eq]
    refine Edit.withoutBlanks_of_apply_eq_ok hfills.untouched.apart haligned (fun e he => ?_) hout
    obtain ⟨q, -, a', b', hgap⟩ := hfills.fills e he
    exact swapsBlanks_of_fillsGap h hgap

/-- An element with an expression, an element behind it, and one that takes two lines. -/
def threeContentsText : String := "<a>\x7bb\x7d<c/><d\n/></a>"

/-- The tree of that text. -/
def threeContents : Tree :=
  .node "program" true "" 0 19
    [.node "jsx_element" true "" 0 19
      [.node "jsx_opening_element" true "open_tag" 0 3 [.node "identifier" true "name" 1 2 []],
        .node "jsx_expression" true "" 3 6
          [.node "\x7b" false "" 3 4 [], .node "identifier" true "" 4 5 [],
            .node "\x7d" false "" 5 6 []],
        .node "jsx_self_closing_element" true "" 6 10
          [.node "<" false "" 6 7 [], .node "identifier" true "name" 7 8 [],
            .node "/>" false "" 8 10 []],
        .node "jsx_self_closing_element" true "" 10 15
          [.node "<" false "" 10 11 [], .node "identifier" true "name" 11 12 [],
            .node "/>" false "" 13 15 []],
        .node "jsx_closing_element" true "close_tag" 15 19
          [.node "identifier" true "name" 17 18 []]]]

/-- The file of a text with a tree, and the edits of both rules for it, under one indentation. -/
def editsOfBoth (indent text : String) (root : Tree) : Option (List Edit) := do
  let source ← (SourceFile.ofTree default .tsx text ⟨root, false⟩).toOption
  let vs ← (besideExpression.visit source [("indent", .str indent)]).toOption
  let vs' ← (beforeMultiline.visit source [("indent", .str indent)]).toOption
  pure ((vs ++ vs').flatMap Violation.edits)

theorem exists_of_editsOfBoth {indent : String} {edits : List Edit}
    (h : editsOfBoth indent text root = some edits) :
    ∃ source vs vs', SourceFile.ofTree default .tsx text ⟨root, false⟩ = .ok source ∧
      besideExpression.visit source [("indent", .str indent)] = .ok vs ∧
      beforeMultiline.visit source [("indent", .str indent)] = .ok vs' ∧
      (vs ++ vs').flatMap Violation.edits = edits := by
  obtain ⟨source, hsource, h⟩ := Option.bind_eq_some_iff.1 h
  obtain ⟨vs, hvs, h⟩ := Option.bind_eq_some_iff.1 h
  obtain ⟨vs', hvs', h⟩ := Option.bind_eq_some_iff.1 h
  exact ⟨source, vs, vs', Outcome.eq_ok_of_toOption_eq_some hsource,
    Outcome.eq_ok_of_toOption_eq_some hvs, Outcome.eq_ok_of_toOption_eq_some hvs',
    Option.some.inj h⟩

/-- Two gaps beside one child, one for each rule, are closed at once. -/
theorem gaps_of_both_rules_close :
    ∃ source vs vs' out,
      SourceFile.ofTree default .tsx threeContentsText ⟨threeContents, false⟩ = .ok source ∧
        besideExpression.visit source [("indent", .str "  ")] = .ok vs ∧
        beforeMultiline.visit source [("indent", .str "  ")] = .ok vs' ∧
        (vs ++ vs').flatMap Violation.edits =
          [⟨6, 6, "\n\n  ", by decide⟩, ⟨10, 10, "\n\n  ", by decide⟩] ∧
        ClosesInOnePass source "  " "  " vs vs' out := by
  have hedits : editsOfBoth "  " threeContentsText threeContents =
      some [⟨6, 6, "\n\n  ", by decide⟩, ⟨10, 10, "\n\n  ", by decide⟩] := by decide +kernel
  obtain ⟨source, vs, vs', hsource, hvs, hvs', hmade⟩ := exists_of_editsOfBoth hedits
  have hnamed : Options.need [("indent", .str "  ")] "indent" = .ok (.str "  ") := rfl
  obtain ⟨ws, ws', out, hws, hws', hcloses⟩ :=
    spacing_closes_in_one_pass (by decide +kernel) (by decide +kernel) (by decide +kernel) hsource
      hnamed hnamed (by decide) (by decide) (by decide) (by decide)
  cases hvs.symm.trans hws
  cases hvs'.symm.trans hws'
  exact ⟨source, vs, vs', out, hsource, hvs, hvs', hmade, hcloses⟩

/-! ### What the rules rely on -/

/-- With an indentation without a line feed, the edits of both rules for a text that is laid out as
a tree touch each other, or change more than white space. -/
def FailsToClose (indent text : String) (root : Tree) : Prop :=
  root.WellFormed text ∧ '\n' ∉ indent.toList ∧
    ∃ source vs vs', SourceFile.ofTree default .tsx text ⟨root, false⟩ = .ok source ∧
      besideExpression.visit source [("indent", .str indent)] = .ok vs ∧
      beforeMultiline.visit source [("indent", .str indent)] = .ok vs' ∧
      ∀ out, ¬ ClosesInOnePass source indent indent vs vs' out

theorem failsToClose_of_editsOfBoth {indent : String} {edits : List Edit}
    (h : editsOfBoth indent text root = some edits)
    (wrong : root.WellFormed text ∧ '\n' ∉ indent.toList ∧
      ((edits.Pairwise fun e f => e.conflicts f = false) →
        (Edit.apply text edits).toOption.map Text.withoutBlanks ≠ some (Text.withoutBlanks text))) :
    FailsToClose indent text root := by
  obtain ⟨laidOut, oneLine, hwrong⟩ := wrong
  obtain ⟨source, vs, vs', hsource, hvs, hvs', rfl⟩ := exists_of_editsOfBoth h
  refine ⟨laidOut, oneLine, source, vs, vs', hsource, hvs, hvs', fun out hcloses => ?_⟩
  have happlied := hcloses.applied
  have hkept := hcloses.kept
  rw [(SourceFile.parsed_of_ofTree hsource).text_eq] at happlied hkept
  refine hwrong hcloses.untouched ?_
  rw [happlied]
  exact congrArg some hkept

/-- An element with an element and an expression in it. -/
def twoContents (start middle stop : Nat) : Tree :=
  .node "jsx_element" true "" start stop
    [.node "jsx_self_closing_element" true "" start middle [],
      .node "jsx_expression" true "" middle stop [.node "identifier" true "" middle stop []]]

/-- A program that is such an element. -/
def twoContentsRoot : Tree := .node "program" true "" 0 2 [twoContents 0 1 2]

/-- An element whose opening tag is no tag: what is in it is read as attributes and as contents. -/
def strayTagRoot : Tree :=
  .node "program" true "" 0 3
    [.node "jsx_element" true "" 0 3
      [.node "tag" true "open_tag" 0 3
        [.node "jsx_attribute" true "" 0 3
          [.node "property_identifier" true "" 0 1 [], twoContents 1 2 3]]]]

/-- An element whose opening tag stands between two contents, with tokens that are white space. -/
def tagBetweenRoot : Tree :=
  .node "program" true "" 0 4
    [.node "jsx_element" true "" 0 4
      [.node "jsx_self_closing_element" true "" 0 1 [],
        .node "jsx_opening_element" true "open_tag" 1 3
          [.node "jsx_attribute" true "" 1 3
            [.node "property_identifier" true "" 1 1 [], twoContents 1 2 3]],
        .node "jsx_expression" true "" 3 4 [.node "identifier" true "" 3 4 []]]]

/-- An indentation that is not white space is written into the text.  With an opening tag that is no
tag a gap is reported twice, and with one between two contents an edit lies inside another. -/
theorem spacing_fails_without_conditions :
    (twoContentsRoot.Everywhere Model.OpensWithTag ∧ twoContentsRoot.Everywhere Model.OpensOutside ∧
        FailsToClose "x" "ab" twoContentsRoot) ∧
      (strayTagRoot.Everywhere Model.OpensOutside ∧ FailsToClose "" "abc" strayTagRoot) ∧
      (tagBetweenRoot.Everywhere Model.OpensWithTag ∧ FailsToClose "" "a  b" tagBetweenRoot) := by
  have hindent : editsOfBoth "x" "ab" twoContentsRoot = some [⟨1, 1, "\n\nx", by decide⟩] := by
    decide +kernel
  have hstray : editsOfBoth "" "abc" strayTagRoot =
      some [⟨2, 2, "\n\n", by decide⟩, ⟨2, 2, "\n\n", by decide⟩] := by decide +kernel
  have hbetween : editsOfBoth "" "a  b" tagBetweenRoot =
      some [⟨1, 3, "\n\n", by decide⟩, ⟨2, 2, "\n\n", by decide⟩] := by decide +kernel
  refine ⟨⟨by decide +kernel, by decide +kernel, ?_⟩, ⟨by decide +kernel, ?_⟩,
    ⟨by decide +kernel, ?_⟩⟩
  · exact failsToClose_of_editsOfBoth hindent (by decide +kernel)
  · exact failsToClose_of_editsOfBoth hstray (by decide +kernel)
  · exact failsToClose_of_editsOfBoth hbetween (by decide +kernel)

end TsxLint.SiblingSpacing
