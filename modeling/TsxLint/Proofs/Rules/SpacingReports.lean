/-
Module: TsxLint.Proofs.Rules.SpacingReports
Purpose: Which neighbouring children are reported as too close, and with which edits.
Main exports: SourceFile.feedsBetween, SiblingSpacing.IsReport, SiblingSpacing.Reports,
  SiblingSpacing.exists_reports
-/
import TsxLint.Proofs.Rules.SiblingGaps
import TsxLint.Rules.SiblingSpacing

namespace TsxLint

/-!
How far two siblings are apart is told by the lines on which the token in front of their gap ends
and the one behind it begins; the difference is the number of line feeds in the gap.  So a pair is
reported if there is at most one, and the edit that goes with the report fills the gap, unless there
is more than white space in it.  None of this can fail in a file that is read in order.
-/

/-! ### Line feeds in a gap -/

theorem Document.rowAt_eq_add (d : Document) {first last : Nat} (h : first ≤ last) :
    d.rowAt last = d.rowAt first + ((d.bytes.take last).drop first).count 10 := by
  rw [rowAt, rowAt, ← List.count_append, ← Nat.min_eq_left h, ← List.take_take,
    Nat.min_eq_left h, List.take_append_drop]

namespace SourceFile

/-- How many line feeds there are between the end of a token and the beginning of another. -/
def feedsBetween (source : SourceFile) (before behind : Token) : Nat :=
  (((Edit.bytesOf source.text).take behind.span.start.toNat).drop before.span.stop.toNat).count 10

variable {text : String} {root : Tree} {source : SourceFile} {p : Node × Node} {a b : Token}

/-- The lines on which the tokens on both sides of a gap stand tell the line feeds between them. -/
theorem ReadInOrder.startLine_sub_endLine (h : source.ReadInOrder text root)
    (hp : p ∈ source.siblings) (hsides : source.AreSides p a b) :
    b.span.startLine - a.span.endLine = source.feedsBetween a b := by
  have hle := h.stop_le_start hp hsides
  obtain ⟨u, hu, ha⟩ := h.parsed.exists_of_mem_tokens hsides.last.mem
  obtain ⟨v, hv, hb⟩ := h.parsed.exists_of_mem_tokens hsides.first.mem
  rw [ha, hb] at hle
  have hrow := Document.rowAt_eq_add (Document.ofText text) (Int.ofNat_le.1 hle)
  rw [feedsBetween, h.parsed.text_eq, ha, hb]
  simp only [Model.spanOf, Document.spanOf, Int.toNat_natCast, hrow]
  change _ = (((((Document.ofText text).bytes.take v.start).drop u.stop).count 10 : Nat) : Int)
  omega

end SourceFile

/-! ### Reports on pairs -/

namespace SiblingSpacing

/-- A violation reports the later of two siblings with a gap between two tokens: with an edit that
fills the gap if there is nothing but white space in it, and with none otherwise. -/
inductive IsReport (source : SourceFile) (indent : String) (p : Node × Node)
    (before behind : Token) (v : Violation) : Prop
  | filled {gap : String} {e : Edit} (node : v.node = p.2)
      (hgap : source.document.slice before.span.stop behind.span.start = .ok gap)
      (blank : Text.isBlankText gap = true) (edits : v.edits = [e])
      (fills : Edit.between before.span.stop behind.span.start
        (source.newline ++ source.newline ++ indent) = .ok e)
  | kept {gap : String} (node : v.node = p.2)
      (hgap : source.document.slice before.span.stop behind.span.start = .ok gap)
      (solid : Text.isBlankText gap = false) (edits : v.edits = [])

/-- Violations for pairs of siblings: one for each pair with tokens and at most one line feed
between them, and none for the others. -/
inductive Reports (source : SourceFile) (indent : String) :
    List (Node × Node) → List Violation → Prop
  | nil : Reports source indent [] []
  | close {p : Node × Node} {ps : List (Node × Node)} {v : Violation} {vs : List Violation}
      {before behind : Token} (sides : source.AreSides p before behind)
      (feeds : source.feedsBetween before behind ≤ 1)
      (report : IsReport source indent p before behind v) (rest : Reports source indent ps vs) :
      Reports source indent (p :: ps) (v :: vs)
  | far {p : Node × Node} {ps : List (Node × Node)} {vs : List Violation}
      (feeds : ∀ before behind, source.AreSides p before behind →
        1 < source.feedsBetween before behind)
      (rest : Reports source indent ps vs) : Reports source indent (p :: ps) vs

variable {text : String} {root : Tree} {source : SourceFile} {indent message : String}
  {p : Node × Node} {a b : Token}

theorem Reports.append {ps qs : List (Node × Node)} {vs ws : List Violation}
    (h : Reports source indent ps vs) (hlater : Reports source indent qs ws) :
    Reports source indent (ps ++ qs) (vs ++ ws) := by
  induction h with
  | nil => exact hlater
  | close sides feeds report _ ih => exact .close sides feeds report ih
  | far feeds _ ih => exact .far feeds ih

theorem reports_flatMap {siblings : Node → List (Node × Node)} {nodes : List Node}
    {founds : List (List Violation)}
    (h : List.Forall₂ (fun n found => Reports source indent (siblings n) found) nodes founds) :
    Reports source indent (nodes.flatMap siblings) founds.flatten := by
  induction h with
  | nil => exact .nil
  | cons hn _ ih =>
    rw [List.flatMap_cons, List.flatten_cons]
    exact hn.append ih

/-- The edits for the gap between two siblings can be made. -/
theorem exists_gapEdits (h : source.ReadInOrder text root) (hp : p ∈ source.siblings)
    (hsides : source.AreSides p a b) (indent : String) :
    ∃ edits, gapEdits source a.span.stop b.span.start (.str indent) = .ok edits ∧
      ∀ v : Violation, v.node = p.2 → v.edits = edits → IsReport source indent p a b v := by
  have hle := h.stop_le_start hp hsides
  obtain ⟨u, hu, ha⟩ := h.parsed.exists_of_mem_tokens hsides.last.mem
  obtain ⟨w, hw, hb⟩ := h.parsed.exists_of_mem_tokens hsides.first.mem
  have hwell := h.readable.wellFormed
  obtain ⟨gap, hgap⟩ := Document.exists_slice_eq_ok (hwell.of_mem hu).isLaidOut.stop_isValid
    (hwell.of_mem hw).isLaidOut.start_isValid
  have hgap' : source.document.slice a.span.stop b.span.start = .ok gap := by
    rw [h.parsed.document_eq, ha, hb]
    exact hgap
  rw [gapEdits, hgap', Outcome.ok_bind]
  by_cases hblank : Text.isBlankText gap = true
  · have hpositive : 0 ≤ a.span.stop := by
      rw [ha]
      exact Int.natCast_nonneg _
    obtain ⟨e, he⟩ : ∃ e, Edit.between a.span.stop b.span.start
        (source.newline ++ source.newline ++ indent) = .ok e :=
      ⟨_, dif_pos ⟨hpositive, hle⟩⟩
    rw [if_pos hblank, blankLine, Outcome.ok_bind, he]
    exact ⟨[e], rfl, fun v hnode hedits => .filled hnode hgap' hblank hedits he⟩
  · rw [if_neg hblank]
    exact ⟨[], rfl, fun v hnode hedits =>
      .kept hnode hgap' (Bool.eq_false_iff.2 hblank) hedits⟩

/-- Checking two siblings reports them if they are too close. -/
theorem exists_checkPair (h : source.ReadInOrder text root) (hp : p ∈ source.siblings)
    (indent message : String) :
    ∃ found, checkPair source p.1 p.2 (.str indent) message = .ok found ∧
      Reports source indent [p] found := by
  have hnone : (∀ a b, ¬ source.AreSides p a b) → Reports source indent [p] [] := fun hnone =>
    .far (fun a b hsides => absurd hsides (hnone a b)) .nil
  rw [checkPair]
  cases hlast : source.lastToken? p.1.span with
  | none =>
    refine ⟨[], rfl, hnone fun a b hsides => ?_⟩
    rw [h.areSides_iff hp, hlast] at hsides
    cases hsides.1
  | some a =>
    cases hfirst : source.firstToken? p.2.span with
    | none =>
      refine ⟨[], rfl, hnone fun a b hsides => ?_⟩
      rw [h.areSides_iff hp, hfirst] at hsides
      cases hsides.2
    | some b =>
      have hsides : source.AreSides p a b := (h.areSides_iff hp).2 ⟨hlast, hfirst⟩
      simp only [h.startLine_sub_endLine hp hsides]
      by_cases hfar : 1 < (source.feedsBetween a b : Int)
      · rw [if_pos hfar]
        refine ⟨[], rfl, .far (fun a' b' hsides' => ?_) .nil⟩
        obtain ⟨hlast', hfirst'⟩ := (h.areSides_iff hp).1 hsides'
        cases hlast.symm.trans hlast'
        cases hfirst.symm.trans hfirst'
        exact Int.ofNat_lt.1 hfar
      · obtain ⟨edits, hedits, hreport⟩ := exists_gapEdits h hp hsides indent
        rw [if_neg hfar, hedits]
        exact ⟨_, rfl, .close hsides (by omega) (hreport _ rfl rfl) .nil⟩

/-- Checking the neighbours among children reports those that are covered and too close. -/
theorem exists_checkNeighbours (h : source.ReadInOrder text root) {options : Options}
    (named : options.need "indent" = .ok (.str indent)) (covers : Node → Node → Bool)
    (message : String) {nodes : List Node} (hnodes : ∀ p ∈ neighbours nodes, p ∈ source.siblings) :
    ∃ found, checkNeighbours source options covers message nodes = .ok found ∧
      Reports source indent ((neighbours nodes).filter fun p => covers p.1 p.2) found := by
  induction nodes with
  | nil => exact ⟨[], rfl, .nil⟩
  | cons earlier rest ih =>
    cases rest with
    | nil => exact ⟨[], rfl, .nil⟩
    | cons later rest =>
      obtain ⟨others, hothers, hlater⟩ := ih fun p hp => hnodes p (List.mem_cons_of_mem _ hp)
      have hpair : (earlier, later) ∈ source.siblings := hnodes _ List.mem_cons_self
      rw [checkNeighbours, neighbours, List.filter_cons]
      by_cases hcovers : covers earlier later = true
      · obtain ⟨found, hfound, hreports⟩ := exists_checkPair h hpair indent message
        rw [if_pos hcovers, if_pos hcovers, named, Outcome.ok_bind, hfound, Outcome.ok_bind,
          hothers]
        exact ⟨found ++ others, rfl, hreports.append hlater⟩
      · rw [if_neg hcovers, if_neg hcovers, hothers]
        exact ⟨others, rfl, hlater⟩

/-- A rule on siblings reports all pairs in a file that it covers and that are too close, and it
does not fail. -/
theorem exists_reports (h : source.ReadInOrder text root) {options : Options}
    (named : options.need "indent" = .ok (.str indent)) (covers : Node → Node → Bool)
    (message : String) :
    ∃ vs, (listener covers message).run source options = .ok vs ∧
      Reports source indent (source.siblings.filter fun p => covers p.1 p.2) vs := by
  let covered (n : Node) := n.siblings.filter fun p => covers p.1 p.2
  obtain ⟨founds, hrun, hfounds⟩ : ∃ founds,
      (listener covers message).run source options = .ok founds.flatten ∧
        List.Forall₂ (fun n found => Reports source indent (covered n) found) source.nodes
          founds := by
    refine Listener.exists_run_atNodes (fun way n hn hkind => ?_) (fun n hkind => ?_)
    · cases n with
      | element e =>
        have hsiblings : ∀ p ∈ (Node.element e).siblings, p ∈ source.siblings := fun p hp =>
          List.mem_flatMap.2 ⟨_, hn, hp⟩
        simp only [covered]
        rw [Node.siblings] at hsiblings ⊢
        by_cases hself : e.selfClosing = true
        · rw [if_pos hself, if_pos hself]
          exact ⟨[], rfl, .nil⟩
        · rw [if_neg hself] at hsiblings
          rw [if_neg hself, if_neg hself]
          exact exists_checkNeighbours h named covers message hsiblings
      | _ => simp [Node.kind] at hkind
    · have hnone : n.siblings = [] := by
        cases n with
        | element e => simp [Node.kind] at hkind
        | _ => rfl
      simp only [covered, hnone]
      exact .nil
  refine ⟨founds.flatten, hrun, ?_⟩
  rw [SourceFile.siblings, Node.siblingsBelow, List.filter_flatMap]
  exact reports_flatMap hfounds

end SiblingSpacing

end TsxLint
