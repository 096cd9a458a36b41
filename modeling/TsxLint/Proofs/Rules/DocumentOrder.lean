/-
Module: TsxLint.Proofs.Rules.DocumentOrder
Purpose: In which order a rule reports the nodes of a file.
Main exports: Violation.InOrder, Listener.inOrder_of_run, Imports.inOrder,
  Catalog.reported_out_of_order_iff
-/
import TsxLint.Engine.Run
import TsxLint.Proofs.Imports.Reporting
import TsxLint.Proofs.Rules.SpacingOrder
import TsxLint.Proofs.Rules.WrapperReports
import TsxLint.Rules.Catalog

namespace TsxLint

/-!
A rule is called on the nodes of a file in preorder, which is the order of the text.  Most rules
report the node that they are called on, and the import rules the first declaration of each group,
in the order in which the groups begin.  So their violations come in the order of the text.  Only
the rules for spacing report children of the node that they are called on.
-/

variable {text : String} {source : SourceFile} {options : Options} {vs : List Violation}

/-- Violations are in order if their nodes begin one behind the other. -/
def Violation.InOrder (vs : List Violation) : Prop :=
  vs.Pairwise fun v w => v.node.start ≤ w.node.start

/-- Violations on nodes with places are in order if they come in preorder. -/
theorem Violation.inOrder_of_sublist (hread : source.root.Throughout Node.InReadingOrder)
    (h : (vs.map (·.node)).Sublist source.root.placed) : Violation.InOrder vs := by
  have hnodes := (Node.pairwise_placed hread).sublist h
  rw [List.pairwise_map] at hnodes
  exact hnodes

/-! ### Rules that report the node they are called on -/

/-- The violations of a rule that reports nothing but the node it is called on are in order. -/
theorem Listener.inOrder_of_run {kinds : List NodeKind}
    {report : Visit Unit → Node → Outcome (List Violation)}
    (hread : source.root.Throughout Node.InReadingOrder)
    (hkinds : ∀ kind ∈ kinds, kind ∉ [NodeKind.chunk, .specifier, .literal, .other])
    (about : ∀ way n, IsAbout n (report ⟨source, options, (), way⟩ n))
    (h : (atNodes kinds report).run source options = .ok vs) : Violation.InOrder vs := by
  refine Violation.inOrder_of_sublist hread ((nodes_sublist_of_run h about).trans ?_)
  refine List.monotone_filter_right _ fun n hn => ?_
  exact decide_eq_true (hkinds n.kind (of_decide_eq_true hn))

open Listener (IsAbout)

theorem DefaultProps.inOrder (hread : source.root.Throughout Node.InReadingOrder)
    (h : rule.visit source options = .ok vs) : Violation.InOrder vs := by
  refine Listener.inOrder_of_run hread (by decide) (fun way n => ?_) h
  split
  · refine .bind fun known => ?_
    split
    · split
      · exact .bind fun edit => .one rfl
      · exact .nil
    · exact .nil
  · exact .nil

theorem ArrowBody.inOrder (hread : source.root.Throughout Node.InReadingOrder)
    (h : rule.visit source options = .ok vs) : Violation.InOrder vs := by
  refine Listener.inOrder_of_run hread (by decide) (fun way n => ?_) h
  split
  · rw [checkArrow]
    split
    · exact .nil
    · split
      · exact .one rfl
      · exact .bind fun shorter => .bind fun edit => .one rfl
  · exact .nil

theorem Wrapper.isAbout_report (visit : Visit Unit) (e : Element Node) (child : Node) :
    IsAbout (.element e) (report visit e child) := by
  rw [report]
  split
  · exact .bind fun inner => .bind fun edit => .one rfl
  · exact .one rfl

theorem Wrapper.inOrder (hread : source.root.Throughout Node.InReadingOrder)
    (h : rule.visit source options = .ok vs) : Violation.InOrder vs := by
  refine Listener.inOrder_of_run hread (by decide) (fun way n => ?_) h
  split
  · rw [checkElement]
    split
    · exact .nil
    · refine .bind fun elements => .bind fun covered => ?_
      split
      · exact .nil
      · split
        · exact isAbout_report _ _ _
        · exact isAbout_report _ _ _
        · exact .nil
  · exact .nil

theorem ClassNames.inOrder (hread : source.root.Throughout Node.InReadingOrder)
    (h : rule.visit source options = .ok vs) : Violation.InOrder vs := by
  refine Listener.inOrder_of_run hread (by decide) (fun way n => ?_) h
  split
  · refine .bind fun attributes => .bind fun covered => ?_
    split
    · exact .nil
    · split
      · exact .nil
      · exact .bind fun helper => .bind fun call => .bind fun edit => .bind fun imported => .one rfl
  · exact .nil

theorem RawElements.inOrder (hread : source.root.Throughout Node.InReadingOrder)
    (h : rule.visit source options = .ok vs) : Violation.InOrder vs := by
  refine Listener.inOrder_of_run hread (by decide) (fun way n => ?_) h
  split
  · rw [checkElement]
    split
    · exact .nil
    · refine .bind fun allowInTests => ?_
      split
      · exact .nil
      · refine .bind fun table => ?_
        split
        · exact .nil
        · exact .nil
        · split
          · exact .nil
          · exact .one rfl
  · exact .nil

theorem ComponentTypes.inOrder (hread : source.root.Throughout Node.InReadingOrder)
    (h : rule.visit source options = .ok vs) : Violation.InOrder vs := by
  refine Listener.inOrder_of_run hread (by decide) (fun way n => ?_) h
  split
  · rw [checkDeclarator]
    split
    · exact .one rfl
    · exact .nil
  · exact .nil

/-! ### Rules that report groups -/

namespace Imports

/-- The node that a group is reported on. -/
def headOf (g : ImportGroup) : Node := ImportGroup.nodeOf g.form g.first

/-- One more declaration is the first of its group, or it changes no group's first one. -/
theorem heads_collect (form : ImportForm) (groups : Table ImportGroup) (d : Declaration)
    (module : String) :
    ((Table.values (collect form groups d module)).map headOf).Sublist
      ((Table.values groups).map headOf ++ [ImportGroup.nodeOf form d]) := by
  rw [collect]
  cases hget : Table.get? groups module with
  | some g =>
    have hhead : headOf (g.add d) = headOf g := rfl
    rw [Table.map_values_put hget hhead]
    exact List.sublist_append_left _ _
  | none =>
    rw [Table.put_of_not_mem_keys (Table.get?_eq_none_iff.1 hget), Table.values, List.map_append,
      List.map_append]
    exact .refl _

theorem heads_collectAll (form : ImportForm) (groups : Table ImportGroup)
    (ds : List (Declaration × String)) :
    ((Table.values (collectAll form groups ds)).map headOf).Sublist
      ((Table.values groups).map headOf ++
        ds.map fun entry => ImportGroup.nodeOf form entry.1) := by
  induction ds generalizing groups with
  | nil =>
    rw [List.map_nil, List.append_nil]
    exact .refl _
  | cons entry rest ih =>
    have hstep := (heads_collect form groups entry.1 entry.2).append_right
      (rest.map fun entry => ImportGroup.nodeOf form entry.1)
    rw [List.append_assoc] at hstep
    exact (ih _).trans hstep

theorem isPlaced_nodeOf (form : ImportForm) (d : Declaration) :
    (ImportGroup.nodeOf form d).IsPlaced := by
  cases form <;> simp [ImportGroup.nodeOf, Node.IsPlaced, Node.kind]

/-- The declarations that are collected come in preorder. -/
theorem declarations_sublist_placed (form : ImportForm) (n : Node) :
    ((topDeclarations form (n.visits [])).map fun entry =>
      ImportGroup.nodeOf form entry.1).Sublist n.placed := by
  have hnodes := (nodes_topDeclarations_sublist form (n.visits [])).filter fun m => m.IsPlaced
  rw [Node.map_snd_visits, List.filter_eq_self.2] at hnodes
  · exact hnodes
  · intro m hm
    obtain ⟨entry, -, rfl⟩ := List.mem_map.1 hm
    exact decide_eq_true (isPlaced_nodeOf form entry.1)

theorem node_of_report {message : String} {g : ImportGroup} {v : Violation}
    (h : report message g = .ok v) : v.node = headOf g := by
  obtain ⟨hint, heq⟩ := report_eq_bind message g
  rw [heq] at h
  obtain ⟨edits, -, h⟩ := Outcome.exists_of_bind_eq_ok h
  cases h
  rfl

/-- Groups are reported in the order in which they begin. -/
theorem inOrder {coverage : Coverage} (hread : source.root.Throughout Node.InReadingOrder)
    (h : (listener coverage).run source options = .ok vs) : Violation.InOrder vs := by
  rw [Listener.run_eq_calls, calls_listener, Outcome.ok_bind] at h
  obtain ⟨reports, hreports, h⟩ := Outcome.exists_of_bind_eq_ok h
  cases h
  apply Violation.inOrder_of_sublist hread
  rw [List.nil_append, Outcome.map_eq_of_mapM hreports fun g v => node_of_report]
  have hheads := heads_collectAll coverage.form [] (topDeclarations coverage.form
    (source.root.visits []))
  exact (List.filter_sublist.map headOf).trans
    (hheads.trans (declarations_sublist_placed coverage.form source.root))

end Imports

/-! ### The rules of the catalog -/

namespace Catalog

theorem span_of_ofViolation {ruleId : String} {severity : Outcome Severity} {v : Violation}
    {finding : Finding} (h : Finding.ofViolation ruleId severity source v = .ok finding) :
    finding.span = v.node.span := by
  obtain ⟨shown, -, h⟩ := Outcome.exists_of_bind_eq_ok h
  obtain ⟨serious, -, h⟩ := Outcome.exists_of_bind_eq_ok h
  cases h
  rfl

/-- The findings of a rule are on the nodes of its violations, in the same order. -/
theorem exists_visit_of_check {rule : Rule} {settings : Settings} {findings : List Finding}
    (h : rule.check settings source = .ok findings) :
    ∃ options vs, rule.visit source options = .ok vs ∧
      findings.map (·.span) = vs.map (·.node.span) := by
  obtain ⟨options, -, h⟩ := Outcome.exists_of_bind_eq_ok h
  obtain ⟨vs, hvisit, h⟩ := Outcome.exists_of_bind_eq_ok h
  exact ⟨options, vs, hvisit, Outcome.map_eq_of_mapM h fun v finding => span_of_ofViolation⟩

/-- Of two violations that a rule of the catalog reports for a file, the one that is reported first
is on the node that begins later exactly if the rule is one for spacing and the other node is below
an earlier sibling of that node.  All other violations come in the order of the text, and findings
come in the order of the violations. -/
theorem reported_out_of_order_iff {path : FilePath} {language : Language} {tree : ParseTree}
    (laidOut : tree.root.WellFormed text) (opens : tree.root.Everywhere Model.OpensInFront)
    (parsed : SourceFile.ofTree path language text tree = .ok source)
    {rule : Rule} (cataloged : rule ∈ rules) :
    (∀ options vs, rule.visit source options = .ok vs →
      vs.Pairwise fun v w => w.node.start < v.node.start ↔
        rule.category = "formatting" ∧ source.root.IsBelowEarlierSibling v.node w.node) ∧
      ∀ settings findings, rule.check settings source = .ok findings →
        ∃ options vs, rule.visit source options = .ok vs ∧
          findings.map (·.span) = vs.map (·.node.span) := by
  refine ⟨fun options vs visited => ?_, fun settings findings => exists_visit_of_check⟩
  have hs := SourceFile.parsed_of_ofTree parsed
  have hread := hs.inReadingOrder laidOut opens
  -- For a rule that is not for spacing, both sides of the equivalence are false.
  have hspacing : rule.category = "formatting" →
      (vs.Pairwise fun v w =>
        w.node.start < v.node.start ↔ source.root.IsBelowEarlierSibling v.node w.node) →
      vs.Pairwise fun v w => w.node.start < v.node.start ↔
        rule.category = "formatting" ∧ source.root.IsBelowEarlierSibling v.node w.node := by
    intro hcategory h
    exact h.imp fun hvw => hvw.trans (and_iff_right hcategory).symm
  have hothers : rule.category ≠ "formatting" → Violation.InOrder vs →
      vs.Pairwise fun v w => w.node.start < v.node.start ↔
        rule.category = "formatting" ∧ source.root.IsBelowEarlierSibling v.node w.node := by
    intro hcategory h
    exact h.imp fun hvw => iff_of_false (by omega) fun hformatting => hcategory hformatting.1
  simp only [rules, categories, ofCategory, List.flatMap_cons, List.flatMap_nil, List.append_nil,
    List.mem_append, List.mem_cons, List.not_mem_nil, or_false] at cataloged
  rcases cataloged with (rfl | rfl) | (rfl | rfl | rfl) | (rfl | rfl | rfl) | rfl | rfl | rfl
  · exact hspacing rfl (SiblingSpacing.pairwise_lt_iff hs laidOut hread
      SiblingSpacing.isPlaced_of_isMixedPair visited)
  · exact hspacing rfl (SiblingSpacing.pairwise_lt_iff hs laidOut hread
      SiblingSpacing.isPlaced_of_isMultilinePair visited)
  · exact hothers (by decide) (DefaultProps.inOrder hread visited)
  · exact hothers (by decide) (ArrowBody.inOrder hread visited)
  · exact hothers (by decide) (Wrapper.inOrder hread visited)
  · exact hothers (by decide) (Imports.inOrder hread visited)
  · exact hothers (by decide) (Imports.inOrder hread visited)
  · exact hothers (by decide) (Imports.inOrder hread visited)
  · exact hothers (by decide) (ClassNames.inOrder hread visited)
  · exact hothers (by decide) (RawElements.inOrder hread visited)
  · exact hothers (by decide) (ComponentTypes.inOrder hread visited)

/-- A name in braces. -/
def bracedTree (start : Nat) : Tree :=
  .node "jsx_expression" true "" start (start + 3)
    [.node "identifier" true "" (start + 1) (start + 2) []]

/-- An element in which an element with an expression stands in front of another expression. -/
def bracedBelow : Tree :=
  Wrapper.pairTree 1 0 24
    [Wrapper.pairTree 1 3 17 [Wrapper.tagTree 6, bracedTree 10], bracedTree 17]

/-- The expression in the earlier element is reported behind the other one. -/
theorem expression_below_reported_late :
    ∃ source v w, SourceFile.ofTree default .tsx "<a><b><c/>{d}</b>{e}</a>"
        ⟨Wrapper.soleFile bracedBelow, false⟩ = .ok source ∧
      SiblingSpacing.besideExpression.visitPlain source = .ok [v, w] ∧
      v.node.start = 17 ∧ w.node.start = 10 ∧
      source.root.IsBelowEarlierSibling v.node w.node := by
  have hreported : SiblingSpacing.besideExpression.reported .tsx
      "<a><b><c/>{d}</b>{e}</a>" (Wrapper.soleFile bracedBelow)
      (fun _ v => v.node.start) = some [17, 10] := by
    decide +kernel
  obtain ⟨source, vs, hsource, hvisit, hstarts⟩ := Rule.exists_of_reported_eq hreported
  obtain ⟨v, ws, rfl, hv, hstarts⟩ := List.map_eq_cons_iff.1 hstarts
  obtain ⟨w, rfl, hw⟩ := List.map_eq_singleton_iff.1 hstarts
  have hpairs := (reported_out_of_order_iff (by decide) (by decide) hsource
    (by simp [rules, categories, ofCategory])).1 _ _ hvisit
  have hpair := List.rel_of_pairwise_cons hpairs (List.mem_singleton_self w)
  exact ⟨source, v, w, hsource, hvisit, hv, hw, (hpair.1 (by omega)).2⟩

/-- An element of one tag that takes two lines. -/
def brokenTree (start : Nat) : Tree :=
  .node "jsx_self_closing_element" true "" start (start + 5)
    [.node "identifier" true "name" (start + 1) (start + 2) []]

/-- An element in which an element with two others stands in front of a third one. -/
def brokenBelow : Tree :=
  Wrapper.pairTree 1 0 28
    [Wrapper.pairTree 1 3 19 [Wrapper.tagTree 6, brokenTree 10], brokenTree 19]

/-- The violations of a rule for spacing are not in order if one is below an earlier sibling. -/
theorem element_below_reported_late :
    ∃ source vs,
      (Wrapper.soleFile brokenBelow).WellFormed "<a><b><c/><d\n/></b><e\n/></a>" ∧
      SourceFile.ofTree default .tsx "<a><b><c/><d\n/></b><e\n/></a>"
        ⟨Wrapper.soleFile brokenBelow, false⟩ = .ok source ∧
      SiblingSpacing.beforeMultiline ∈ rules ∧
      SiblingSpacing.beforeMultiline.visitPlain source = .ok vs ∧ ¬ Violation.InOrder vs := by
  have hreported : SiblingSpacing.beforeMultiline.reported .tsx
      "<a><b><c/><d\n/></b><e\n/></a>" (Wrapper.soleFile brokenBelow)
      (fun _ v => v.node.start) = some [19, 10] := by
    decide +kernel
  obtain ⟨source, vs, hsource, hvisit, hstarts⟩ := Rule.exists_of_reported_eq hreported
  refine ⟨source, vs, by decide, hsource, by simp [rules, categories, ofCategory], hvisit, ?_⟩
  intro horder
  obtain ⟨v, ws, rfl, hv, hstarts⟩ := List.map_eq_cons_iff.1 hstarts
  obtain ⟨w, rfl, hw⟩ := List.map_eq_singleton_iff.1 hstarts
  have hle := List.rel_of_pairwise_cons horder (List.mem_singleton_self w)
  omega

end Catalog

end TsxLint
