/-
Module: TsxLint.Proofs.Engine.PassOrder
Purpose: A pass does not depend on the order of the findings, nor on that of the rules.
Main exports: FixPlan.StartsApart, FixPlan.IsSamePass, FixPlan.isSamePass_of_perm,
  Engine.HasSameRules, Engine.perm_findings, Engine.pass_order_independent
-/
import TsxLint.Proofs.Engine.Selection
import TsxLint.Proofs.Engine.Starvation

namespace TsxLint

/-!
Which groups a pass accepts depends on the order in which they are considered, and they are
considered in the order of their first edits.  If no two of them begin at one place, this order is
strict, and a list in strict order is determined by what it holds.  So the order in which the
findings came is forgotten when the groups are sorted.

The order of findings goes back to the order in which rules were taken in.  Engines that were given
the same rules in different orders select the same rules in different orders, and what a rule finds
does not depend on the others, unless a failure ends the run.
-/

namespace FixPlan

/-- No two usable groups begin at one place. -/
def StartsApart (findings : List Finding) : Prop :=
  ((findings.filter isUsable).map fun f => Edit.groupStart f.edits).Nodup

instance (findings : List Finding) : Decidable (StartsApart findings) :=
  inferInstanceAs (Decidable (List.Nodup _))

/-- Two lists of findings make for one pass: the same groups are considered, the same of them are
accepted and put off, and the accepted edits make the same of every text. -/
structure IsSamePass (findings findings' : List Finding) : Prop where
  groups : (ofFindings findings).groups = (ofFindings findings').groups
  accepted : (Edit.select (ofFindings findings).groups).accepted =
    (Edit.select (ofFindings findings').groups).accepted
  deferred : (Edit.select (ofFindings findings).groups).deferred =
    (Edit.select (ofFindings findings').groups).deferred
  text : ∀ text : String, Edit.apply text (ofFindings findings).accepted.flatten =
    Edit.apply text (ofFindings findings').accepted.flatten

theorem perm_groups (findings : List Finding) :
    (ofFindings findings).groups.Perm ((findings.filter isUsable).map (·.edits)) :=
  List.mergeSort_perm _ _

/-- Groups that begin apart come in strict order. -/
theorem pairwise_lt_groups {findings : List Finding} (h : StartsApart findings) :
    (ofFindings findings).groups.Pairwise fun a b => Edit.groupStart a < Edit.groupStart b := by
  have hne : ((ofFindings findings).groups.map Edit.groupStart).Nodup := by
    rw [((perm_groups findings).map Edit.groupStart).nodup_iff, List.map_map]
    exact h
  exact ((pairwise_groups findings).and (List.pairwise_map.1 hne)).imp fun hab =>
    Nat.lt_of_le_of_ne hab.1 hab.2

theorem StartsApart.perm {findings findings' : List Finding} (h : StartsApart findings)
    (hperm : findings.Perm findings') : StartsApart findings' :=
  ((hperm.filter isUsable).map _).nodup_iff.1 h

/-- The order of findings whose groups begin apart makes no difference to a pass. -/
theorem isSamePass_of_perm {findings findings' : List Finding} (hperm : findings.Perm findings')
    (h : StartsApart findings) : IsSamePass findings findings' := by
  have hsame : (ofFindings findings).groups.Perm (ofFindings findings').groups :=
    (perm_groups findings).trans
      (((hperm.filter isUsable).map (·.edits)).trans (perm_groups findings').symm)
  have hgroups : (ofFindings findings).groups = (ofFindings findings').groups := by
    refine hsame.eq_of_pairwise ?_ (pairwise_lt_groups h) (pairwise_lt_groups (h.perm hperm))
    intro a b _ _ hab hba
    exact absurd hab (Nat.lt_asymm hba)
  refine ⟨hgroups, by rw [hgroups], by rw [hgroups], ?_⟩
  intro text
  rw [accepted, accepted, hgroups]

end FixPlan

namespace Engine

/-! ### The rules that are taken in -/

theorem settings_register (e : Engine) (rule : Rule) :
    (e.register rule).1.settings = e.settings := by
  by_cases hon : e.settings.isEnabled rule.id rule.category = true
  · rw [register_of_enabled hon]
  · rw [register_of_disabled hon]

theorem settings_after_register (e : Engine) (rules : List Rule) :
    (e.after (rules.map .register)).settings = e.settings := by
  induction rules generalizing e with
  | nil => rfl
  | cons rule rest ih => exact (ih _).trans (e.settings_register rule)

/-- Rules with new identifiers are taken in if the settings have them on. -/
theorem perm_allRules_after {e : Engine} {rules : List Rule} (hids : (rules.map (·.id)).Nodup)
    (hunknown : ∀ rule ∈ rules, e.rule? rule.id = none) :
    (e.after (rules.map .register)).allRules.Perm
      (e.allRules ++ rules.filter fun rule => e.settings.isEnabled rule.id rule.category) := by
  induction rules generalizing e with
  | nil => exact .of_eq (List.append_nil _).symm
  | cons rule rest ih =>
    obtain ⟨hrule, hrest⟩ := List.forall_mem_cons.1 hunknown
    obtain ⟨hnot, hdistinct⟩ := List.nodup_cons.1 hids
    have hlater := ih (e := (e.register rule).1) hdistinct fun other hother => by
      have hne : other.id ≠ rule.id := fun heq => hnot (List.mem_map.2 ⟨other, hother, heq⟩)
      rw [rule?_register_of_ne hne]
      exact hrest other hother
    rw [settings_register] at hlater
    refine hlater.trans ?_
    by_cases hon : e.settings.isEnabled rule.id rule.category = true
    · have hmore := perm_allRules_register hon
      rw [hrule, Option.toList_none, List.append_nil] at hmore
      rw [List.filter_cons, if_pos hon, List.append_cons]
      exact hmore.append_right _
    · rw [register_of_disabled hon, List.filter_cons, if_neg hon]

/-- Two engines have the same settings and the same rules, each of them without rules that were
replaced. -/
structure HasSameRules (e e' : Engine) : Prop where
  settings : e.settings = e'.settings
  rules : e.allRules.Perm e'.allRules
  left : e.IsIndexed []
  right : e'.IsIndexed []

/-- The order in which rules are taken in makes no difference to which rules there are. -/
theorem hasSameRules_of_perm (settings : Settings) {rules rules' : List Rule}
    (hids : (rules.map (·.id)).Nodup) (hperm : rules.Perm rules') :
    HasSameRules ((empty settings).after (rules.map .register))
      ((empty settings).after (rules'.map .register)) := by
  have hids' : (rules'.map (·.id)).Nodup := (hperm.map _).nodup_iff.1 hids
  refine ⟨?_, ?_, isIndexed_of_distinct settings hids, isIndexed_of_distinct settings hids'⟩
  · rw [settings_after_register, settings_after_register]
  · refine (perm_allRules_after hids fun _ _ => rfl).trans ?_
    exact ((hperm.filter _).append_left _).trans (perm_allRules_after hids' fun _ _ => rfl).symm

/-! ### The rules of a run -/

namespace HasSameRules

variable {e e' : Engine}

theorem rule?_eq (h : HasSameRules e e') (id : String) : e.rule? id = e'.rule? id := by
  apply Option.ext
  intro rule
  constructor
  · intro hrule
    have hmem := h.rules.mem_iff.1 (IsIndexed.mem_of_rule? hrule)
    rw [← h.left.id_of_rule? hrule]
    exact h.right.rule?_of_mem hmem
  · intro hrule
    have hmem := h.rules.mem_iff.2 (IsIndexed.mem_of_rule? hrule)
    rw [← h.right.id_of_rule? hrule]
    exact h.left.rule?_of_mem hmem

theorem perm_rulesOfCategory (h : HasSameRules e e') (category : String) :
    (e.rulesOfCategory category).Perm (e'.rulesOfCategory category) := by
  have hrules := (h.rules.append_right []).filter (·.category == category)
  exact (h.left.listed category).trans (hrules.trans (h.right.listed category).symm)

theorem perm_select (h : HasSameRules e e') (selection : RuleSelection) :
    (e.select selection).Perm (e'.select selection) := by
  by_cases hids : selection.ids = []
  · by_cases hcategories : selection.categories = []
    · rw [select_of_neither hids hcategories, select_of_neither hids hcategories]
      exact h.rules
    · rw [select_of_categories hids hcategories, select_of_categories hids hcategories]
      exact List.Perm.flatMap_left _ fun category _ => h.perm_rulesOfCategory category
  · rw [select_of_ids hids, select_of_ids hids, funext h.rule?_eq]

theorem perm_applicable (h : HasSameRules e e') (selection : RuleSelection) (language : String) :
    (e.applicable selection language).Perm (e'.applicable selection language) :=
  (h.perm_select selection).filter _

end HasSameRules

/-- A run executes all rules that it could if failures do not end it or there is none. -/
theorem executedOf_eq_self {settings : Settings} {source : SourceFile} {rules : List Rule}
    (h : settings.continueOnError.truthy = true ∨
      ∀ rule ∈ rules, rule.fails settings source = false) :
    Tally.executedOf settings source rules = rules := by
  unfold Tally.executedOf
  rcases h with hon | hpass
  · exact if_pos hon
  · have hall : ∀ rule ∈ rules, (!rule.fails settings source) = true := fun rule hrule => by
      rw [hpass rule hrule]
      rfl
    rw [List.takeWhile_eq_self_iff.2 hall, List.dropWhile_eq_nil_iff.2 hall, List.take_nil,
      List.append_nil, ite_self]

/-- Engines with the same rules find the same, perhaps in another order, where no failure ends the
run. -/
theorem perm_findings {e e' : Engine} (h : HasSameRules e e') (selection : RuleSelection)
    (language : String) (source : SourceFile)
    (hall : e.settings.continueOnError.truthy = true ∨
      ∀ rule ∈ e.applicable selection language, rule.fails e.settings source = false) :
    (e.inspect selection language source).findings.Perm
      (e'.inspect selection language source).findings := by
  have happlicable := h.perm_applicable selection language
  have hall' : e.settings.continueOnError.truthy = true ∨
      ∀ rule ∈ e'.applicable selection language, rule.fails e.settings source = false :=
    hall.imp_right fun hpass rule hrule => hpass rule (happlicable.mem_iff.2 hrule)
  rw [inspect_eq, inspect_eq, ← h.settings]
  dsimp only
  rw [executedOf_eq_self hall, executedOf_eq_self hall']
  exact happlicable.flatMap_right _

/-! ### Orders of findings and of rules -/

/-- If no two usable groups begin at one place, the order of findings makes no difference to a pass:
the same groups are accepted and put off, and the accepted edits make the same text.  So where
rules of distinct identifiers are taken in, and no failure ends the run, the order in which they
are makes no difference to the pass that follows. -/
theorem pass_order_independent :
    (∀ findings findings' : List Finding, findings.Perm findings' →
      FixPlan.StartsApart findings → FixPlan.IsSamePass findings findings') ∧
    ∀ (settings : Settings) (rules rules' : List Rule) (selection : RuleSelection)
      (language : String) (source : SourceFile),
      (rules.map (·.id)).Nodup → rules.Perm rules' →
      let e := (empty settings).after (rules.map .register)
      let e' := (empty settings).after (rules'.map .register)
      (settings.continueOnError.truthy = true ∨
        ∀ rule ∈ e.applicable selection language, rule.fails settings source = false) →
      FixPlan.StartsApart (e.inspect selection language source).findings →
      FixPlan.IsSamePass (e.inspect selection language source).findings
        (e'.inspect selection language source).findings := by
  refine ⟨fun findings findings' => FixPlan.isSamePass_of_perm, ?_⟩
  intro settings rules rules' selection language source hids hperm e e' hall hstarts
  have hsettings : e.settings = settings := settings_after_register (empty settings) rules
  rw [← hsettings] at hall
  have hsame : HasSameRules e e' := hasSameRules_of_perm settings hids hperm
  exact FixPlan.isSamePass_of_perm (perm_findings hsame selection language source hall) hstarts

/-- Two rules of which each insists on an edit: one takes the first of three letters away, the other
adds one behind them. -/
def insistingPair : List Rule :=
  [insisting "DEMO.FIRST" [⟨0, 1, "", Nat.zero_le 1⟩],
    insisting "DEMO.SECOND" [⟨3, 3, "a", Nat.le_refl 3⟩]]

theorem starts_insistingPair :
    (fun source =>
        ((((empty Settings.default).after (insistingPair.map .register)).inspect .everything "tsx"
          source).findings.filter FixPlan.isUsable).map fun f => Edit.groupStart f.edits) <$>
      (Session.parse (.ofFunction programTree) letterFile).outcome ⟨(), []⟩ = .ok [0, 3] := by
  cbv

/-- Both orders of the rules, and both orders of what they find, make for the same pass. -/
theorem pass_order_independent_pair :
    ∃ source, (Session.parse (.ofFunction programTree) letterFile).outcome ⟨(), []⟩ = .ok source ∧
      let e := (empty Settings.default).after (insistingPair.map .register)
      let e' := (empty Settings.default).after (insistingPair.reverse.map .register)
      let findings := (e.inspect .everything "tsx" source).findings
      (insistingPair.map (·.id)).Nodup ∧ insistingPair.Perm insistingPair.reverse ∧
      Settings.default.continueOnError.truthy = true ∧ findings.Perm findings.reverse ∧
      FixPlan.StartsApart findings ∧ FixPlan.IsSamePass findings findings.reverse ∧
      FixPlan.IsSamePass findings (e'.inspect .everything "tsx" source).findings := by
  obtain ⟨source, hparse, hstarts⟩ := Outcome.exists_of_map_eq_ok starts_insistingPair
  have hids : (insistingPair.map (·.id)).Nodup := by decide
  have htruthy : Settings.default.continueOnError.truthy = true := by cbv
  have hreverse : insistingPair.Perm insistingPair.reverse := insistingPair.reverse_perm.symm
  refine ⟨source, hparse, ?_⟩
  intro e e' findings
  have hapart : FixPlan.StartsApart findings := by
    rw [FixPlan.StartsApart, hstarts]
    decide
  have hperm : findings.Perm findings.reverse := findings.reverse_perm.symm
  exact ⟨hids, hreverse, htruthy, hperm, hapart,
    pass_order_independent.1 findings findings.reverse hperm hapart,
    pass_order_independent.2 Settings.default insistingPair insistingPair.reverse .everything "tsx"
      source hids hreverse (.inl htruthy) hapart⟩

end Engine

end TsxLint
