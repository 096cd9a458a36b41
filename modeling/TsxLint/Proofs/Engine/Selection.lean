/-
Module: TsxLint.Proofs.Engine.Selection
Purpose: Which rules a run with a selection executes, and how often.
Main exports: RuleSelection.Names, RuleSelection.times, Engine.IsIndexed.countP_select,
  Engine.run_executes_as_named
-/
import TsxLint.Proofs.Engine.Isolation
import TsxLint.Proofs.Engine.Registry

namespace TsxLint

/-!
A selection names rules by identifier or by category, and a run takes it at its word: a rule is
executed as often as its identifier, or its category, stands in the selection.  So a run executes a
rule once if the selection does not repeat itself, and more often if it does.  Identifiers take
precedence: next to identifiers, categories limit nothing.
-/

namespace RuleSelection

/-- The rule is what the selection asks for. -/
def Names (s : RuleSelection) (rule : Rule) : Prop :=
  (s.ids ≠ [] → rule.id ∈ s.ids) ∧
    (s.ids = [] → s.categories ≠ [] → rule.category ∈ s.categories)

/-- How often a selection asks for a rule. -/
def times (s : RuleSelection) (rule : Rule) : Nat :=
  if s.ids ≠ [] then s.ids.count rule.id
  else if s.categories ≠ [] then s.categories.count rule.category
  else 1

/-- A selection without repetitions asks for no rule twice. -/
theorem times_le_one {s : RuleSelection} (hids : s.ids.Nodup) (hcategories : s.categories.Nodup)
    (rule : Rule) : s.times rule ≤ 1 := by
  unfold times
  split
  · exact List.nodup_iff_count_le_one.1 hids _
  · split
    · exact List.nodup_iff_count_le_one.1 hcategories _
    · exact Nat.le_refl 1

end RuleSelection

namespace Engine

variable {e : Engine} {selection : RuleSelection}

/-! ### The three ways to select -/

theorem select_of_ids (h : selection.ids ≠ []) :
    e.select selection = selection.ids.filterMap e.rule? :=
  if_pos (by rwa [Bool.not_eq_true', List.isEmpty_eq_false_iff])

theorem select_of_categories (hids : selection.ids = []) (h : selection.categories ≠ []) :
    e.select selection = selection.categories.flatMap e.rulesOfCategory := by
  unfold select
  rw [hids, if_neg (by simp), if_pos (by simpa using h)]

theorem select_of_neither (hids : selection.ids = []) (h : selection.categories = []) :
    e.select selection = e.allRules := by
  unfold select
  rw [hids, h, if_neg (by simp), if_neg (by simp)]

namespace IsIndexed

/-- What is selected is a rule that the engine has and that the selection asks for. -/
theorem rule?_of_select (h : e.IsIndexed []) {rule : Rule} (hmem : rule ∈ e.select selection) :
    e.rule? rule.id = some rule ∧ selection.Names rule := by
  refine ⟨(h.current_or_left hmem).resolve_right List.not_mem_nil, ?_, ?_⟩
  · intro hids
    rw [select_of_ids hids] at hmem
    obtain ⟨id, hid, hrule⟩ := List.mem_filterMap.1 hmem
    rwa [h.id_of_rule? hrule]
  · intro hids hcategories
    rw [select_of_categories hids hcategories] at hmem
    obtain ⟨category, hcategory, hlisted⟩ := List.mem_flatMap.1 hmem
    have hown := (List.mem_filter.1 ((h.listed category).mem_iff.1 hlisted)).2
    rwa [eq_of_beq hown]

/-- Two rules of the engine under one identifier are the same. -/
theorem eq_of_rule? {rule other : Rule} (hrule : e.rule? rule.id = some rule)
    (hother : e.rule? other.id = some other) (hid : other.id = rule.id) : other = rule := by
  rw [hid, hrule] at hother
  exact (Option.some.inj hother).symm

/-- A rule of the engine stands in the table once. -/
theorem countP_allRules (h : e.IsIndexed []) {rule : Rule} (hrule : e.rule? rule.id = some rule) :
    e.allRules.countP (·.id == rule.id) = 1 := by
  have hcount : (e.allRules.map (·.id)).count rule.id = 1 := by
    refine List.count_eq_one_of_mem ?_ (List.mem_map_of_mem (mem_of_rule? hrule))
    rw [h.ids_eq]
    exact h.distinct
  rwa [List.count, List.countP_map] at hcount

/-- A rule of the engine stands in the list of its category once, and in no other list. -/
theorem countP_rulesOfCategory (h : e.IsIndexed []) {rule : Rule}
    (hrule : e.rule? rule.id = some rule) (category : String) :
    (e.rulesOfCategory category).countP (·.id == rule.id) =
      if rule.category = category then 1 else 0 := by
  rw [(h.listed category).countP_eq, List.append_nil, List.countP_filter]
  by_cases hc : rule.category = category
  · rw [if_pos hc, ← h.countP_allRules hrule]
    refine List.countP_congr fun other hother => ?_
    rw [Bool.and_eq_true]
    refine ⟨And.left, fun hid => ⟨hid, ?_⟩⟩
    rw [eq_of_rule? hrule (h.rule?_of_mem hother) (eq_of_beq hid)]
    exact beq_iff_eq.2 hc
  · rw [if_neg hc]
    refine List.countP_eq_zero.2 fun other hother hboth => ?_
    obtain ⟨hid, hcategory⟩ := Bool.and_eq_true_iff.1 hboth
    rw [eq_of_rule? hrule (h.rule?_of_mem hother) (eq_of_beq hid)] at hcategory
    exact hc (eq_of_beq hcategory)

/-- A rule of the engine is selected as often as the selection asks for it. -/
theorem countP_select (h : e.IsIndexed []) {rule : Rule} (hrule : e.rule? rule.id = some rule)
    (selection : RuleSelection) :
    (e.select selection).countP (·.id == rule.id) = selection.times rule := by
  unfold RuleSelection.times
  by_cases hids : selection.ids = []
  · rw [if_neg (not_not_intro hids)]
    by_cases hcategories : selection.categories = []
    · rw [if_neg (not_not_intro hcategories), select_of_neither hids hcategories]
      exact h.countP_allRules hrule
    · rw [if_pos hcategories, select_of_categories hids hcategories]
      clear hcategories
      induction selection.categories with
      | nil => rfl
      | cons category rest ih =>
        rw [List.flatMap_cons, List.countP_append, h.countP_rulesOfCategory hrule, ih,
          List.count_cons, Nat.add_comm]
        simp only [beq_iff_eq, eq_comm (a := category)]
  · rw [if_pos hids, select_of_ids hids]
    clear hids
    induction selection.ids with
    | nil => rfl
    | cons id rest ih =>
      rw [List.count_cons, ← ih]
      cases hknown : e.rule? id with
      | none =>
        have hne : id ≠ rule.id := by
          rintro rfl
          rw [hrule] at hknown
          cases hknown
        rw [List.filterMap_cons_none hknown, beq_false_of_ne hne]
        rfl
      | some other =>
        rw [List.filterMap_cons_some hknown, List.countP_cons, h.id_of_rule? hknown]

end IsIndexed

/-! ### What is executed -/

/-- The rules that a run over a file executes. -/
def executed (e : Engine) (selection : RuleSelection) (language : String) (source : SourceFile) :
    List Rule :=
  Tally.executedOf e.settings source (e.applicable selection language)

variable {language : String} {source : SourceFile}

theorem executed_sublist : (e.executed selection language source).Sublist (e.select selection) :=
  (Tally.executedOf_prefix _ _ _).sublist.trans List.filter_sublist

/-- Where failures do not end a run, all rules that are applicable are executed. -/
theorem executed_eq_applicable (hon : e.settings.continueOnError.truthy = true) :
    e.executed selection language source = e.applicable selection language := by
  unfold executed Tally.executedOf
  exact if_pos hon

/-- Where failures do not end a run, a rule for the language is executed as often as the selection
asks for it. -/
theorem IsIndexed.countP_executed (h : e.IsIndexed []) {rule : Rule}
    (hrule : e.rule? rule.id = some rule) (hlanguage : rule.supports language = true)
    (hon : e.settings.continueOnError.truthy = true) :
    (e.executed selection language source).countP (·.id == rule.id) = selection.times rule := by
  rw [executed_eq_applicable hon, applicable, List.countP_filter, ← h.countP_select hrule selection]
  refine List.countP_congr fun other hother => ?_
  rw [Bool.and_eq_true]
  refine ⟨And.left, fun hid => ⟨hid, ?_⟩⟩
  rwa [IsIndexed.eq_of_rule? hrule (h.rule?_of_select hother).1 (eq_of_beq hid)]

/-- An engine that was given rules of distinct identifiers has its lists in step with its table. -/
theorem isIndexed_of_distinct (settings : Settings) {rules : List Rule}
    (hids : (rules.map (·.id)).Nodup) :
    ((empty settings).after (rules.map .register)).IsIndexed [] := by
  have hindexed := isIndexed_after (isIndexed_empty settings) (rules.map .register)
  rwa [leftAfter_of_registersAnew (registersAnew_of_distinct hids fun _ _ => rfl)] at hindexed

/-- In an engine that was given rules of distinct identifiers, a run executes only rules that the
engine has, that are for the language, and that the selection asks for; none of them more often
than the selection asks for it, and each exactly as often where failures do not end a run.  So
each rule is executed at most once if the selection does not repeat itself.  The findings of the run
are those of the executed rules. -/
theorem run_executes_as_named {σ : Type} (settings : Settings) (rules : List Rule)
    (grammar : Grammar σ) (selection : RuleSelection) (input : Input) (desk : Desk σ)
    (source : SourceFile) (hids : (rules.map (·.id)).Nodup)
    (hparse : (Session.parse grammar input).outcome desk = .ok source) :
    let e := (empty settings).after (rules.map .register)
    let executed := e.executed selection input.language source
    ∃ result,
      (e.run grammar selection input).outcome desk = .ok result ∧
      result.executed = executed.length ∧
      result.findings = executed.flatMap (·.found e.settings source) ∧
      (∀ rule ∈ executed,
        e.rule? rule.id = some rule ∧ rule.supports input.language = true ∧
          selection.Names rule) ∧
      (∀ rule, e.rule? rule.id = some rule →
        (executed.map (·.id)).count rule.id ≤ selection.times rule ∧
          (rule.supports input.language = true → e.settings.continueOnError.truthy = true →
            (executed.map (·.id)).count rule.id = selection.times rule)) ∧
      (selection.ids.Nodup → selection.categories.Nodup → (executed.map (·.id)).Nodup) := by
  intro e executed
  have hindexed : e.IsIndexed [] := isIndexed_of_distinct settings hids
  have hcount (rule : Rule) :
      (executed.map (·.id)).count rule.id = executed.countP (·.id == rule.id) := by
    rw [List.count, List.countP_map]
    rfl
  have hle (rule : Rule) (hrule : e.rule? rule.id = some rule) :
      (executed.map (·.id)).count rule.id ≤ selection.times rule := by
    rw [hcount, ← hindexed.countP_select hrule selection]
    exact executed_sublist.countP_le
  have hselected {rule : Rule} (hrule : rule ∈ executed) : rule ∈ e.select selection :=
    executed_sublist.subset hrule
  refine ⟨e.inspect selection input.language source, ?_, ?_, ?_, ?_, ?_, ?_⟩
  · rw [outcome_run, hparse]
    rfl
  · rw [inspect_eq]
    rfl
  · rw [inspect_eq]
    rfl
  · intro rule hrule
    obtain ⟨hcurrent, hnamed⟩ := hindexed.rule?_of_select (hselected hrule)
    have happlicable := (Tally.executedOf_prefix _ _ _).subset hrule
    exact ⟨hcurrent, (List.mem_filter.1 happlicable).2, hnamed⟩
  · intro rule hrule
    refine ⟨hle rule hrule, fun hlanguage hon => ?_⟩
    rw [hcount]
    exact hindexed.countP_executed hrule hlanguage hon
  · intro hidsNodup hcategories
    refine List.nodup_iff_count_le_one.2 fun id => ?_
    by_cases hid : id ∈ executed.map (·.id)
    · obtain ⟨rule, hrule, rfl⟩ := List.mem_map.1 hid
      have hcurrent := (hindexed.rule?_of_select (hselected hrule)).1
      exact Nat.le_trans (hle rule hcurrent) (RuleSelection.times_le_one hidsNodup hcategories rule)
    · rw [List.count_eq_zero_of_not_mem hid]
      exact Nat.zero_le 1

/-! ### Selections that repeat or combine -/

/-- Two rules of one category. -/
def pair : List Rule := [reporting "DEMO.FIRST" none, reporting "DEMO.SECOND" none]

/-- An engine with two rules of one category. -/
def pairEngine : Engine := (empty Settings.default).after (pair.map .register)

theorem nodup_pair : (pair.map (·.id)).Nodup := by decide

/-- A selection that asks for a rule twice, next to a category that is not that of the rule. -/
def repeating : RuleSelection := ⟨["DEMO.FIRST", "DEMO.FIRST"], ["other"]⟩

theorem truthy_pairEngine : pairEngine.settings.continueOnError.truthy = true := by cbv

/-- Where a selection asks for a rule twice, the rule reports twice as much. -/
theorem run_executes_as_named_twice :
    ∃ (source : SourceFile) (result : RunResult),
      (pair.map (·.id)).Nodup ∧
      (Session.parse (.ofFunction programTree) letterFile).outcome ⟨(), []⟩ = .ok source ∧
      (pairEngine.run (.ofFunction programTree) repeating letterFile).outcome ⟨(), []⟩ =
        .ok result ∧
      result.findings.map (·.ruleId) =
        ["DEMO.FIRST", "DEMO.FIRST", "DEMO.FIRST", "DEMO.FIRST"] ∧
      result.executed = 2 ∧
      ∀ rule ∈ pairEngine.executed repeating "tsx" source, rule.id = "DEMO.FIRST" := by
  obtain ⟨source, hparse, -⟩ := Outcome.exists_of_map_eq_ok parse_letterFile
  obtain ⟨result, hrun, hexecuted, -, hnamed, -, -⟩ :=
    run_executes_as_named Settings.default pair (.ofFunction programTree) repeating letterFile
      ⟨(), []⟩ source nodup_pair hparse
  have hids : (fun r => r.findings.map (·.ruleId)) <$>
      (pairEngine.run (.ofFunction programTree) repeating letterFile).outcome ⟨(), []⟩ =
        .ok ["DEMO.FIRST", "DEMO.FIRST", "DEMO.FIRST", "DEMO.FIRST"] := by
    cbv
  refine ⟨source, result, nodup_pair, hparse, hrun, ?_, ?_, fun rule hrule => ?_⟩
  · change (pairEngine.run _ _ _).outcome _ = _ at hrun
    rw [hrun] at hids
    exact Except.ok.inj hids
  · rw [hexecuted]
    change (pairEngine.executed repeating "tsx" source).length = 2
    rw [executed_eq_applicable truthy_pairEngine]
    cbv
  · have hid := (hnamed rule hrule).2.2.1 (List.cons_ne_nil _ _)
    simpa [repeating] using hid

/-- A run may execute a rule more than once, and a rule outside of the categories that it is given
next to identifiers. -/
theorem run_may_exceed_selection :
    (¬ ∀ (rules : List Rule) (selection : RuleSelection) (source : SourceFile),
      (rules.map (·.id)).Nodup →
      (Session.parse (.ofFunction programTree) letterFile).outcome ⟨(), []⟩ = .ok source →
      let e := (empty Settings.default).after (rules.map .register)
      ((e.executed selection letterFile.language source).map (·.id)).Nodup) ∧
    ¬ ∀ (rules : List Rule) (selection : RuleSelection) (source : SourceFile),
      (rules.map (·.id)).Nodup →
      (Session.parse (.ofFunction programTree) letterFile).outcome ⟨(), []⟩ = .ok source →
      let e := (empty Settings.default).after (rules.map .register)
      selection.categories ≠ [] → ∀ rule ∈ e.executed selection letterFile.language source,
        rule.category ∈ selection.categories := by
  obtain ⟨source, hparse, -⟩ := Outcome.exists_of_map_eq_ok parse_letterFile
  refine ⟨fun h => ?_, fun h => ?_⟩
  · have hnodup : ((pairEngine.executed repeating "tsx" source).map (·.id)).Nodup :=
      h pair repeating source nodup_pair hparse
    have hids : (pairEngine.applicable repeating "tsx").map (·.id) =
        ["DEMO.FIRST", "DEMO.FIRST"] := by
      cbv
    rw [executed_eq_applicable truthy_pairEngine, hids] at hnodup
    exact absurd hnodup (by decide)
  · have hcategory : ∀ rule ∈ pairEngine.executed repeating "tsx" source,
        rule.category ∈ repeating.categories :=
      h pair repeating source nodup_pair hparse (List.cons_ne_nil _ _)
    have hcategories : (pairEngine.applicable repeating "tsx").map (·.category) =
        ["demo", "demo"] := by
      cbv
    have hdemo : "demo" ∈ (pairEngine.applicable repeating "tsx").map (·.category) := by
      rw [hcategories]
      exact List.mem_cons_self
    obtain ⟨rule, hrule, hown⟩ := List.mem_map.1 hdemo
    rw [← executed_eq_applicable truthy_pairEngine] at hrule
    have hother := hcategory rule hrule
    rw [hown] at hother
    exact absurd hother (by decide)

end Engine

end TsxLint
