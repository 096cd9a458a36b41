/-
Module: TsxLint.Proofs.Engine.Isolation
Purpose: A run over many rules is made of runs over single ones, and failures stay with their rules.
Main exports: Rule.failure?, Rule.found, Tally.executedOf, Tally.ofRules_eq, Engine.outcome_run,
  Engine.alone, Engine.run_isolates_failures
-/
import Mathlib
import TsxLint.Proofs.Engine.Reached
import TsxLint.Rule.Scripted

namespace TsxLint

/-!
A rule looks at a file without regard to other rules, so what a run over a list of rules adds up is
what each of them finds when it is run alone.  A rule that fails, be it in the middle of its
traversal or at its end, adds its failure and nothing else, not even what it had found before.

Which rules are executed depends on the settings: all that are selected and made for the language,
or, where a failure ends the run, those up to the first that fails.
-/

namespace Rule

/-- The failure of a rule on a file, if it fails. -/
def failure? (rule : Rule) (settings : Settings) (source : SourceFile) : Option RuleError :=
  match rule.check settings source with
  | .ok _ => none
  | .error fault => some ⟨rule.id, fault⟩

/-- Whether a rule fails on a file. -/
def fails (rule : Rule) (settings : Settings) (source : SourceFile) : Bool :=
  (rule.failure? settings source).isSome

/-- What a rule finds in a file, nothing if it fails. -/
def found (rule : Rule) (settings : Settings) (source : SourceFile) : List Finding :=
  match rule.check settings source with
  | .ok findings => findings
  | .error _ => []

variable {settings : Settings} {source : SourceFile}

theorem found_of_fails {rule : Rule} (h : rule.fails settings source = true) :
    rule.found settings source = [] := by
  unfold fails failure? at h
  unfold found
  cases hcheck : rule.check settings source with
  | ok findings =>
    rw [hcheck] at h
    cases h
  | error fault => rfl

/-- Rules that fail have no part in what rules find. -/
theorem flatMap_found (rules : List Rule) :
    rules.flatMap (·.found settings source) =
      (rules.filter (!·.fails settings source)).flatMap (·.found settings source) := by
  induction rules with
  | nil => rfl
  | cons rule rest ih =>
    cases hfails : rule.fails settings source with
    | true => simp [hfails, found_of_fails hfails, ih]
    | false => simp [hfails, ih]

/-- Rules that do not fail have no part in the failures of rules. -/
theorem filterMap_failure? (rules : List Rule) :
    rules.filterMap (·.failure? settings source) =
      (rules.filter (·.fails settings source)).flatMap
        fun rule => (rule.failure? settings source).toList := by
  induction rules with
  | nil => rfl
  | cons rule rest ih =>
    unfold fails
    cases hfailure : rule.failure? settings source with
    | none => simpa [hfailure, fails] using ih
    | some failure => simpa [hfailure, fails] using ih

end Rule

/-! ### Lists of rules -/

namespace Tally

/-- The rules of a list that are executed on a file: all of them or, if a failure ends the run,
those up to the first that fails. -/
def executedOf (settings : Settings) (source : SourceFile) (rules : List Rule) : List Rule :=
  if settings.continueOnError.truthy then rules
  else
    rules.takeWhile (fun rule => !rule.fails settings source) ++
      (rules.dropWhile fun rule => !rule.fails settings source).take 1

variable (settings : Settings) (source : SourceFile)

theorem executedOf_nil : executedOf settings source [] = [] := ite_self _

/-- Behind a rule the rest is executed, unless the rule fails and this ends the run. -/
theorem executedOf_cons (rule : Rule) (rest : List Rule) :
    executedOf settings source (rule :: rest) =
      rule ::
        if settings.continueOnError.truthy || !rule.fails settings source then
          executedOf settings source rest
        else [] := by
  unfold executedOf
  cases settings.continueOnError.truthy with
  | true => rfl
  | false =>
    cases hfails : rule.fails settings source with
    | true => simp [hfails]
    | false => simp [hfails]

theorem executedOf_prefix (rules : List Rule) : executedOf settings source rules <+: rules := by
  induction rules with
  | nil => simp [executedOf_nil]
  | cons rule rest ih =>
    rw [executedOf_cons, List.prefix_cons_inj]
    split
    · exact ih
    · exact List.nil_prefix

/-- The tally of a list of rules: what the executed ones found, their failures, and their number. -/
theorem ofRules_eq (rules : List Rule) :
    ofRules settings source rules =
      let executed := executedOf settings source rules
      ⟨executed.flatMap (·.found settings source), executed.filterMap (·.failure? settings source),
        executed.length⟩ := by
  induction rules with
  | nil =>
    rw [executedOf_nil]
    rfl
  | cons rule rest ih =>
    rw [executedOf_cons]
    cases hcheck : rule.check settings source with
    | ok findings =>
      have hfound : rule.found settings source = findings := by
        rw [Rule.found, hcheck]
      have hnone : rule.failure? settings source = none := by
        rw [Rule.failure?, hcheck]
      have hpass : rule.fails settings source = false := by
        rw [Rule.fails, hnone]
        rfl
      simp only [ofRules, hcheck, ih, hpass, Bool.not_false, Bool.or_true, if_true,
        List.flatMap_cons, hfound, List.filterMap_cons, hnone, List.length_cons]
    | error fault =>
      have hfound : rule.found settings source = [] := by
        rw [Rule.found, hcheck]
      have hsome : rule.failure? settings source = some ⟨rule.id, fault⟩ := by
        rw [Rule.failure?, hcheck]
      have hfails : rule.fails settings source = true := by
        rw [Rule.fails, hsome]
        rfl
      simp only [ofRules, hcheck, ih, hfails, Bool.not_true, Bool.or_false,
        List.flatMap_cons, hfound, List.filterMap_cons, hsome, List.length_cons, List.nil_append]
      cases settings.continueOnError.truthy with
      | true => rfl
      | false => rfl

end Tally

/-! ### Runs -/

namespace RuleSelection

/-- The selection that limits nothing. -/
def everything : RuleSelection := ⟨[], []⟩

end RuleSelection

namespace Engine

variable {σ : Type}

/-- A run fails where the text cannot be parsed, and nowhere else: no rule makes it fail. -/
theorem outcome_run (e : Engine) (grammar : Grammar σ) (selection : RuleSelection) (input : Input)
    (desk : Desk σ) :
    (e.run grammar selection input).outcome desk =
      e.inspect selection input.language <$> (Session.parse grammar input).outcome desk := by
  rw [run, Session.outcome_bind]
  cases (Session.parse grammar input).outcome desk with
  | error fault => rfl
  | ok source => rfl

/-- An engine with the same settings and one rule only. -/
def alone (e : Engine) (rule : Rule) : Engine :=
  { e with rules := [(rule.id, rule)], byCategory := [(rule.category, [rule])] }

/-- What an engine finds in a file is what the executed rules find, failures apart. -/
theorem inspect_eq (e : Engine) (selection : RuleSelection) (language : String)
    (source : SourceFile) :
    e.inspect selection language source =
      let rules := e.applicable selection language
      let executed := Tally.executedOf e.settings source rules
      { path := source.path
        findings := executed.flatMap (·.found e.settings source)
        errors := executed.filterMap (·.failure? e.settings source)
        executed := executed.length
        skipped := (e.select selection).length - rules.length
        hasSyntaxErrors := source.hasErrors } := by
  unfold inspect
  dsimp only
  rw [Tally.ofRules_eq]

/-- What an engine with one rule finds in a file of a language that the rule is for. -/
theorem inspect_alone (e : Engine) {rule : Rule} {language : String} (source : SourceFile)
    (h : rule.supports language = true) :
    (e.alone rule).inspect .everything language source =
      { path := source.path
        findings := rule.found e.settings source
        errors := (rule.failure? e.settings source).toList
        executed := 1
        skipped := 0
        hasSyntaxErrors := source.hasErrors } := by
  have happlicable : (e.alone rule).applicable .everything language = [rule] := by
    change [rule].filter (fun r => r.supports language) = [rule]
    simp [h]
  have hexecuted : Tally.executedOf (e.alone rule).settings source [rule] = [rule] := by
    rw [Tally.executedOf_cons, Tally.executedOf_nil, ite_self]
  have herrors : [rule].filterMap (·.failure? e.settings source) =
      (rule.failure? e.settings source).toList := by
    cases hfailure : rule.failure? e.settings source with
    | none => simp [hfailure]
    | some failure => simp [hfailure]
  rw [inspect_eq]
  simp only [happlicable, hexecuted, List.flatMap_cons, List.flatMap_nil, List.append_nil]
  exact congrArg (fun errors => (⟨_, _, errors, _, _, _⟩ : RunResult)) herrors

/-- A run over a text that can be parsed ends normally, whichever rules fail.  It finds, in order of
selection, what the executed rules that do not fail find when they are run alone on that text, and
it lists the failures of those that do, each of which finds nothing when it is run alone.  Where
failures do not end a run, every selected rule is executed or skipped because of its language. -/
theorem run_isolates_failures (e : Engine) (grammar : Grammar σ) (selection : RuleSelection)
    (input : Input) (desk : Desk σ) (source : SourceFile)
    (hparse : (Session.parse grammar input).outcome desk = .ok source) :
    ∃ (result : RunResult) (lone : Rule → RunResult),
      (e.run grammar selection input).outcome desk = .ok result ∧
      (∀ rule ∈ e.applicable selection input.language,
        ((e.alone rule).run grammar .everything input).outcome desk = .ok (lone rule) ∧
        match rule.check e.settings source with
        | .ok findings => (lone rule).findings = findings ∧ (lone rule).errors = []
        | .error fault => (lone rule).findings = [] ∧ (lone rule).errors = [⟨rule.id, fault⟩]) ∧
      let rules := e.applicable selection input.language
      let executed := Tally.executedOf e.settings source rules
      result.findings =
        (executed.filter (!·.fails e.settings source)).flatMap (fun rule => (lone rule).findings) ∧
      result.errors =
        (executed.filter (·.fails e.settings source)).flatMap (fun rule => (lone rule).errors) ∧
      result.executed = executed.length ∧
      (e.settings.continueOnError.truthy = true →
        executed = rules ∧ result.executed + result.skipped = (e.select selection).length) := by
  have hrun (e : Engine) (selection : RuleSelection) :
      (e.run grammar selection input).outcome desk =
        .ok (e.inspect selection input.language source) := by
    rw [outcome_run, hparse]
    rfl
  refine ⟨_, fun rule => (e.alone rule).inspect .everything input.language source,
    hrun e selection, ?_, ?_⟩
  · intro rule hrule
    refine ⟨hrun _ _, ?_⟩
    dsimp only
    rw [inspect_alone e source (List.mem_filter.1 hrule).2]
    unfold Rule.found Rule.failure?
    cases rule.check e.settings source with
    | ok findings => exact ⟨rfl, rfl⟩
    | error fault => exact ⟨rfl, rfl⟩
  · intro rules executed
    have hsupports : ∀ rule ∈ executed, rule.supports input.language = true := fun rule hrule =>
      (List.mem_filter.1 ((Tally.executedOf_prefix _ _ _).subset hrule)).2
    rw [inspect_eq]
    refine ⟨?_, ?_, rfl, ?_⟩
    · refine (Rule.flatMap_found executed).trans (List.flatMap_congr fun rule hrule => ?_)
      dsimp only
      rw [inspect_alone e source (hsupports rule (List.mem_filter.1 hrule).1)]
    · refine (Rule.filterMap_failure? executed).trans (List.flatMap_congr fun rule hrule => ?_)
      dsimp only
      rw [inspect_alone e source (hsupports rule (List.mem_filter.1 hrule).1)]
    · intro hon
      have hall : executed = rules := if_pos hon
      refine ⟨hall, ?_⟩
      change executed.length + ((e.select selection).length - rules.length) = _
      have hle : rules.length ≤ (e.select selection).length := List.length_filter_le _ _
      rw [hall]
      omega

/-! ### A rule that fails late -/

/-- A rule that reports the program and once more at the end, if it gets that far. -/
def reporting (id : String) (failure : Option (Int × Fault)) : Rule :=
  Script.rule
    { id := id
      name := "Reporting"
      category := "demo"
      description := "Reports the program twice." }
    ⟨[.program], "seen", [], true, failure⟩

/-- An engine whose second rule fails at the end, after it has reported the program. -/
def lateEngine : Engine :=
  ([reporting "DEMO.FIRST" none, reporting "DEMO.LATE" (some (2, .scripted "RuntimeError" "late")),
    reporting "DEMO.LAST" none].foldl (fun e rule => (e.register rule).1) (empty Settings.default))

/-- The tree of a program without parts. -/
def programTree (text : String) (_ : Language) : ParseTree :=
  ⟨.node "program" true "" 0 text.utf8ByteSize [], false⟩

/-- A file of one letter. -/
def letterFile : Input := ⟨⟨"", ["a.tsx"]⟩, "a", "tsx"⟩

theorem parse_letterFile :
    (·.hasErrors) <$> (Session.parse (.ofFunction programTree) letterFile).outcome ⟨(), []⟩ =
      .ok false := by
  cbv

theorem run_lateEngine :
    (fun r => (r.findings.map (·.ruleId), r.errors.map (·.ruleId), r.executed)) <$>
        (lateEngine.run (.ofFunction programTree) .everything letterFile).outcome ⟨(), []⟩ =
      .ok (["DEMO.FIRST", "DEMO.FIRST", "DEMO.LAST", "DEMO.LAST"], ["DEMO.LATE"], 3) := by
  cbv

/-- The rule that fails at its end adds nothing of what it had reported before. -/
theorem run_isolates_failures_late :
    ∃ (source : SourceFile) (result : RunResult) (lone : Rule → RunResult),
      (Session.parse (.ofFunction programTree) letterFile).outcome ⟨(), []⟩ = .ok source ∧
      (lateEngine.run (.ofFunction programTree) .everything letterFile).outcome ⟨(), []⟩ =
        .ok result ∧
      result.findings.map (·.ruleId) = ["DEMO.FIRST", "DEMO.FIRST", "DEMO.LAST", "DEMO.LAST"] ∧
      result.errors.map (·.ruleId) = ["DEMO.LATE"] ∧
      let executed := Tally.executedOf lateEngine.settings source
        (lateEngine.applicable .everything letterFile.language)
      result.findings =
        (executed.filter (!·.fails lateEngine.settings source)).flatMap
          (fun rule => (lone rule).findings) ∧
      result.errors =
        (executed.filter (·.fails lateEngine.settings source)).flatMap
          (fun rule => (lone rule).errors) := by
  obtain ⟨source, hparse, -⟩ := Outcome.exists_of_map_eq_ok parse_letterFile
  obtain ⟨result, lone, hrun, -, hfindings, herrors, -⟩ :=
    run_isolates_failures lateEngine (.ofFunction programTree) .everything letterFile ⟨(), []⟩
      source hparse
  have hids := run_lateEngine
  rw [hrun] at hids
  obtain ⟨hfound, hrest⟩ := Prod.mk.inj (Except.ok.inj hids)
  obtain ⟨hfailed, -⟩ := Prod.mk.inj hrest
  exact ⟨source, result, lone, hparse, hrun, hfound, hfailed, hfindings, herrors⟩

end Engine

end TsxLint
