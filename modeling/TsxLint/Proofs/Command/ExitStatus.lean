/-
Module: TsxLint.Proofs.Command.ExitStatus
Purpose: The exit status of a check, for all ways to print and all orders of paths.
Main exports: Shell.SameWork, Shell.inspected_of_sameWork, Shell.ExitStatus, Program.check_exit_status
-/
import TsxLint.Proofs.Command.Inspection

namespace TsxLint

/-!
The exit status of a check is read off what is found.  Requests for the same work find the same,
whatever is printed of it (`Shell.SameWork`): the same settings and rules, and on the same files the
same results, if need be in another order.  So they end with the same status.
-/

namespace Shell

/-! ### The same work -/

section

variable {tree : String → Language → ParseTree} {target target' : Target}
  {common common' : CommonOptions} {w : Workspace}

/-- Requests that differ in flags for printing only, or else in the order of paths that lead to
different files. -/
structure SameWork (w : Workspace) (target target' : Target) (common common' : CommonOptions) :
    Prop where
  rules : target'.rules = target.rules
  categories : target'.categories = target.categories
  config : common'.config = common.config
  logFile : common'.logFile = common.logFile
  paths : target'.paths = target.paths ∨ target'.paths.Perm target.paths ∧
    ∀ w₁, withLog w common.logFile = .ok w₁ → Apart w₁ target.paths

/-- They find out the same first, but for the files. -/
theorem surveyed_eq (hrules : target'.rules = target.rules)
    (hconfig : common'.config = common.config) :
    surveyed w target' common' = (fun found : Survey =>
      { found with files := filesAt w [] target'.paths }) <$> surveyed w target common := by
  unfold surveyed
  rw [hrules, hconfig]
  cases settingsIn w common.config with
  | error stop => rfl
  | ok loaded =>
    change (target.rules.forM askedFor >>= _) = _ <$> (target.rules.forM askedFor >>= _)
    cases target.rules.forM askedFor <;> rfl

theorem files_of_surveyed {found : Survey} (h : surveyed w target common = .ok found) :
    found.files = filesAt w [] target.paths := by
  rw [surveyed_eq rfl rfl] at h
  cases hfound : surveyed w target common with
  | error stop =>
    rw [hfound] at h
    cases h
  | ok found =>
    rw [hfound] at h
    cases h
    rfl

/-- The same work in the workspace that the log file leaves: the same first, and on the same files
the same results. -/
theorem inspected_of_sameWork {w₀ : Workspace} {found : Survey} {checked : Checked}
    (hsame : SameWork w₀ target target' common common')
    (hlog : withLog w₀ common.logFile = .ok w)
    (h : inspected tree target common w = .ok (found, checked)) :
    ∃ found' checked', inspected tree target' common' w = .ok (found', checked') ∧
      found'.loaded = found.loaded ∧ checked'.unreadable = checked.unreadable ∧
      checked'.results.Perm checked.results ∧
      (target'.paths = target.paths → checked' = checked) := by
  obtain ⟨hfound, verdicts, hverdicts, rfl⟩ := inspected_eq_ok_iff.1 h
  have hfound' := surveyed_eq (w := w) hsame.rules hsame.config
  rw [hfound] at hfound'
  have hselection : selectionOf target' = selectionOf target := by
    rw [selectionOf, selectionOf, hsame.rules, hsame.categories]
  rw [files_of_surveyed hfound] at hverdicts
  have hperm : (filesAt w [] target'.paths).Perm (filesAt w [] target.paths) := by
    rcases hsame.paths with hpaths | ⟨hpaths, happart⟩
    · rw [hpaths]
    · exact filesAt_perm (happart w hlog) hpaths
  obtain ⟨verdicts', hverdicts', hresults⟩ := Outcome.exists_perm_of_mapM hverdicts hperm
  refine ⟨_, .ofVerdicts verdicts', inspected_eq_ok_iff.2
    ⟨hfound', verdicts', by rw [hselection]; exact hverdicts', rfl⟩, rfl, hresults.any_eq,
    hresults.filterMap id, fun hpaths => ?_⟩
  rw [hpaths, hverdicts] at hverdicts'
  cases hverdicts'
  rfl

/-- Problems with what is asked for are the same for the same work. -/
theorem problem_of_sameWork {w₀ : Workspace} {p : Problem}
    (hsame : SameWork w₀ target target' common common')
    (h : inspected tree target common w = .error (.problem p)) :
    inspected tree target' common' w = .error (.problem p) := by
  rw [inspected_eq_problem_iff] at h ⊢
  rw [surveyed_eq hsame.rules hsame.config, h]
  rfl

end

/-! ### Exit status -/

section

variable {found found' : Survey} {checked checked' : Checked} {verdicts : List (Option RunResult)}

/-- What the exit status says of the files that were looked at. -/
inductive ExitStatus (threshold : Severity) (verdicts : List (Option RunResult)) : Int → Prop where
  | unreadable (missing : none ∈ verdicts) : ExitStatus threshold verdicts 2
  | failing (readable : none ∉ verdicts) {result : RunResult} {f : Finding}
      (reported : some result ∈ verdicts) (found : f ∈ result.findings)
      (reached : threshold ≤ f.severity) : ExitStatus threshold verdicts 1
  | passing (readable : none ∉ verdicts)
      (below : ∀ result, some result ∈ verdicts → ∀ f ∈ result.findings,
        ¬ threshold ≤ f.severity) : ExitStatus threshold verdicts 0

theorem countFailed_pos_iff {threshold : Severity} {findings : List Finding} :
    0 < countFailed threshold findings ↔ ∃ f ∈ findings, threshold ≤ f.severity := by
  rw [countFailed, List.length_pos_iff_exists_mem]
  simp only [List.mem_filter, decide_eq_true_eq]

theorem mem_findings_ofVerdicts {f : Finding} :
    f ∈ (Checked.ofVerdicts verdicts).results.flatMap (·.findings) ↔
      ∃ result, some result ∈ verdicts ∧ f ∈ result.findings := by
  simp only [Checked.ofVerdicts, List.mem_flatMap, List.mem_filterMap, id_eq, exists_eq_right]

theorem exitStatus_statusOf :
    ExitStatus found.loaded.settings.failOn verdicts (statusOf found (.ofVerdicts verdicts)) := by
  have hunreadable : (Checked.ofVerdicts verdicts).unreadable = true ↔ none ∈ verdicts := by
    simp [Checked.ofVerdicts]
  unfold statusOf exitCode
  split
  · rename_i hmissing
    exact .unreadable (hunreadable.1 hmissing)
  · rename_i hreadable
    rw [hunreadable] at hreadable
    split
    · rename_i hpos
      obtain ⟨f, hf, hreached⟩ := countFailed_pos_iff.1 hpos
      obtain ⟨result, hresult, hf⟩ := mem_findings_ofVerdicts.1 hf
      exact .failing hreadable hresult hf hreached
    · rename_i hnone
      refine .passing hreadable fun result hresult f hf hreached => hnone (countFailed_pos_iff.2 ?_)
      exact ⟨f, mem_findings_ofVerdicts.2 ⟨result, hresult, hf⟩, hreached⟩

/-- The order of the results does not matter. -/
theorem statusOf_eq_of_perm (hloaded : found'.loaded = found.loaded)
    (hunreadable : checked'.unreadable = checked.unreadable)
    (hperm : checked'.results.Perm checked.results) :
    statusOf found' checked' = statusOf found checked := by
  unfold statusOf countFailed
  rw [hloaded, hunreadable, ((hperm.flatMap_right _).filter _).length_eq]

end

end Shell

namespace Program

/-! ### The whole program -/

/-- A run of a check ends as what is found tells. -/
theorem fst_run_check {σ : Type} (grammar : Grammar σ) (around : Surroundings) {words : List String}
    {target : Target} {json : Bool} {common : CommonOptions} {s : ShellState σ}
    (h : Request.ofWords s.workspace words = .ok (.check target json common)) :
    (run grammar around words s).1 =
      Shell.endingOf ((Shell.inspection grammar around target json common).ends s).1 := by
  rw [run, h]
  exact Shell.finish_check grammar around target json common s

/-- A check that ends with an exit status: if a problem with what is asked for is in the way, the
status is the problem's.  Else it says whether a file cannot be read, or else whether a finding
reaches the threshold.  The same work, whatever is printed of it and in whatever order paths to
different files are given, ends with the same status and finds the same. -/
theorem check_exit_status {tree : String → Language → ParseTree} {around : Surroundings}
    {words words' : List String} {target target' : Target} {json json' : Bool}
    {common common' : CommonOptions} {s s₁ : ShellState Unit} {code : Int}
    (hwords : Request.ofWords s.workspace words = .ok (.check target json common))
    (hwords' : Request.ofWords s.workspace words' = .ok (.check target' json' common'))
    (hsame : Shell.SameWork s.workspace target target' common common')
    (hrun : run (.ofFunction tree) around words s = (.exit code, s₁)) :
    let result := ((Shell.inspection (.ofFunction tree) around target json common).ends s).1
    let result' := ((Shell.inspection (.ofFunction tree) around target' json' common').ends s).1
    (run (.ofFunction tree) around words' s).1 = .exit code ∧
      ((∃ p : Problem, result = .error (.problem p) ∧ result' = .error (.problem p) ∧
          code = p.exitCode) ∨
        ∃ found checked found' checked' verdicts,
          result = .ok (found, checked) ∧ result' = .ok (found', checked') ∧
          found.files.mapM (Shell.verdict found.engine tree (Shell.selectionOf target)
            s.workspace) = .ok verdicts ∧
          checked = .ofVerdicts verdicts ∧
          Shell.ExitStatus found.loaded.settings.failOn verdicts code ∧
          checked'.results.Perm checked.results ∧
          (target'.paths = target.paths → checked' = checked)) := by
  intro result result'
  have hcode := congrArg Prod.fst hrun
  rw [fst_run_check _ _ hwords] at hcode
  rw [fst_run_check _ _ hwords']
  obtain ⟨w, hlog⟩ := Shell.exists_withLog_of_exit hcode
  have hresult : result = Shell.inspected tree target common w :=
    Shell.ends_inspection_of_withLog hlog
  have hresult' : result' = Shell.inspected tree target' common' w :=
    Shell.ends_inspection_of_withLog (hsame.logFile ▸ hlog)
  change Shell.endingOf result = _ at hcode
  change Shell.endingOf result' = _ ∧ _
  rw [hresult] at hcode ⊢
  rw [hresult']
  cases hfirst : Shell.inspected tree target common w with
  | error stop =>
    rw [hfirst] at hcode
    cases stop with
    | fault f => cases hcode
    | problem p =>
      cases hcode
      rw [Shell.problem_of_sameWork hsame hfirst]
      exact ⟨rfl, .inl ⟨p, rfl, rfl, rfl⟩⟩
  | ok both =>
    obtain ⟨found, checked⟩ := both
    obtain ⟨found', checked', hsecond, hloaded, hunreadable, hperm, hequal⟩ :=
      Shell.inspected_of_sameWork hsame hlog hfirst
    obtain ⟨-, verdicts, hverdicts, rfl⟩ := Shell.inspected_eq_ok_iff.1 hfirst
    rw [Shell.verdict_congr _ _ _ (Shell.getD_read?_of_withLog hlog)] at hverdicts
    rw [hfirst] at hcode
    cases hcode
    rw [hsecond]
    refine ⟨congrArg Ending.exit (Shell.statusOf_eq_of_perm hloaded hunreadable hperm), .inr ?_⟩
    exact ⟨found, _, found', checked', verdicts, rfl, rfl, hverdicts, rfl,
      Shell.exitStatus_statusOf, hperm, hequal⟩

/-- Two files that are checked with exit status one, and then the same two in another order with all
flags there are for printing. -/
theorem check_exit_status_reordered :
    (run (.ofFunction bracedTree) plain
      ["check", "--json", "--quiet", "b.tsx", "--verbose", "a.tsx", "--no-color"] mixedState).1 =
        .exit 1 := by
  let target : Target := ⟨["a.tsx", "b.tsx"], [], []⟩
  let target' : Target := ⟨["b.tsx", "a.tsx"], [], []⟩
  have hwords : Request.ofWords mixedState.workspace ["check", "a.tsx", "b.tsx"] =
      .ok (.check target false ⟨false, false, false, none, none, "text"⟩) := by
    decide +kernel
  have hwords' : Request.ofWords mixedState.workspace
      ["check", "--json", "--quiet", "b.tsx", "--verbose", "a.tsx", "--no-color"] =
      .ok (.check target' true ⟨true, true, true, none, none, "text"⟩) := by
    decide +kernel
  have happart : Shell.Apart mixedState.workspace target.paths := by
    unfold Shell.Apart Shell.NoneShared
    decide +kernel
  have hrun : run (.ofFunction bracedTree) plain ["check", "a.tsx", "b.tsx"] mixedState =
      (.exit 1, (run (.ofFunction bracedTree) plain ["check", "a.tsx", "b.tsx"] mixedState).2) :=
    Prod.ext (eq_exit_of_status? (by decide +kernel)) rfl
  refine (check_exit_status hwords hwords' ⟨rfl, rfl, rfl, rfl, .inr ⟨.swap _ _ _, ?_⟩⟩ hrun).1
  intro w₁ hlog
  cases hlog
  exact happart

end Program

end TsxLint
