/-
Module: TsxLint.Proofs.Command.Inspection
Purpose: What a check finds, as one computation in which nothing is printed.
Main exports: Shell.Gives, Shell.inspection, Shell.finish_check, Shell.verdict, Shell.inspected,
  Shell.ends_inspection_of_withLog
-/
import TsxLint.Proofs.Command.Collecting
import TsxLint.Proofs.Command.Rechecking

namespace TsxLint

/-!
A check looks at files, and how it prints what it finds is another matter (`Shell.inspection`,
`Shell.finish_check`).  Step by step, what is found depends on the workspace and on what is asked
for, and in each step printing is all that depends on the flags (`Shell.Gives`).  So the whole is
one computation in which the flags do not occur (`Shell.inspected`).
-/

namespace Shell

/-! ### Commands that print and find -/

section

variable {σ α β : Type}

/-- In a workspace a command comes to a result, and for the rest it prints. -/
def Gives (w : Workspace) (command : Shell σ α) (result : Except Stop α) : Prop :=
  ∃ texts, ∀ s, s.workspace = w → command.ends s = (result, s.said texts)

namespace Gives

variable {w : Workspace}

theorem pure (a : α) : Gives w (Pure.pure a : Shell σ α) (.ok a) :=
  ⟨[], fun s _ => by rw [ends_pure, ShellState.said_nil]⟩

theorem print (texts : List Printed) : Gives w (Shell.print texts : Shell σ Unit) (.ok ()) :=
  ⟨texts, fun s _ => ends_print texts s⟩

theorem warn (quiet : Bool) (warnings : List Warning) :
    Gives w (Shell.warn quiet warnings : Shell σ Unit) (.ok ()) :=
  ⟨warningText quiet warnings, fun s _ => ends_warn quiet warnings s⟩

theorem fail (p : Problem) : Gives w (Shell.fail p : Shell σ α) (.error (.problem p)) :=
  ⟨[], fun s _ => by rw [ends_fail, ShellState.said_nil]⟩

/-- What follows on a step that stops makes no difference. -/
theorem stop {command : Shell σ α} {next : α → Shell σ β} {why : Stop}
    (h : Gives w command (.error why)) : Gives w (command >>= next) (.error why) := by
  obtain ⟨texts, hends⟩ := h
  refine ⟨texts, fun s hs => ?_⟩
  rw [ends_bind, hends s hs]

/-- Behind a step that does not stop, the result is that of what follows. -/
theorem andThen {command : Shell σ α} {next : α → Shell σ β} {a : α} {result : Except Stop β}
    (hcommand : Gives w command (.ok a)) (hnext : Gives w (next a) result) :
    Gives w (command >>= next) result := by
  obtain ⟨texts, hends⟩ := hcommand
  obtain ⟨more, hmore⟩ := hnext
  refine ⟨texts ++ more, fun s hs => ?_⟩
  rw [ends_bind_of_ok (hends s hs), hmore (s.said texts) hs, ShellState.said_said]

theorem bind {command : Shell σ α} {next : α → Shell σ β} {result : Except Stop α}
    {after : α → Except Stop β} (hcommand : Gives w command result)
    (hnext : ∀ a, Gives w (next a) (after a)) : Gives w (command >>= next) (result >>= after) := by
  cases result with
  | error why => exact hcommand.stop
  | ok a => exact hcommand.andThen (hnext a)

theorem workspace {next : Workspace → Shell σ β} {result : Except Stop β}
    (hnext : Gives w (next w) result) : Gives w (Shell.workspace >>= next) result := by
  obtain ⟨texts, hends⟩ := hnext
  refine ⟨texts, fun s hs => ?_⟩
  rw [ends_bind_of_ok (ends_workspace s), hs, hends s hs]

end Gives

end

/-! ### Looking at files apart from printing -/

section

variable {σ : Type}

/-- How a check prints. -/
def checkReporter (around : Surroundings) (json : Bool) (common : CommonOptions) : Reporter :=
  reporter around common.verbose (common.quiet || json) common.noColor

/-- What a check does before it comes to its end: what it found out first, and what it found. -/
def inspection (grammar : Grammar σ) (around : Surroundings) (target : Target) (json : Bool)
    (common : CommonOptions) : Shell σ (Survey × Checked) := do
  let r := checkReporter around json common
  openLog r common
  let found ← survey r target common
  let checked ← checkFiles grammar around r json found.engine (selectionOf target) found.files
  pure (found, checked)

/-- The exit status of what was found. -/
def statusOf (found : Survey) (checked : Checked) : Int :=
  exitCode checked.unreadable
    (countFailed found.loaded.settings.failOn (checked.results.flatMap (·.findings)))

/-- How a check ends, by what was found. -/
def endingOf (result : Except Stop (Survey × Checked)) : Ending :=
  match result with
  | .ok (found, checked) => .exit (statusOf found checked)
  | .error (.problem p) => .exit p.exitCode
  | .error (.fault f) => .fault f

/-- The end of a check: printing, whatever was found, and the exit status. -/
def conclude (around : Surroundings) (json : Bool) (common : CommonOptions) (found : Survey)
    (checked : Checked) : Shell σ Int := do
  printChecked around (checkReporter around json common) json found.loaded.settings checked.results
  pure (statusOf found checked)

theorem ends_conclude (around : Surroundings) (json : Bool) (common : CommonOptions)
    (found : Survey) (checked : Checked) (s : ShellState σ) :
    ∃ texts, (conclude around json common found checked).ends s =
      (.ok (statusOf found checked), s.said texts) := by
  cases json with
  | true => exact ⟨_, rfl⟩
  | false => exact ⟨_, rfl⟩

/-- A problem in the way decides the exit status, reported or not. -/
theorem fst_finish_orReport {α : Type} (r : Reporter) (command : Shell σ α) (next : α → Shell σ Int)
    (s : ShellState σ) :
    ((command >>= fun a => orReport r (next a)).finish s).1 = ((command >>= next).finish s).1 := by
  rw [finish_eq, finish_eq, ends_bind, ends_bind]
  cases command.ends s with
  | mk result s' =>
    cases result with
    | error stop => rfl
    | ok a =>
      dsimp only
      rw [ends_orReport]
      cases (next a).ends s' with
      | mk result s'' =>
        cases result with
        | ok code => rfl
        | error stop => cases stop <;> rfl

/-- A check is an inspection and the end of it, but for how it reports a problem. -/
theorem fst_finish_check (grammar : Grammar σ) (around : Surroundings) (target : Target)
    (json : Bool) (common : CommonOptions) (s : ShellState σ) :
    ((check grammar around target json common).finish s).1 =
      ((inspection grammar around target json common >>= fun found =>
        conclude around json common found.1 found.2).finish s).1 := by
  unfold check inspection survey conclude checkReporter
  dsimp only
  rw [fst_finish_orReport]
  simp only [bind_assoc, pure_bind]
  rfl

/-- A check ends with the exit status of what is found, or with that of the problem in the way. -/
theorem finish_check (grammar : Grammar σ) (around : Surroundings) (target : Target) (json : Bool)
    (common : CommonOptions) (s : ShellState σ) :
    ((check grammar around target json common).finish s).1 =
      endingOf ((inspection grammar around target json common).ends s).1 := by
  rw [fst_finish_check, finish_eq, ends_bind]
  cases (inspection grammar around target json common).ends s with
  | mk result s' =>
    cases result with
    | error stop => cases stop <;> rfl
    | ok found =>
      obtain ⟨texts, hconclude⟩ := ends_conclude around json common found.1 found.2 s'
      dsimp only
      rw [hconclude]
      rfl

end

/-! ### What is found out first -/

section

variable {σ : Type} {w : Workspace}

/-- The workspace once the log file is there. -/
def withLog (w : Workspace) (logFile : Option String) : Outcome Workspace :=
  match logFile.filter (· != "") with
  | none => .ok w
  | some path => w.openLog path

/-- The log file is all that the log of a command changes. -/
theorem exists_setUp_logOptions (r : Reporter) (common : CommonOptions) (w : Workspace) :
    ∃ handlers, (logOptions r common).setUp w =
      (fun w₁ => (w₁, handlers)) <$> withLog w common.logFile := by
  have hlevel : ∃ level, (logOptions r common).consoleLevel = .ok level := by
    have hinitial : LogLevel.ofName? (LogLevel.capitals "WARNING") = some .warning := by decide
    unfold LogOptions.consoleLevel logOptions LogOptions.initial
    dsimp only
    rw [hinitial]
    split
    · exact ⟨_, rfl⟩
    · split
      · exact ⟨_, rfl⟩
      · exact ⟨_, rfl⟩
  obtain ⟨level, hlevel⟩ := hlevel
  have hfile : (logOptions r common).file? = common.logFile.filter (· != "") := rfl
  unfold LogOptions.setUp withLog
  rw [hlevel, Outcome.ok_bind, hfile]
  cases common.logFile.filter (· != "") with
  | none => exact ⟨_, rfl⟩
  | some path =>
    dsimp only
    cases w.openLog path with
    | ok w₁ => exact ⟨_, rfl⟩
    | error f => exact ⟨[], rfl⟩

theorem ends_openLog_of_ok (r : Reporter) {common : CommonOptions} {s : ShellState σ}
    (h : withLog s.workspace common.logFile = .ok w) :
    (openLog r common).ends s = (.ok (), s.moved w) := by
  obtain ⟨handlers, hsetUp⟩ := exists_setUp_logOptions r common s.workspace
  rw [ends_openLog, hsetUp, h]
  rfl

theorem ends_openLog_of_error (r : Reporter) {common : CommonOptions} {s : ShellState σ} {f : Fault}
    (h : withLog s.workspace common.logFile = .error f) :
    (openLog r common).ends s = (.error (.fault f), s) := by
  obtain ⟨handlers, hsetUp⟩ := exists_setUp_logOptions r common s.workspace
  rw [ends_openLog, hsetUp, h]
  rfl

/-- A log file changes no data. -/
theorem getD_read?_of_withLog {w₁ : Workspace} {logFile : Option String}
    (h : withLog w logFile = .ok w₁) (parts : List String) :
    (w₁.read? parts).getD ByteArray.empty = (w.read? parts).getD ByteArray.empty := by
  unfold withLog at h
  split at h
  · cases h
    rfl
  · exact Workspace.getD_read?_of_openLog h parts

/-- The settings in a file that was named explicitly, or the problem with them. -/
def explicitIn (w : Workspace) (path : String) : Except Stop Settings :=
  match Settings.loadExplicit ((w.readAt path).getD ByteArray.empty) with
  | .ok settings => .ok settings
  | .error f =>
    .error (.problem (.unusableSettings s!"Invalid configuration: {f.message}" (some path)))

/-- The settings of a command and the files they are from. -/
def settingsIn (w : Workspace) (config : Option String) : Except Stop LoadedSettings :=
  match config.filter (· != "") with
  | none => .ok (Settings.load w.layers)
  | some path => do
    let settings ← explicitIn w path
    pure ⟨settings, [FilePath.parse path], []⟩

/-- A rule that was asked for has to exist. -/
def askedFor (id : String) : Except Stop Unit :=
  if (Catalog.find? id).isNone then .error (.problem (.unknownRule id)) else .ok ()

/-- What is found out before a file is looked at. -/
def surveyed (w : Workspace) (target : Target) (common : CommonOptions) : Except Stop Survey := do
  let loaded ← settingsIn w common.config
  target.rules.forM askedFor
  pure ⟨loaded, Engine.ofSettings loaded.settings, filesAt w [] target.paths⟩

theorem gives_explicitSettings (path : String) :
    Gives w (explicitSettings path : Shell σ Settings) (explicitIn w path) := by
  refine Gives.workspace ?_
  unfold explicitIn
  cases Settings.loadExplicit ((w.readAt path).getD ByteArray.empty) with
  | ok settings => exact Gives.pure _
  | error f => exact Gives.fail _

theorem gives_loadSettings (quiet : Bool) (common : CommonOptions) :
    Gives w (loadSettings quiet common : Shell σ LoadedSettings) (settingsIn w common.config) := by
  have hlayers : Gives w (do
      let w ← workspace
      let loaded := Settings.load w.layers
      warn quiet (loaded.rejected.map fun r => .settingsRejected r.1 r.2)
      pure loaded : Shell σ LoadedSettings) (.ok (Settings.load w.layers)) :=
    Gives.workspace ((Gives.warn _ _).andThen (Gives.pure _))
  unfold loadSettings
  split
  · rename_i hnone
    rw [hnone]
    exact hlayers
  · rename_i hempty
    rw [hempty]
    exact hlayers
  · rename_i path hsome hpath
    have hnamed : common.config.filter (· != "") = some path := by
      rw [hpath, Option.filter_some, if_pos (bne_iff_ne.2 hsome)]
    rw [settingsIn, hnamed]
    exact (gives_explicitSettings path).bind fun settings => Gives.pure _

theorem gives_checkRules (r : Reporter) (e : Engine) (ids : List String) :
    Gives w (checkRules r e ids : Shell σ Unit) (ids.forM askedFor) := by
  induction ids with
  | nil => exact Gives.pure _
  | cons id rest ih =>
    have henabled : Gives w (if (e.rule? id).isNone then do
        print (r.warning s!"Rule {id} is disabled by configuration")
        checkRules r e rest
      else checkRules r e rest : Shell σ Unit) (rest.forM askedFor) := by
      split
      · exact (Gives.print _).andThen ih
      · exact ih
    change Gives w (checkRules r e (id :: rest)) (askedFor id >>= fun _ => rest.forM askedFor)
    unfold checkRules askedFor
    by_cases hunknown : (Catalog.find? id).isNone = true
    · rw [if_pos hunknown, if_pos hunknown]
      exact (Gives.fail _).bind fun _ => henabled
    · rw [if_neg hunknown, if_neg hunknown]
      exact henabled

theorem gives_collectFrom (r : Reporter) (known : List SourceEntry) (paths : List String) :
    Gives w (collectFrom r known paths : Shell σ (List SourceEntry))
      (.ok (filesAt w known paths)) := by
  induction paths generalizing known with
  | nil => exact Gives.pure _
  | cons raw rest ih =>
    change Gives w (collectFrom r known (raw :: rest))
      (.ok (filesAt w (addNew known (reached w raw)) rest))
    unfold collectFrom reached
    refine Gives.workspace ?_
    dsimp only
    cases Shell.candidates w (FilePath.parse raw) with
    | some found => exact ih _
    | none => exact (Gives.print _).andThen (ih known)

theorem gives_survey (r : Reporter) (target : Target) (common : CommonOptions) :
    Gives w (survey r target common : Shell σ Survey) (surveyed w target common) := by
  unfold survey surveyed buildEngine collect
  simp only [bind_assoc, pure_bind]
  exact (gives_loadSettings r.quiet common).bind fun loaded =>
    (gives_checkRules r _ target.rules).bind fun _ =>
      (gives_collectFrom r [] target.paths).andThen (Gives.pure _)

end

/-! ### File by file -/

section

variable (e : Engine) (tree : String → Language → ParseTree) (selection : RuleSelection)
  {w w' : Workspace}

/-- What there is to say about a file: nothing if it cannot be read, else the result of a run. -/
def verdict (w : Workspace) (entry : SourceEntry) : Outcome (Option RunResult) :=
  match Text.decode ((w.read? entry.parts).getD ByteArray.empty) with
  | .error _ => .ok none
  | .ok text =>
    let input := Input.ofText entry.path text none
    some <$> (e.run (.ofFunction tree) selection input).outcome ⟨(), []⟩

/-- What verdicts add up to. -/
def Checked.ofVerdicts (verdicts : List (Option RunResult)) : Checked :=
  ⟨verdicts.filterMap id, verdicts.any (·.isNone)⟩

/-- The verdict on a file depends on its data only. -/
theorem verdict_congr (hdata : ∀ parts, (w'.read? parts).getD ByteArray.empty =
    (w.read? parts).getD ByteArray.empty) :
    verdict e tree selection w' = verdict e tree selection w := by
  funext entry
  unfold verdict
  rw [hdata]

variable {e tree selection}

theorem gives_printResult {σ : Type} (around : Surroundings) (r : Reporter) (json : Bool)
    (result : RunResult) :
    Gives w (printResult around r json result : Shell σ Unit) (.ok ()) := by
  unfold printResult
  refine (Gives.print _).andThen ?_
  cases json with
  | true => exact Gives.pure _
  | false =>
    have hfindings : Gives w (printFindings around r result.findings : Shell σ Unit) (.ok ()) :=
      ⟨_, fun s _ => ends_printFindings around r result.findings s⟩
    exact hfindings.andThen (Gives.print _)

theorem gives_readSource {σ : Type} (r : Reporter) {entry : SourceEntry} {input? : Option Input}
    (h : input? = match Text.decode ((w.read? entry.parts).getD ByteArray.empty) with
      | .error _ => none
      | .ok text => some (Input.ofText entry.path text none)) :
    Gives w (readSource r entry : Shell σ (Option Input)) (.ok input?) := by
  subst h
  refine Gives.workspace ?_
  cases Text.decode ((w.read? entry.parts).getD ByteArray.empty) with
  | error error => exact (Gives.print _).andThen (Gives.pure _)
  | ok text => exact Gives.pure _

/-- Files are checked one by one; how their results are printed makes no difference. -/
theorem gives_checkFiles (around : Surroundings) (r : Reporter) (json : Bool)
    (files : List SourceEntry) :
    Gives w (checkFiles (.ofFunction tree) around r json e selection files)
      ((Checked.ofVerdicts <$> files.mapM (verdict e tree selection w)).mapError .fault) := by
  induction files with
  | nil => exact Gives.pure _
  | cons entry rest ih =>
    rw [List.mapM_cons, verdict]
    unfold checkFiles
    generalize rest.mapM (verdict e tree selection w) = verdicts at ih
    cases hdecode : Text.decode ((w.read? entry.parts).getD ByteArray.empty) with
    | error error =>
      have hlater := ih.bind fun later => Gives.pure { later with unreadable := true }
      refine (gives_readSource r (by rw [hdecode])).andThen ?_
      cases verdicts with
      | error fault => exact hlater
      | ok verdicts => exact hlater
    | ok text =>
      refine (gives_readSource r (by rw [hdecode])).andThen ?_
      have hrun : Gives w (ofSession r.quiet (e.run (.ofFunction tree) selection
            (Input.ofText entry.path text none)))
          (((e.run (.ofFunction tree) selection (Input.ofText entry.path text none)).outcome
            ⟨(), []⟩).mapError .fault) :=
        ⟨_, fun s _ => ends_ofSession _ _ s⟩
      dsimp only
      generalize (e.run (.ofFunction tree) selection (Input.ofText entry.path text none)).outcome
        ⟨(), []⟩ = outcome at hrun ⊢
      have hlater (result : RunResult) :=
        ih.bind fun later => Gives.pure { later with results := result :: later.results }
      cases outcome with
      | error fault => exact hrun.stop
      | ok result =>
        refine hrun.andThen ((gives_printResult around r json result).andThen ?_)
        cases verdicts with
        | error fault => exact hlater result
        | ok verdicts => exact hlater result

end

/-! ### What is found, whatever is printed -/

section

variable {tree : String → Language → ParseTree} {around : Surroundings} {target : Target}
  {json : Bool} {common : CommonOptions} {w : Workspace}

/-- What a check finds in a workspace in which the log file is there. -/
def inspected (tree : String → Language → ParseTree) (target : Target) (common : CommonOptions)
    (w : Workspace) : Except Stop (Survey × Checked) := do
  let found ← surveyed w target common
  let checked ← (Checked.ofVerdicts <$>
    found.files.mapM (verdict found.engine tree (selectionOf target) w)).mapError .fault
  pure (found, checked)

theorem ends_inspection_of_withLog {s : ShellState Unit}
    (hlog : withLog s.workspace common.logFile = .ok w) :
    ((inspection (.ofFunction tree) around target json common).ends s).1 =
      inspected tree target common w := by
  have hinspects : Gives w _ (inspected tree target common w) :=
    (gives_survey (σ := Unit) (checkReporter around json common) target common).bind fun found =>
      (gives_checkFiles around (checkReporter around json common) json found.files).bind
        fun checked => Gives.pure (found, checked)
  obtain ⟨texts, hends⟩ := hinspects
  unfold inspection
  dsimp only
  rw [ends_bind_of_ok (ends_openLog_of_ok _ hlog), hends (s.moved w) rfl]

/-- If the log file cannot be had, a check does not end with an exit status. -/
theorem exists_withLog_of_exit {s : ShellState Unit} {code : Int}
    (h : endingOf ((inspection (.ofFunction tree) around target json common).ends s).1 =
      .exit code) : ∃ w, withLog s.workspace common.logFile = .ok w := by
  cases hlog : withLog s.workspace common.logFile with
  | error f =>
    unfold inspection at h
    dsimp only at h
    rw [ends_bind, ends_openLog_of_error _ hlog] at h
    cases h
  | ok w => exact ⟨w, rfl⟩

theorem inspected_eq_ok_iff {found : Survey} {checked : Checked} :
    inspected tree target common w = .ok (found, checked) ↔
      surveyed w target common = .ok found ∧ ∃ verdicts,
        found.files.mapM (verdict found.engine tree (selectionOf target) w) = .ok verdicts ∧
          checked = .ofVerdicts verdicts := by
  constructor
  · intro h
    unfold inspected at h
    cases hfound : surveyed w target common with
    | error stop =>
      rw [hfound] at h
      cases h
    | ok found' =>
      rw [hfound] at h
      cases hverdicts : found'.files.mapM (verdict found'.engine tree (selectionOf target) w) with
      | error fault =>
        simp only [bind, Except.bind, hverdicts] at h
        cases h
      | ok verdicts =>
        simp only [bind, Except.bind, hverdicts] at h
        cases h
        exact ⟨rfl, verdicts, hverdicts, rfl⟩
  · rintro ⟨hfound, verdicts, hverdicts, rfl⟩
    simp only [inspected, hfound, bind, Except.bind, hverdicts]
    rfl

/-- Only what is found out first stops with a problem. -/
theorem inspected_eq_problem_iff {p : Problem} :
    inspected tree target common w = .error (.problem p) ↔
      surveyed w target common = .error (.problem p) := by
  unfold inspected
  cases surveyed w target common with
  | error stop => exact ⟨fun h => by cases h; rfl, fun h => by cases h; rfl⟩
  | ok found =>
    refine ⟨fun h => ?_, fun h => nomatch h⟩
    cases hverdicts : found.files.mapM (verdict found.engine tree (selectionOf target) w) with
    | error fault =>
      simp only [bind, Except.bind, hverdicts] at h
      cases h
    | ok verdicts =>
      simp only [bind, Except.bind, hverdicts] at h
      cases h

end

end Shell

end TsxLint
