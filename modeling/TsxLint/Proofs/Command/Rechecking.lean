/-
Module: TsxLint.Proofs.Command.Rechecking
Purpose: A check after mending has the same to tell, and ends with the same exit status.
Main exports: Shell.Account, Account.mendedText, Account.checkedText, Account.exitCode,
  Shell.ends_check_after_fix, Shell.finish_check_after_fix, Program.check_after_fix
-/
import TsxLint.Command.Program
import TsxLint.Proofs.Command.Accounts
import TsxLint.Proofs.Command.Requests

namespace TsxLint

/-!
The two commands that go through files share all they do first: the log file, the settings, the
rules and the list of files.  Mending changes none of what this depends on, unless it rewrites the
very file from which the settings are read.  So the check stops at the same problem, or it goes
through the same files; and there it has the same to tell as the fixing command, file by file.
-/

/-! ### The log file -/

namespace LogOptions

variable {o : LogOptions} {w w' : Workspace} {handlers : List LogHandler}

/-- Setting up a log keeps what there is, and setting it up again changes nothing. -/
theorem setUp_eq_ok (h : o.setUp w = .ok (w', handlers)) :
    w.Grows w' ∧
      (∀ parts, (w'.read? parts).getD ByteArray.empty = (w.read? parts).getD ByteArray.empty) ∧
      ∀ w'', w'.SameFiles w'' → o.setUp w'' = .ok (w'', handlers) := by
  unfold setUp at h ⊢
  obtain ⟨level, hlevel, h⟩ := Outcome.exists_of_bind_eq_ok h
  rw [hlevel]
  cases hfile : o.file? with
  | none =>
    rw [hfile] at h
    cases h
    exact ⟨(Workspace.SameFiles.refl w).grows, fun _ => rfl, fun _ _ => rfl⟩
  | some path =>
    rw [hfile] at h
    obtain ⟨opened, hopened, h⟩ := Outcome.exists_of_bind_eq_ok h
    cases h
    refine ⟨Workspace.grows_of_openLog hopened, Workspace.getD_read?_of_openLog hopened,
      fun w'' hsame => ?_⟩
    change (w''.openLog path >>= _) = _
    rw [Workspace.openLog_again hopened hsame]
    rfl

end LogOptions

namespace Shell

/-- The options of the log of a command. -/
def logOptions (r : Reporter) (common : CommonOptions) : LogOptions :=
  { LogOptions.initial with
    quiet := r.quiet
    verbose := r.verbose
    file := common.logFile
    fileLayout := LogLayout.ofName common.logFormat }

theorem ends_openLog {σ : Type} (r : Reporter) (common : CommonOptions) (s : ShellState σ) :
    (openLog r common).ends s =
      match (logOptions r common).setUp s.workspace with
      | .ok (w, _) => (.ok (), s.moved w)
      | .error f => (.error (.fault f), s) := by
  change (ofOutcome ((logOptions r common).setUp s.workspace) >>= fun opened =>
    (set (s.moved opened.1) : Shell σ Unit)).ends s = _
  rw [ends_bind, ends_ofOutcome]
  cases (logOptions r common).setUp s.workspace with
  | ok opened => rfl
  | error f => rfl

/-! ### Accounts of whole commands -/

/-- What there is to tell in the end. -/
inductive Account where
  | stopped (p : Problem)
  | complete (settings : Settings) (files : List FileAccount)

namespace Account

section

variable (around : Surroundings) (r : Reporter)

/-- What the fixing command prints. -/
def mendedText : Account → List Printed
  | .stopped p => [r.echoLine .err (p.format r.useColor)]
  | .complete settings files =>
    let findings := files.flatMap (·.findings)
    let verb := "changed"
    files.flatMap (FileAccount.mendedText around r) ++
      (r.info s!"{(files.filter (·.isChanged)).length} of {files.length} files {verb}" ++
        r.summary
          { total := findings.length
            fixable := 0
            failed := countFailed settings.failOn findings
            files := some files.length
            milliseconds := some noTime })

/-- What a check prints. -/
def checkedText : Account → List Printed
  | .stopped p => [r.echoLine .err (p.format r.useColor)]
  | .complete settings files =>
    let findings := files.flatMap (·.findings)
    files.flatMap (FileAccount.checkedText around r) ++
      r.summary
        { total := findings.length
          fixable := (findings.filter Finding.fixable).length
          failed := countFailed settings.failOn findings
          files := some (files.filterMap (·.remaining?)).length
          milliseconds := some noTime }

end

/-- The exit status. -/
def exitCode : Account → Int
  | .stopped p => p.exitCode
  | .complete settings files =>
    Shell.exitCode (files.any (·.isUnreadable))
      (countFailed settings.failOn (files.flatMap (·.findings)))

/-- The accounts of files are those of the files of a workspace, mended with the rules of the
catalog under the settings. -/
def IsOf (tree : String → Language → ParseTree) (selection : RuleSelection) (w : Workspace) :
    Account → Prop
  | .stopped _ => True
  | .complete settings files =>
    ∀ a ∈ files, a.IsOf (Engine.ofSettings settings) tree selection w

/-- They depend on the data of the files only. -/
theorem IsOf.congr {tree : String → Language → ParseTree} {selection : RuleSelection}
    {w w' : Workspace} {a : Account} (h : a.IsOf tree selection w)
    (hdata : ∀ parts, (w'.read? parts).getD ByteArray.empty =
      (w.read? parts).getD ByteArray.empty) : a.IsOf tree selection w' := by
  cases a with
  | stopped p => trivial
  | complete settings files => exact fun file hfile => (h file hfile).congr (hdata _)

end Account

/-- The findings of the results of a check are those of the accounts. -/
theorem flatMap_remaining? (accounts : List FileAccount) :
    (accounts.filterMap (·.remaining?)).flatMap (·.findings) =
      accounts.flatMap (·.findings) := by
  induction accounts with
  | nil => rfl
  | cons a rest ih =>
    rw [List.flatMap_cons, ← ih]
    cases a with
    | unreadable entry error => rfl
    | mended entry warnings result =>
      have hfindings : (FileAccount.mended entry warnings result).findings =
          result.remaining.findings := List.append_nil _
      rw [hfindings]
      rfl

/-! ### Behind the survey -/

section

variable {σ : Type}

/-- What the fixing command does with what it found out first. -/
def mendAll (grammar : Grammar σ) (around : Surroundings) (r : Reporter) (target : Target)
    (found : Survey) : Shell σ Int := do
  let mended ← fixFiles grammar around r false found.engine (selectionOf target) found.files
  let failed := countFailed found.loaded.settings.failOn mended.remaining
  let verb := "changed"
  print (r.info s!"{mended.changed} of {found.files.length} files {verb}")
  print (r.summary
    { total := mended.remaining.length
      fixable := 0
      failed := failed
      files := some found.files.length
      milliseconds := some noTime })
  pure (Shell.exitCode mended.unreadable failed)

/-- What a check does with what it found out first. -/
def checkAll (grammar : Grammar σ) (around : Surroundings) (r : Reporter) (target : Target)
    (found : Survey) : Shell σ Int := do
  let checked ← checkFiles grammar around r false found.engine (selectionOf target) found.files
  printChecked around r false found.loaded.settings checked.results
  let failed := countFailed found.loaded.settings.failOn (checked.results.flatMap (·.findings))
  pure (Shell.exitCode checked.unreadable failed)

theorem fix_eq (grammar : Grammar σ) (around : Surroundings) (target : Target)
    (common : CommonOptions) :
    fix grammar around target false common =
      let r := reporter around common.verbose common.quiet common.noColor
      openLog r common >>= fun _ =>
        orReport r (survey r target common >>= mendAll grammar around r target) := by
  unfold fix survey mendAll
  simp only [bind_assoc, pure_bind]
  rfl

theorem check_eq (grammar : Grammar σ) (around : Surroundings) (target : Target)
    (common : CommonOptions) :
    check grammar around target false common =
      let r := reporter around common.verbose common.quiet common.noColor
      openLog r common >>= fun _ =>
        orReport r (survey r target common >>= checkAll grammar around r target) := by
  unfold check survey checkAll
  simp only [bind_assoc, pure_bind, Bool.or_false]

end

section

variable {tree : String → Language → ParseTree} {around : Surroundings} {r : Reporter}
  {target : Target} {common : CommonOptions} {found : Survey}

variable (tree around r target found) in
/-- What follows on a survey of files that are there: a fault, or an account of each file. -/
theorem ends_mendAll {s : ShellState Unit} (hlisted : Listed s.workspace found.files) :
    (∃ fault s', (mendAll (.ofFunction tree) around r target found).ends s =
      (.error (.fault fault), s')) ∨
    ∃ accounts w', accounts.map (·.entry) = found.files ∧
      Mends found.engine tree (selectionOf target) accounts s.workspace w' ∧
      (mendAll (.ofFunction tree) around r target found).ends s =
        (.ok (Account.complete found.loaded.settings accounts).exitCode,
          (s.moved w').said
            ((Account.complete found.loaded.settings accounts).mendedText around r)) := by
  unfold mendAll
  rcases ends_fixFiles found.engine tree (selectionOf target) around r hlisted with
    ⟨fault, s', hends⟩ | ⟨accounts, w', hfiles, hmends, hends⟩
  · refine .inl ⟨fault, s', ?_⟩
    rw [ends_bind, hends]
  · refine .inr ⟨accounts, w', hfiles, hmends, ?_⟩
    have hlength : found.files.length = accounts.length := by
      rw [← hfiles, List.length_map]
    rw [ends_bind_of_ok hends, hlength]
    dsimp only
    rw [ends_bind_of_ok (ends_print _ _), ends_bind_of_ok (ends_print _ _), ends_pure,
      ShellState.said_said, ShellState.said_said]
    rfl

theorem ends_checkAll {s : ShellState Unit} {accounts : List FileAccount}
    (hfiles : accounts.map (·.entry) = found.files)
    (hfits : ∀ a ∈ accounts, a.Fits found.engine tree (selectionOf target) s.workspace) :
    (checkAll (.ofFunction tree) around r target found).ends s =
      (.ok (Account.complete found.loaded.settings accounts).exitCode,
        s.said ((Account.complete found.loaded.settings accounts).checkedText around r)) := by
  unfold checkAll
  rw [← hfiles, ends_bind_of_ok (ends_checkFiles around r hfits)]
  dsimp only
  rw [printChecked, if_neg Bool.false_ne_true, flatMap_remaining?]
  dsimp only
  rw [ends_bind_of_ok (ends_print _ _), ends_pure, ShellState.said_said]
  rfl

/-- Mending leaves alone what a survey depends on, if it leaves alone the settings that are named
explicitly. -/
theorem alike_of_mends {e : Engine} {selection : RuleSelection} {accounts : List FileAccount}
    {w w' : Workspace} (hlisted : Listed w (accounts.map (·.entry)))
    (hmends : Mends e tree selection accounts w w')
    (hexplicit : ∀ path, common.config = some path →
      Settings.loadExplicit ((w'.readAt path).getD ByteArray.empty) =
        Settings.loadExplicit ((w.readAt path).getD ByteArray.empty)) : Alike common w w' := by
  have hcontent {name : String} (hname : ¬ (Language.ofPath? ⟨"", [name]⟩).isSome = true) :
      w'.contentAt [name] = w.contentAt [name] := by
    refine hmends.files.contentAt (hmends.others _ fun hmem => hname ?_)
    obtain ⟨a, ha, hparts⟩ := List.mem_map.1 hmem
    have hsource := hlisted.source a.entry (List.mem_map_of_mem ha)
    rw [hparts] at hsource
    exact hsource name rfl
  refine ⟨hmends.files, ?_, hexplicit⟩
  unfold Workspace.layers
  rw [hmends.files.path, hmends.files.user, hcontent (by decide), hcontent (by decide)]

/-- Both commands begin with the log file. -/
theorem ends_behind_log (command : Shell Unit Int) (s : ShellState Unit) :
    (openLog r common >>= fun _ => orReport r command).ends s =
      match (logOptions r common).setUp s.workspace with
      | .ok (w, _) => (orReport r command).ends (s.moved w)
      | .error f => (.error (.fault f), s) := by
  rw [ends_bind, ends_openLog]
  cases (logOptions r common).setUp s.workspace with
  | ok opened => rfl
  | error f => rfl

/-- A command that ends with an exit status goes on in the workspace that the log file leaves. -/
theorem exists_log_of_finish {command : Shell Unit Int} {s s' : ShellState Unit} {code : Int}
    (h : (openLog r common >>= fun _ => orReport r command).finish s = (.exit code, s')) :
    ∃ w handlers, (logOptions r common).setUp s.workspace = .ok (w, handlers) ∧
      (orReport r command).ends (s.moved w) = (.ok code, s') := by
  have hends := ends_of_finish_eq_exit h
  rw [ends_behind_log] at hends
  cases hlog : (logOptions r common).setUp s.workspace with
  | error f =>
    rw [hlog] at hends
    rcases hends with hends | ⟨p, hends, -⟩
    · cases hends
    · cases hends
  | ok opened =>
    rw [hlog] at hends
    rcases hends with hends | ⟨p, hends, -⟩
    · exact ⟨opened.1, opened.2, rfl, hends⟩
    · exact absurd hends ends_orReport_ne_problem

/-- A problem that the survey stops with is all there is to tell. -/
theorem ends_of_survey_problem (next : Survey → Shell Unit Int) {opening : List Printed}
    {p : Problem} {s : ShellState Unit}
    (h : (survey r target common).ends s = (.error (.problem p), s.said opening)) :
    (orReport r (survey r target common >>= next)).ends s =
      (.ok p.exitCode, s.said (opening ++ [r.echoLine .err (p.format r.useColor)])) := by
  rw [ends_orReport, ends_bind, h]
  dsimp only
  rw [ShellState.said_said]

/-- Behind a survey a command goes on with what was found. -/
theorem ends_of_survey (next : Survey → Shell Unit Int) {opening : List Printed}
    {s : ShellState Unit} (h : (survey r target common).ends s = (.ok found, s.said opening)) :
    (orReport r (survey r target common >>= next)).ends s =
      (orReport r (next found)).ends (s.said opening) := by
  rw [ends_orReport, ends_orReport, ends_bind_of_ok h]

/-- Behind the log file: mending has something to tell, and a check has the same to tell of the
files as they are then. -/
theorem ends_check_after_fix {s s₁ : ShellState Unit} {code : Int}
    (hnormal : ∀ part ∈ s.workspace.path.parts, FilePath.IsPart part)
    (hthere : ∀ raw ∈ target.paths, (s.workspace.kindOf raw).isSome = true)
    (hfix : (orReport r (survey r target common >>=
      mendAll (.ofFunction tree) around r target)).ends s = (.ok code, s₁))
    (hexplicit : ∀ path, common.config = some path →
      Settings.loadExplicit ((s₁.workspace.readAt path).getD ByteArray.empty) =
        Settings.loadExplicit ((s.workspace.readAt path).getD ByteArray.empty)) :
    s.workspace.SameFiles s₁.workspace ∧
      ∃ (opening : List Printed) (account : Account),
        account.IsOf tree (selectionOf target) s.workspace ∧ account.exitCode = code ∧
        s₁.printed = s.printed ++ (opening ++ account.mendedText around r) ∧
        (orReport r (survey r target common >>=
          checkAll (.ofFunction tree) around r target)).ends s₁ =
          (.ok code, s₁.said (opening ++ account.checkedText around r)) := by
  have hsurveys : Reads (Alike common s.workspace) (survey r target common : Shell Unit Survey) :=
    reads_survey common s.workspace r target
  obtain ⟨result, opening, hreads⟩ := hsurveys
  have hsurvey := hreads s (.refl _ _)
  cases result with
  | error stop =>
    cases stop with
    | fault f =>
      rw [ends_orReport, ends_bind, hsurvey] at hfix
      cases hfix
    | problem p =>
      rw [ends_of_survey_problem _ hsurvey] at hfix
      cases hfix
      exact ⟨.refl _, opening, .stopped p, trivial, rfl, rfl,
        ends_of_survey_problem _ (hreads _ (.refl _ _))⟩
  | ok found =>
    have hlisted : Listed s.workspace found.files := listed_of_survey hnormal hthere hsurvey
    rw [ends_of_survey _ hsurvey, ends_orReport] at hfix
    rcases ends_mendAll tree around r target found (s := s.said opening) hlisted with
      ⟨f, s', hmend⟩ | ⟨accounts, w', hfiles, hmends, hmend⟩
    · rw [hmend] at hfix
      cases hfix
    · rw [hmend] at hfix
      cases hfix
      have halike : Alike common s.workspace w' :=
        alike_of_mends (hfiles ▸ hlisted) hmends hexplicit
      have hengine := engine_of_survey hsurvey
      refine ⟨hmends.files, opening, .complete found.loaded.settings accounts,
        fun a ha => hengine ▸ hmends.isOf a ha, rfl, ?_, ?_⟩
      · simp only [ShellState.printed_said, ShellState.printed_moved, List.append_assoc]
      · rw [ends_of_survey _ (hreads _ halike), ends_orReport, ends_checkAll hfiles hmends.fits,
          ShellState.said_said]

/-- The fixing command has something to tell, and a check after it has the same to tell, in the
same order, and ends with the same exit status. -/
theorem finish_check_after_fix {s s₁ : ShellState Unit} {code : Int}
    (hnormal : ∀ part ∈ s.workspace.path.parts, FilePath.IsPart part)
    (hthere : ∀ raw ∈ target.paths, (s.workspace.kindOf raw).isSome = true)
    (hfix : (fix (.ofFunction tree) around target false common).finish s = (.exit code, s₁))
    (hexplicit : ∀ path, common.config = some path →
      Settings.loadExplicit ((s₁.workspace.readAt path).getD ByteArray.empty) =
        Settings.loadExplicit ((s.workspace.readAt path).getD ByteArray.empty)) :
    let r := reporter around common.verbose common.quiet common.noColor
    s.workspace.Grows s₁.workspace ∧
      ∃ (opening : List Printed) (account : Account),
        account.IsOf tree (selectionOf target) s.workspace ∧ account.exitCode = code ∧
        s₁.printed = s.printed ++ (opening ++ account.mendedText around r) ∧
        (check (.ofFunction tree) around target false common).finish s₁ =
          (.exit code, s₁.said (opening ++ account.checkedText around r)) := by
  intro r
  rw [fix_eq] at hfix
  obtain ⟨w₀, handlers, hlog, hends⟩ := exists_log_of_finish hfix
  obtain ⟨hgrows, hdata, hagain⟩ := LogOptions.setUp_eq_ok hlog
  have hexplicit₀ (path : String) (hpath : common.config = some path) :
      Settings.loadExplicit ((s₁.workspace.readAt path).getD ByteArray.empty) =
        Settings.loadExplicit ((w₀.readAt path).getD ByteArray.empty) := by
    rw [hexplicit path hpath, hgrows.getD_readAt hdata]
  obtain ⟨hsame, opening, account, hisOf, hcode, hprinted, hcheck⟩ :=
    ends_check_after_fix (s := s.moved w₀) (hgrows.path.symm ▸ hnormal)
      (fun raw hraw => hgrows.isSome_kindOf (hthere raw hraw)) hends hexplicit₀
  refine ⟨hgrows.trans hsame.grows, opening, account, hisOf.congr fun _ => (hdata _).symm, hcode,
    hprinted, ?_⟩
  rw [check_eq, finish_eq]
  dsimp only
  rw [ends_behind_log, hagain _ hsame]
  dsimp only
  rw [ShellState.moved_workspace, hcheck]

end

end Shell

namespace Program

/-! ### The whole program -/

/-- After a run that mended files and ended with an exit status, the same words under the name of
the other command tell file by file, and in the same order, what was reported to remain, and end
with the same exit status.  A settings file that is named explicitly has to give the same settings
as before. -/
theorem check_after_fix {tree : String → Language → ParseTree} {around : Surroundings}
    {words : List String} {target : Target} {common : CommonOptions} {s s₁ : ShellState Unit}
    {code : Int} (hplace : ∃ text, s.workspace.path = FilePath.parse text)
    (hwords : Request.ofWords s.workspace ("fix" :: words) = .ok (.fix target false common))
    (hfix : run (.ofFunction tree) around ("fix" :: words) s = (.exit code, s₁))
    (hexplicit : ∀ path, common.config = some path →
      Settings.loadExplicit ((s₁.workspace.readAt path).getD ByteArray.empty) =
        Settings.loadExplicit ((s.workspace.readAt path).getD ByteArray.empty)) :
    let r := Shell.reporter around common.verbose common.quiet common.noColor
    ∃ (opening : List Printed) (account : Shell.Account),
      account.IsOf tree (Shell.selectionOf target) s.workspace ∧ account.exitCode = code ∧
      s₁.printed = s.printed ++ (opening ++ account.mendedText around r) ∧
      run (.ofFunction tree) around ("check" :: words) s₁ =
        (.exit code, s₁.said (opening ++ account.checkedText around r)) := by
  intro r
  have hnormal : ∀ part ∈ s.workspace.path.parts, FilePath.IsPart part := by
    obtain ⟨text, htext⟩ := hplace
    rw [htext]
    exact fun part => FilePath.isPart_of_mem_parse
  rw [run, hwords] at hfix
  obtain ⟨hgrows, opening, account, hisOf, hcode, hprinted, hcheck⟩ :=
    Shell.finish_check_after_fix hnormal (Request.exists_of_ofWords_fix hwords) hfix hexplicit
  refine ⟨opening, account, hisOf, hcode, hprinted, ?_⟩
  rw [run, Request.ofWords_check_of_fix hgrows hwords]
  exact hcheck

/-! Three texts of seven bytes are taken to be functions with a name in braces, one of them with
errors in it, and all others to be blank.  The second of them happens to be a file of settings. -/

/-- The tree of a function with a name in braces. -/
def bracedFunction : Tree :=
  let name : Tree := .node "identifier" true "" 5 6 []
  let statement : Tree := .node "expression_statement" true "" 5 6 [name]
  .node "arrow_function" true "" 0 7 [.node "statement_block" true "body" 0 7 [statement]]

/-- The trees of the three texts, and of all others. -/
def bracedTree (text : String) (_ : Language) : ParseTree where
  root :=
    let isBraced := ["()=>\x7bf\x7d", "\x7b\x22a\x22:1\x7d", "()=>\x7bg\x7d"].contains text
    .node "program" true "" 0 7 (if isBraced then [bracedFunction] else [])
  hasErrors := text == "()=>\x7bg\x7d"

/-- No terminal, and nothing said about colours. -/
def plain : Surroundings := ⟨false, false, false, "2000-01-01T00:00:00"⟩

/-- A working directory with files in it. -/
def holding (files : List (String × String)) : ShellState Unit where
  supply := ()
  workspace :=
    ⟨FilePath.parse "/work", files.map fun file => ([file.1], file.2.toUTF8),
      ⟨⟨"/", ["home", "tsxguard.json"]⟩, .absent⟩⟩
  printed := []

/-- A file to mend, one with errors in it, and settings. -/
def mixedState : ShellState Unit :=
  holding [("a.tsx", "()=>\x7bf\x7d"), ("b.tsx", "()=>\x7bg\x7d"), ("c.json", "\x7b\x7d")]

/-- Words that name all of them. -/
def mixedWords : List String := ["--config", "c.json", "a.tsx", "b.tsx"]

/-- What they ask to look at. -/
def mixedTarget : Target := ⟨["a.tsx", "b.tsx"], [], []⟩

/-- The other options among them. -/
def mixedOptions : CommonOptions := ⟨false, false, false, some "c.json", none, "text"⟩

theorem ofWords_mixedWords :
    Request.ofWords mixedState.workspace ("fix" :: mixedWords) =
      .ok (.fix mixedTarget false mixedOptions) := by
  decide +kernel

/-- The exit status of an ending, if it has one. -/
def status? (ending : Ending) : Option Int :=
  match ending with
  | .exit code => some code
  | _ => none

theorem eq_exit_of_status? {ending : Ending} {code : Int} (h : status? ending = some code) :
    ending = .exit code := by
  cases ending with
  | exit c => exact congrArg Ending.exit (Option.some.inj h)
  | usage e => cases h
  | fault f => cases h

/-- What is left behind when they have been mended. -/
def mixedAfter : ShellState Unit :=
  (run (.ofFunction bracedTree) plain ("fix" :: mixedWords) mixedState).2

theorem run_mixedWords :
    run (.ofFunction bracedTree) plain ("fix" :: mixedWords) mixedState =
      (.exit 1, mixedAfter) :=
  Prod.ext (eq_exit_of_status? (by decide +kernel)) rfl

/-- One of two files is mended, and what is left in the other one is told again. -/
theorem check_after_fix_of_mixed :
    let r := Shell.reporter plain mixedOptions.verbose mixedOptions.quiet mixedOptions.noColor
    ∃ (opening : List Printed) (account : Shell.Account),
      account.IsOf bracedTree (Shell.selectionOf mixedTarget) mixedState.workspace ∧
      account.exitCode = 1 ∧
      mixedAfter.printed = mixedState.printed ++ (opening ++ account.mendedText plain r) ∧
      run (.ofFunction bracedTree) plain ("check" :: mixedWords) mixedAfter =
        (.exit 1, mixedAfter.said (opening ++ account.checkedText plain r)) := by
  have hplace : ∃ text, mixedState.workspace.path = FilePath.parse text := ⟨"/work", rfl⟩
  have hsame : mixedAfter.workspace.readAt "c.json" = mixedState.workspace.readAt "c.json" := by
    decide +kernel
  refine check_after_fix hplace ofWords_mixedWords run_mixedWords fun path hpath => ?_
  have hpath : path = "c.json" := (Option.some.inj hpath).symm
  rw [hpath, hsame]

/-- Words that name one file as settings and as a file to mend. -/
def selfWords : List String := ["--config", "a.tsx", "a.tsx"]

/-- When mending rewrites the settings that are named explicitly, a check may end otherwise. -/
theorem check_may_miss_settings :
    ¬ ∀ (tree : String → Language → ParseTree) (words : List String) (s s₁ : ShellState Unit)
      (target : Target) (common : CommonOptions) (code : Int),
      (∃ text, s.workspace.path = FilePath.parse text) →
      Request.ofWords s.workspace ("fix" :: words) = .ok (.fix target false common) →
      run (.ofFunction tree) plain ("fix" :: words) s = (.exit code, s₁) →
      (run (.ofFunction tree) plain ("check" :: words) s₁).1 = .exit code := by
  intro h
  let s := holding [("a.tsx", "\x7b\x22a\x22:1\x7d")]
  let s₁ := (run (.ofFunction bracedTree) plain ("fix" :: selfWords) s).2
  have hfix : run (.ofFunction bracedTree) plain ("fix" :: selfWords) s = (.exit 0, s₁) :=
    Prod.ext (eq_exit_of_status? (by decide +kernel)) rfl
  have hwords : Request.ofWords s.workspace ("fix" :: selfWords) =
      .ok (.fix ⟨["a.tsx"], [], []⟩ false ⟨false, false, false, some "a.tsx", none, "text"⟩) := by
    decide +kernel
  have hcheck := h bracedTree selfWords s s₁ _ _ 0 ⟨"/work", rfl⟩ hwords hfix
  have hstatus : status? (run (.ofFunction bracedTree) plain ("check" :: selfWords) s₁).1 =
      some 2 := by
    decide +kernel
  rw [hcheck] at hstatus
  exact absurd hstatus (by decide)

end Program

end TsxLint
