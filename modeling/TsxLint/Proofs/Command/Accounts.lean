/-
Module: TsxLint.Proofs.Command.Accounts
Purpose: What the fixing command does and tells file by file, and a check after it.
Main exports: Shell.FileAccount, FileAccount.mendedText, FileAccount.checkedText,
  FileAccount.IsOf, FileAccount.Fits, Shell.ends_fixFiles, Shell.ends_checkFiles
-/
import TsxLint.Command.Fix
import TsxLint.Proofs.Command.Survey
import TsxLint.Proofs.Engine.Remaining

namespace TsxLint

/-!
For each file the fixing command has to tell that it cannot be read, or what became of it
(`Shell.FileAccount`).  When the command is over, the files are such that a check of them has the
same to tell: those that cannot be read are as they were, and the others hold the text that was
handed back, on which a run reports what was reported to remain (`FileAccount.Fits`).
-/

/-! ### Warnings of a run -/

namespace Session

variable {σ α β : Type}

theorem left_bind_of_ok {session : Session σ α} {next : α → Session σ β} {desk : Desk σ} {a : α}
    (h : session.outcome desk = .ok a) :
    (session >>= next).left desk = (next a).left (session.left desk) := by
  unfold outcome at h
  unfold left
  rw [ExceptT.run_bind, StateT.run_bind]
  cases hrun : StateT.run (m := Id) (ExceptT.run session) desk with
  | mk result desk' =>
    rw [hrun] at h
    subst h
    rfl

theorem left_parse (tree : String → Language → ParseTree) (input : Input) (desk : Desk Unit) :
    (parse (.ofFunction tree) input).left desk = desk := by
  unfold parse
  cases hlanguage : Language.resolve input.language input.path with
  | error fault => rfl
  | ok language =>
    change (ofOutcome (SourceFile.ofTree input.path language input.text
      (tree input.text language)) : Session Unit SourceFile).left desk = desk
    exact left_ofOutcome _ _

end Session

/-- A run gives the warnings of its report and no others. -/
theorem Engine.warnings_run {e : Engine} {tree : String → Language → ParseTree}
    {selection : RuleSelection} {input : Input} {result : RunResult} (desk : Desk Unit)
    (h : e.report tree selection input = .ok result) :
    ((e.run (.ofFunction tree) selection input).left desk).warnings =
      desk.warnings ++ result.warnings := by
  obtain ⟨source, hsource, h⟩ := Outcome.exists_of_bind_eq_ok h
  cases h
  have hparse : (Session.parse (.ofFunction tree) input).outcome desk = .ok source :=
    (parse_answers input desk).trans hsource
  rw [run, Session.left_bind_of_ok hparse, Session.left_parse]
  rfl

/-- A new text in place of the text of an input. -/
theorem Input.ofText_with_text (path : FilePath) (text content : String) :
    { Input.ofText path text none with text := content } = Input.ofText path content none := by
  simp only [Input.ofText]

/-- The fixer hands back the text it was given along with the new one. -/
theorem Engine.before_of_mended_eq_ok {e : Engine} {tree : String → Language → ParseTree}
    {selection : RuleSelection} {input : Input} {result : FixResult}
    (h : e.mended tree selection input = .ok result) : result.before = input.text := by
  obtain ⟨_, _, -, rfl, -⟩ := settles_of_mended_eq_ok h
  rfl

namespace Shell

/-! ### Accounts -/

/-- What there is to tell about a file. -/
inductive FileAccount where
  | unreadable (entry : SourceEntry) (error : Text.Utf8Error)
  | mended (entry : SourceEntry) (warnings : List Warning) (result : FixResult)

namespace FileAccount

/-- The file that an account is about. -/
def entry : FileAccount → SourceEntry
  | .unreadable entry _ => entry
  | .mended entry _ _ => entry

/-- What is left to report on a file, if it can be read. -/
def remaining? : FileAccount → Option RunResult
  | .unreadable _ _ => none
  | .mended _ _ result => some result.remaining

/-- The findings that are left. -/
def findings (a : FileAccount) : List Finding := a.remaining?.toList.flatMap (·.findings)

/-- Whether a file cannot be read. -/
def isUnreadable (a : FileAccount) : Bool := a.remaining?.isNone

/-- Whether a file was written. -/
def isChanged : FileAccount → Bool
  | .unreadable _ _ => false
  | .mended _ _ result => result.changed

end FileAccount

/-- The line for a file that cannot be read. -/
def unreadableText (r : Reporter) (entry : SourceEntry) (error : Text.Utf8Error) : List Printed :=
  r.error (Problem.unreadableFile entry.path.text (some error.message)).message

/-- The line for what became of a file, if there is one. -/
def deliveredText (r : Reporter) (entry : SourceEntry) (result : FixResult) : List Printed :=
  if result.changed then
    r.success s!"{entry.path.text}: {result.applied} fixes in {result.passes} passes"
  else if result.remaining.hasSyntaxErrors then
    r.warning s!"{entry.path.text}: not fixed, file has syntax errors"
  else []

/-- The lines for what a run found. -/
def resultText (around : Surroundings) (r : Reporter) (result : RunResult) : List Printed :=
  let path := result.path.text
  let found := result.findings.length
  r.debug s!"{path}: {found} findings from {result.executed} rules in {noTime.fixed 1}ms" ++
    result.findings.flatMap (findingText around r) ++
    result.errors.flatMap fun e => r.warning s!"{path}: rule {e.ruleId} failed: {e.fault.message}"

namespace FileAccount

variable (around : Surroundings) (r : Reporter)

/-- What the fixing command prints about a file. -/
def mendedText : FileAccount → List Printed
  | .unreadable entry error => unreadableText r entry error
  | .mended entry warnings result =>
    warningText r.quiet warnings ++ deliveredText r entry result ++
      result.remaining.findings.flatMap (findingText around r)

/-- What a check prints about a file. -/
def checkedText : FileAccount → List Printed
  | .unreadable entry error => unreadableText r entry error
  | .mended _ _ result =>
    warningText r.quiet result.remaining.warnings ++ resultText around r result.remaining

end FileAccount

section

variable (e : Engine) (tree : String → Language → ParseTree) (selection : RuleSelection)

/-- The account of a file as it is before it is mended. -/
def FileAccount.IsOf (w : Workspace) : FileAccount → Prop
  | .unreadable entry error =>
    Text.decode ((w.read? entry.parts).getD ByteArray.empty) = .error error
  | .mended entry _ result => ∃ text,
    Text.decode ((w.read? entry.parts).getD ByteArray.empty) = .ok text ∧
      (e.fix (.ofFunction tree) selection (Input.ofText entry.path text none)).outcome ⟨(), []⟩ =
        .ok result

/-- A check of the file has the same to tell as the account. -/
def FileAccount.Fits (w : Workspace) : FileAccount → Prop
  | .unreadable entry error =>
    Text.decode ((w.read? entry.parts).getD ByteArray.empty) = .error error
  | .mended entry _ result =>
    Text.decode ((w.read? entry.parts).getD ByteArray.empty) = .ok result.content ∧
      e.report tree selection (Input.ofText entry.path result.content none) = .ok result.remaining

end

/-- Both depend on the data of the file only. -/
theorem FileAccount.IsOf.congr {e : Engine} {tree : String → Language → ParseTree}
    {selection : RuleSelection} {w w' : Workspace} {a : FileAccount}
    (h : a.IsOf e tree selection w)
    (hdata : (w'.read? a.entry.parts).getD ByteArray.empty =
      (w.read? a.entry.parts).getD ByteArray.empty) : a.IsOf e tree selection w' := by
  cases a with
  | unreadable entry error => exact (congrArg Text.decode hdata).trans h
  | mended entry warnings result =>
    obtain ⟨text, htext, hresult⟩ := h
    exact ⟨text, (congrArg Text.decode hdata).trans htext, hresult⟩

theorem FileAccount.Fits.congr {e : Engine} {tree : String → Language → ParseTree}
    {selection : RuleSelection} {w w' : Workspace} {a : FileAccount}
    (h : a.Fits e tree selection w)
    (hdata : (w'.read? a.entry.parts).getD ByteArray.empty =
      (w.read? a.entry.parts).getD ByteArray.empty) : a.Fits e tree selection w' := by
  cases a with
  | unreadable entry error => exact (congrArg Text.decode hdata).trans h
  | mended entry warnings result => exact ⟨(congrArg Text.decode hdata).trans h.1, h.2⟩

/-! ### Reading and delivering a file -/

section

variable {σ : Type}

theorem ends_readSource (r : Reporter) (entry : SourceEntry) (s : ShellState σ) :
    (readSource r entry).ends s =
      match Text.decode ((s.workspace.read? entry.parts).getD ByteArray.empty) with
      | .ok text => (.ok (some (Input.ofText entry.path text none)), s)
      | .error error => (.ok none, s.said (unreadableText r entry error)) := by
  unfold readSource
  rw [ends_bind_of_ok (ends_workspace s)]
  dsimp only
  cases Text.decode ((s.workspace.read? entry.parts).getD ByteArray.empty) with
  | ok text => rfl
  | error error => rfl

/-- The workspace after a file was delivered. -/
def delivered (w : Workspace) (entry : SourceEntry) (result : FixResult) : Workspace :=
  if result.changed then w.write entry.parts result.content.toUTF8 else w

theorem ends_deliver (r : Reporter) (entry : SourceEntry) (result : FixResult) (s : ShellState σ) :
    (deliver r false entry result).ends s =
      (.ok (), (s.moved (delivered s.workspace entry result)).said
        (deliveredText r entry result)) := by
  unfold deliver delivered deliveredText
  dsimp only
  by_cases hchanged : result.changed = true
  · rw [if_pos hchanged, if_pos hchanged, if_pos hchanged, if_neg Bool.false_ne_true]
    rfl
  · rw [if_neg hchanged, if_neg hchanged, if_neg hchanged]
    by_cases hbroken : result.remaining.hasSyntaxErrors = true
    · rw [if_pos hbroken, if_pos hbroken]
      rfl
    · rw [if_neg hbroken, if_neg hbroken, ShellState.said_nil]
      rfl

theorem ends_printResult (around : Surroundings) (r : Reporter) (result : RunResult)
    (s : ShellState σ) :
    (printResult around r false result).ends s = (.ok (), s.said (resultText around r result)) := by
  unfold printResult
  dsimp only
  rw [ends_bind_of_ok (ends_print _ _)]
  change (printFindings around r result.findings >>= fun _ => print _).ends _ = _
  rw [ends_bind_of_ok (ends_printFindings _ _ _ _), ends_print, ShellState.said_said,
    ShellState.said_said, ← List.append_assoc]
  rfl

end

/-! ### Mending files one by one -/

section

variable {e : Engine} {tree : String → Language → ParseTree} {selection : RuleSelection}
  {around : Surroundings} {r : Reporter} {w w' : Workspace}

/-- What accounts add up to. -/
def Mended.ofAccounts (accounts : List FileAccount) : Mended where
  changed := (accounts.filter (·.isChanged)).length
  remaining := accounts.flatMap (·.findings)
  unreadable := accounts.any (·.isUnreadable)

theorem Mended.ofAccounts_mended (entry : SourceEntry) (warnings : List Warning)
    (result : FixResult) (accounts : List FileAccount) :
    ofAccounts (.mended entry warnings result :: accounts) =
      { ofAccounts accounts with
        changed := (ofAccounts accounts).changed + if result.changed then 1 else 0
        remaining := result.remaining.findings ++ (ofAccounts accounts).remaining } := by
  have hchanged : (FileAccount.mended entry warnings result).isChanged = result.changed := rfl
  have hfindings : (FileAccount.mended entry warnings result).findings =
      result.remaining.findings := List.append_nil _
  unfold ofAccounts
  rw [List.filter_cons, hchanged, List.flatMap_cons, hfindings]
  cases result.changed <;> rfl

/-- Mending files has led from one workspace to another one: there is an account of each file as it
was, and a check has the same to tell of it as it is now; nothing else was written. -/
structure Mends (e : Engine) (tree : String → Language → ParseTree) (selection : RuleSelection)
    (accounts : List FileAccount) (w w' : Workspace) : Prop where
  isOf : ∀ a ∈ accounts, a.IsOf e tree selection w
  fits : ∀ a ∈ accounts, a.Fits e tree selection w'
  files : w.SameFiles w'
  others : ∀ parts ∉ accounts.map (·.entry.parts), w'.read? parts = w.read? parts

theorem Mends.nil (w : Workspace) : Mends e tree selection [] w w :=
  ⟨fun _ hmem => (nomatch hmem), fun _ hmem => (nomatch hmem), .refl w, fun _ _ => rfl⟩

/-- Mending one file and then others that are not that file. -/
theorem Mends.cons {a : FileAccount} {accounts : List FileAccount} {w₁ : Workspace}
    (hisOf : a.IsOf e tree selection w) (hfits : a.Fits e tree selection w₁)
    (hfiles : w.SameFiles w₁)
    (hothers : ∀ parts, parts ≠ a.entry.parts → w₁.read? parts = w.read? parts)
    (hfresh : a.entry.parts ∉ accounts.map (·.entry.parts))
    (h : Mends e tree selection accounts w₁ w') : Mends e tree selection (a :: accounts) w w' where
  isOf := by
    refine List.forall_mem_cons.2 ⟨hisOf, fun other hother => (h.isOf other hother).congr ?_⟩
    rw [hothers]
    exact fun hsame => hfresh (List.mem_map.2 ⟨other, hother, hsame⟩)
  fits := by
    refine List.forall_mem_cons.2 ⟨hfits.congr ?_, h.fits⟩
    rw [h.others _ hfresh]
  files := hfiles.trans h.files
  others parts hparts := by
    obtain ⟨hne, hrest⟩ := not_or.1 (mt List.mem_cons.2 hparts)
    rw [h.others parts hrest, hothers parts hne]

/-- A file that is delivered holds the text that is handed back. -/
theorem decode_delivered {entry : SourceEntry} {text : String} {result : FixResult}
    (hpresent : (w.read? entry.parts).isSome = true)
    (htext : Text.decode ((w.read? entry.parts).getD ByteArray.empty) = .ok text)
    (hbefore : result.before = text) :
    Text.decode (((delivered w entry result).read? entry.parts).getD ByteArray.empty) =
      .ok result.content := by
  unfold delivered
  by_cases hchanged : result.changed = true
  · rw [if_pos hchanged, Workspace.read?_write hpresent, if_pos rfl]
    exact Text.decode_toUTF8 _
  · have hsame : result.content = result.before := by
      simpa [FixResult.changed] using hchanged
    rw [if_neg hchanged, hsame, hbefore]
    exact htext

/-- A file that was mended and delivered is such that a check has the same to tell. -/
theorem fits_delivered {entry : SourceEntry} {text : String} {result : FixResult}
    (warnings : List Warning) (hpresent : (w.read? entry.parts).isSome = true)
    (htext : Text.decode ((w.read? entry.parts).getD ByteArray.empty) = .ok text)
    (hmended : e.mended tree selection (Input.ofText entry.path text none) = .ok result) :
    (FileAccount.mended entry warnings result).Fits e tree selection
      (delivered w entry result) := by
  have hbefore := Engine.before_of_mended_eq_ok hmended
  have hreport := Engine.report_of_mended_eq_ok hmended
  rw [Input.ofText_with_text] at hreport
  exact ⟨decode_delivered hpresent htext hbefore, hreport⟩

theorem sameFiles_delivered {entry : SourceEntry} (result : FixResult)
    (hpresent : (w.read? entry.parts).isSome = true) :
    w.SameFiles (delivered w entry result) := by
  unfold delivered
  split
  · exact Workspace.sameFiles_write hpresent _
  · exact .refl w

theorem read?_delivered {entry : SourceEntry} (result : FixResult)
    (hpresent : (w.read? entry.parts).isSome = true) {parts : List String}
    (hother : parts ≠ entry.parts) : (delivered w entry result).read? parts = w.read? parts := by
  unfold delivered
  split
  · rw [Workspace.read?_write hpresent, if_neg hother]
  · rfl

/-- A file that cannot be read is told of and passed over. -/
theorem ends_fixFiles_unreadable (e : Engine) (tree : String → Language → ParseTree)
    (selection : RuleSelection) (around : Surroundings) (r : Reporter) {entry : SourceEntry}
    (rest : List SourceEntry) {s : ShellState Unit} {error : Text.Utf8Error}
    (hdecode : Text.decode ((s.workspace.read? entry.parts).getD ByteArray.empty) =
      .error error) :
    (fixFiles (.ofFunction tree) around r false e selection (entry :: rest)).ends s =
      (fixFiles (.ofFunction tree) around r false e selection rest >>= fun later =>
        pure { later with unreadable := true }).ends (s.said (unreadableText r entry error)) := by
  rw [fixFiles, ends_bind, ends_readSource, hdecode]

/-- A file that can be read is mended, delivered and told of, unless mending it ends with a
fault. -/
theorem ends_fixFiles_readable (e : Engine) (tree : String → Language → ParseTree)
    (selection : RuleSelection) (around : Surroundings) (r : Reporter) {entry : SourceEntry}
    (rest : List SourceEntry) {s : ShellState Unit} {text : String}
    (hdecode : Text.decode ((s.workspace.read? entry.parts).getD ByteArray.empty) = .ok text) :
    (∃ fault s', (fixFiles (.ofFunction tree) around r false e selection (entry :: rest)).ends s =
      (.error (.fault fault), s')) ∨
    ∃ warnings result,
      e.mended tree selection (Input.ofText entry.path text none) = .ok result ∧
      (fixFiles (.ofFunction tree) around r false e selection (entry :: rest)).ends s =
        (fixFiles (.ofFunction tree) around r false e selection rest >>= fun later =>
          pure
            { later with
              changed := later.changed + if result.changed then 1 else 0
              remaining := result.remaining.findings ++ later.remaining }).ends
          ((s.moved (delivered s.workspace entry result)).said
            (FileAccount.mendedText around r (.mended entry warnings result))) := by
  rw [fixFiles, ends_bind, ends_readSource, hdecode]
  dsimp only
  rw [ends_bind, ends_ofSession, Engine.fix_answers _ ⟨(), []⟩]
  cases hmended : e.mended tree selection (Input.ofText entry.path text none) with
  | error fault => exact .inl ⟨fault, _, rfl⟩
  | ok result =>
    refine .inr ⟨((e.fix (.ofFunction tree) selection
      (Input.ofText entry.path text none)).left ⟨(), []⟩).warnings, result, rfl, ?_⟩
    dsimp only [Except.mapError]
    rw [ends_bind_of_ok (ends_deliver _ _ _ _), ends_bind_of_ok (ends_printFindings _ _ _ _)]
    simp only [ShellState.workspace_said, ShellState.moved_said, ShellState.said_said,
      FileAccount.mendedText]

/-- Mending files that are there, each listed once, ends with a fault or with an account of each of
them. -/
theorem ends_fixFiles (e : Engine) (tree : String → Language → ParseTree)
    (selection : RuleSelection) (around : Surroundings) (r : Reporter) {files : List SourceEntry}
    {s : ShellState Unit} (hlisted : Listed s.workspace files) :
    (∃ fault s', (fixFiles (.ofFunction tree) around r false e selection files).ends s =
      (.error (.fault fault), s')) ∨
    ∃ accounts w', accounts.map (·.entry) = files ∧
      Mends e tree selection accounts s.workspace w' ∧
      (fixFiles (.ofFunction tree) around r false e selection files).ends s =
        (.ok (.ofAccounts accounts),
          (s.moved w').said (accounts.flatMap (FileAccount.mendedText around r))) := by
  induction files generalizing s with
  | nil =>
    refine .inr ⟨[], s.workspace, rfl, .nil _, ?_⟩
    rw [List.flatMap_nil, ShellState.said_nil]
    rfl
  | cons entry rest ih =>
    have hpresent := hlisted.present entry List.mem_cons_self
    have hfresh : ∀ accounts : List FileAccount, accounts.map (·.entry) = rest →
        entry.parts ∉ accounts.map (·.entry.parts) := by
      rintro accounts rfl
      have hnot := (List.nodup_cons.1 hlisted.distinct).1
      rwa [List.map_map] at hnot
    cases hdecode : Text.decode ((s.workspace.read? entry.parts).getD ByteArray.empty) with
    | error error =>
      rw [ends_fixFiles_unreadable e tree selection around r rest hdecode]
      rcases ih (s := s.said (unreadableText r entry error)) hlisted.tail with
        ⟨fault, s', hends⟩ | ⟨accounts, w', hrest, hmends, hends⟩
      · refine .inl ⟨fault, s', ?_⟩
        rw [ends_bind, hends]
      · refine .inr ⟨.unreadable entry error :: accounts, w', congrArg _ hrest,
          .cons hdecode hdecode (.refl _) (fun _ _ => rfl) (hfresh _ hrest) hmends, ?_⟩
        rw [ends_bind_of_ok hends, ends_pure, ShellState.moved_said, ShellState.said_said]
        rfl
    | ok text =>
      rcases ends_fixFiles_readable e tree selection around r rest hdecode with
        hfault | ⟨warnings, result, hmended, hfirst⟩
      · exact .inl hfault
      · rw [hfirst]
        have hsame := sameFiles_delivered result hpresent
        rcases ih (s := (s.moved (delivered s.workspace entry result)).said
            (FileAccount.mendedText around r (.mended entry warnings result)))
            (hlisted.tail.congr hsame) with
          ⟨fault, s', hends⟩ | ⟨accounts, w', hrest, hmends, hends⟩
        · refine .inl ⟨fault, s', ?_⟩
          rw [ends_bind, hends]
        · refine .inr ⟨.mended entry warnings result :: accounts, w', congrArg _ hrest,
            .cons ?_ ?_ hsame ?_ (hfresh _ hrest) hmends, ?_⟩
          · exact ⟨text, hdecode, (Engine.fix_answers _ _).trans hmended⟩
          · exact fits_delivered warnings hpresent hdecode hmended
          · exact fun parts hparts => read?_delivered result hpresent hparts
          · rw [ends_bind_of_ok hends, ends_pure, Mended.ofAccounts_mended, List.flatMap_cons]
            simp only [ShellState.moved_said, ShellState.said_said, ShellState.moved_moved]

/-- A check of files of which it has the same to tell as the accounts. -/
theorem ends_checkFiles (around : Surroundings) (r : Reporter) {accounts : List FileAccount}
    {s : ShellState Unit} (hfits : ∀ a ∈ accounts, a.Fits e tree selection s.workspace) :
    (checkFiles (.ofFunction tree) around r false e selection (accounts.map (·.entry))).ends s =
      (.ok ⟨accounts.filterMap (·.remaining?), accounts.any (·.isUnreadable)⟩,
        s.said (accounts.flatMap (FileAccount.checkedText around r))) := by
  induction accounts generalizing s with
  | nil =>
    rw [List.flatMap_nil, ShellState.said_nil]
    rfl
  | cons a rest ih =>
    obtain ⟨ha, hrest⟩ := List.forall_mem_cons.1 hfits
    rw [List.map_cons]
    unfold checkFiles
    rw [ends_bind, ends_readSource]
    cases a with
    | unreadable entry error =>
      rw [FileAccount.entry, show Text.decode _ = .error error from ha]
      dsimp only
      rw [ends_bind_of_ok (ih (s := s.said _) hrest), ends_pure, ShellState.said_said]
      rfl
    | mended entry warnings result =>
      obtain ⟨hdecode, hreport⟩ := ha
      have hrun := (Engine.run_answers _ ⟨(), []⟩).trans hreport
      rw [FileAccount.entry, hdecode]
      dsimp only
      rw [ends_bind, ends_ofSession, hrun, Engine.warnings_run _ hreport]
      dsimp only [Except.mapError]
      rw [ends_bind_of_ok (ends_printResult _ _ _ _), ShellState.said_said,
        ends_bind_of_ok (ih (s := s.said _) hrest), ends_pure, ShellState.said_said]
      rfl

end

end Shell

end TsxLint
