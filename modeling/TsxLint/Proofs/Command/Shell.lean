/-
Module: TsxLint.Proofs.Command.Shell
Purpose: How commands end and what they print, step by step, and commands that only look around.
Main exports: Shell.ends, Shell.ends_bind, Shell.Reads, Shell.ends_ofSession, Shell.findingText
-/
import TsxLint.Command.Check
import TsxLint.Proofs.Engine.Reached

namespace TsxLint

/-!
A command takes a state to a result and to the state it leaves (`Shell.ends`), and commands in a row
hand the state on unless one of them stops.  Many steps only look at the workspace and print: their
result and what they print are the same in all workspaces of which they see the same
(`Shell.Reads`).
-/

/-- A state in which more has been printed. -/
def ShellState.said {σ : Type} (s : ShellState σ) (texts : List Printed) : ShellState σ :=
  { s with printed := s.printed ++ texts }

/-- A state with another workspace. -/
def ShellState.moved {σ : Type} (s : ShellState σ) (w : Workspace) : ShellState σ :=
  { s with workspace := w }

namespace ShellState

variable {σ : Type}

@[simp] theorem printed_moved (s : ShellState σ) (w : Workspace) :
    (s.moved w).printed = s.printed := rfl

@[simp] theorem moved_moved (s : ShellState σ) (w w' : Workspace) :
    (s.moved w).moved w' = s.moved w' := rfl

@[simp] theorem moved_said (s : ShellState σ) (texts : List Printed) (w : Workspace) :
    (s.said texts).moved w = (s.moved w).said texts := rfl

theorem moved_workspace (s : ShellState σ) : s.moved s.workspace = s := rfl

@[simp] theorem workspace_said (s : ShellState σ) (texts : List Printed) :
    (s.said texts).workspace = s.workspace := rfl

@[simp] theorem printed_said (s : ShellState σ) (texts : List Printed) :
    (s.said texts).printed = s.printed ++ texts := rfl

@[simp] theorem said_nil (s : ShellState σ) : s.said [] = s := by
  rw [said, List.append_nil]

@[simp] theorem said_said (s : ShellState σ) (texts more : List Printed) :
    (s.said texts).said more = s.said (texts ++ more) := by
  simp only [said, List.append_assoc]

end ShellState

namespace Shell

variable {σ α β : Type}

/-- How a command that begins in a state ends, and the state it leaves. -/
def ends (command : Shell σ α) (s : ShellState σ) : Except Stop α × ShellState σ :=
  StateT.run (m := Id) (ExceptT.run command) s

/-! ### Steps -/

theorem ends_bind (command : Shell σ α) (next : α → Shell σ β) (s : ShellState σ) :
    (command >>= next).ends s =
      match command.ends s with
      | (.ok a, s') => (next a).ends s'
      | (.error stop, s') => (.error stop, s') := by
  unfold ends
  rw [ExceptT.run_bind, StateT.run_bind]
  cases StateT.run (m := Id) (ExceptT.run command) s with
  | mk result s' =>
    cases result with
    | error stop => rfl
    | ok a => rfl

/-- Behind a step that does not stop, a command goes on from the state that the step left. -/
theorem ends_bind_of_ok {command : Shell σ α} {next : α → Shell σ β} {s s' : ShellState σ} {a : α}
    (h : command.ends s = (.ok a, s')) : (command >>= next).ends s = (next a).ends s' := by
  rw [ends_bind, h]

/-- A command that does not stop has made each of its steps. -/
theorem exists_of_ends_bind_ok {command : Shell σ α} {next : α → Shell σ β} {s s'' : ShellState σ}
    {b : β} (h : (command >>= next).ends s = (.ok b, s'')) :
    ∃ a s', command.ends s = (.ok a, s') ∧ (next a).ends s' = (.ok b, s'') := by
  rw [ends_bind] at h
  cases hends : command.ends s with
  | mk result s' =>
    rw [hends] at h
    cases result with
    | error stop => cases h
    | ok a => exact ⟨a, s', rfl, h⟩

@[simp] theorem ends_pure (a : α) (s : ShellState σ) : (pure a : Shell σ α).ends s = (.ok a, s) :=
  rfl

@[simp] theorem ends_print (texts : List Printed) (s : ShellState σ) :
    (print texts : Shell σ Unit).ends s = (.ok (), s.said texts) := rfl

@[simp] theorem ends_workspace (s : ShellState σ) :
    (workspace : Shell σ Workspace).ends s = (.ok s.workspace, s) := rfl

@[simp] theorem ends_fail (p : Problem) (s : ShellState σ) :
    (fail p : Shell σ α).ends s = (.error (.problem p), s) := rfl

theorem ends_ofOutcome (o : Outcome α) (s : ShellState σ) :
    (ofOutcome o : Shell σ α).ends s = (o.mapError .fault, s) := by
  cases o <;> rfl

theorem finish_eq (command : Shell σ Int) (s : ShellState σ) :
    command.finish s =
      match command.ends s with
      | (.ok code, s') => (.exit code, s')
      | (.error (.fault f), s') => (.fault f, s')
      | (.error (.problem p), s') => (.exit p.exitCode, s') := rfl

/-- A command that ends with an exit status has ended normally or with a problem. -/
theorem ends_of_finish_eq_exit {command : Shell σ Int} {s s' : ShellState σ} {code : Int}
    (h : command.finish s = (.exit code, s')) :
    command.ends s = (.ok code, s') ∨
      ∃ p : Problem, command.ends s = (.error (.problem p), s') ∧ code = p.exitCode := by
  rw [finish_eq] at h
  cases hends : command.ends s with
  | mk result after =>
    rw [hends] at h
    cases result with
    | ok =>
      cases h
      exact .inl rfl
    | error stop =>
      cases stop with
      | fault => cases h
      | problem p =>
        cases h
        exact .inr ⟨p, rfl, rfl⟩

/-- A problem is printed and decides the exit status. -/
theorem ends_orReport (r : Reporter) (command : Shell σ Int) (s : ShellState σ) :
    (orReport r command).ends s =
      match command.ends s with
      | (.error (.problem p), s') =>
        (.ok p.exitCode, s'.said [r.echoLine .err (p.format r.useColor)])
      | other => other := by
  cases hends : command.ends s with
  | mk result s' =>
    change StateT.run (m := Id) command s = (result, s') at hends
    unfold ends orReport
    simp only [tryCatch, tryCatchThe, MonadExceptOf.tryCatch, ExceptT.tryCatch, ExceptT.run_mk,
      StateT.run_bind]
    rw [hends]
    cases result with
    | ok code => rfl
    | error stop => cases stop <;> rfl

/-- No problem is left to the caller. -/
theorem ends_orReport_ne_problem {r : Reporter} {command : Shell σ Int} {s s' : ShellState σ}
    {p : Problem} : (orReport r command).ends s ≠ (.error (.problem p), s') := by
  rw [ends_orReport]
  cases command.ends s with
  | mk result after =>
    cases result with
    | ok code => exact fun h => nomatch h
    | error stop =>
      cases stop with
      | fault f => exact fun h => nomatch h
      | problem p => exact fun h => nomatch h

/-! ### Sessions -/

/-- The lines of warnings, none if output is quiet. -/
def warningText (quiet : Bool) (warnings : List Warning) : List Printed :=
  if quiet then [] else warnings.map warningLine

theorem ends_warn (quiet : Bool) (warnings : List Warning) (s : ShellState σ) :
    (warn quiet warnings).ends s = (.ok (), s.said (warningText quiet warnings)) := by
  cases quiet with
  | true => rw [warningText, if_pos rfl, ShellState.said_nil]; rfl
  | false => rfl

/-- A session in which nothing is kept in mind but warnings: its outcome is the result, and its
warnings are printed. -/
theorem ends_ofSession (quiet : Bool) (session : Session Unit α) (s : ShellState Unit) :
    (ofSession quiet session).ends s =
      ((session.outcome ⟨(), []⟩).mapError .fault,
        s.said (warningText quiet (session.left ⟨(), []⟩).warnings)) := by
  change ((warn quiet (session.left ⟨(), []⟩).warnings >>= fun _ =>
    ofOutcome (session.outcome ⟨(), []⟩)).ends s) = _
  rw [ends_bind_of_ok (ends_warn _ _ _), ends_ofOutcome]

/-! ### Findings -/

/-- The line of a finding. -/
def findingText (around : Surroundings) (r : Reporter) (f : Finding) : List Printed :=
  match r.finding (f.record around.now) with
  | .ok lines => lines
  | .error _ => []

/-- Every finding has a line: its column is a number. -/
theorem finding_record (around : Surroundings) (r : Reporter) (f : Finding) :
    r.finding (f.record around.now) = .ok (findingText around r f) := by
  have hcolumn : ∃ column, Reporter.shownColumn (f.record around.now).column = .ok column := by
    change ∃ column, Reporter.shownColumn (.int f.span.startColumn) = .ok column
    unfold Reporter.shownColumn
    split
    · exact ⟨_, rfl⟩
    · exact ⟨_, rfl⟩
  obtain ⟨column, hcolumn⟩ := hcolumn
  have hfinding : ∃ lines, r.finding (f.record around.now) = .ok lines := by
    unfold Reporter.finding
    rw [hcolumn]
    exact ⟨_, rfl⟩
  obtain ⟨lines, hlines⟩ := hfinding
  rw [findingText, hlines]

theorem ends_printFindings (around : Surroundings) (r : Reporter) (findings : List Finding)
    (s : ShellState σ) :
    (printFindings around r findings).ends s =
      (.ok (), s.said (findings.flatMap (findingText around r))) := by
  induction findings generalizing s with
  | nil => rw [List.flatMap_nil, ShellState.said_nil]; rfl
  | cons f rest ih =>
    have hfirst : (ofOutcome (r.finding (f.record around.now)) >>= print : Shell σ Unit).ends s =
        (.ok (), s.said (findingText around r f)) := by
      rw [finding_record]
      rfl
    change ((ofOutcome (r.finding (f.record around.now)) >>= print) >>= fun _ =>
      printFindings around r rest).ends s = _
    rw [ends_bind_of_ok hfirst, ih, ShellState.said_said, List.flatMap_cons]

/-! ### Commands that only look around -/

/-- In all workspaces of a kind a command gives one result and prints one text, and it changes
nothing. -/
def Reads (P : Workspace → Prop) (command : Shell σ α) : Prop :=
  ∃ result texts, ∀ s, P s.workspace → command.ends s = (result, s.said texts)

namespace Reads

variable {P : Workspace → Prop}

theorem pure (a : α) : Reads P (Pure.pure a : Shell σ α) :=
  ⟨.ok a, [], fun s _ => by rw [ends_pure, ShellState.said_nil]⟩

theorem print (texts : List Printed) : Reads P (Shell.print texts : Shell σ Unit) :=
  ⟨.ok (), texts, fun s _ => ends_print texts s⟩

theorem warn (quiet : Bool) (warnings : List Warning) :
    Reads P (Shell.warn quiet warnings : Shell σ Unit) :=
  ⟨.ok (), warningText quiet warnings, fun s _ => ends_warn quiet warnings s⟩

theorem fail (p : Problem) : Reads P (Shell.fail p : Shell σ α) :=
  ⟨.error (.problem p), [], fun s _ => by rw [ends_fail, ShellState.said_nil]⟩

theorem bind {command : Shell σ α} {next : α → Shell σ β} (hcommand : Reads P command)
    (hnext : ∀ a, Reads P (next a)) : Reads P (command >>= next) := by
  obtain ⟨result, texts, hends⟩ := hcommand
  cases result with
  | error stop =>
    refine ⟨.error stop, texts, fun s hs => ?_⟩
    rw [ends_bind, hends s hs]
  | ok a =>
    obtain ⟨result, more, hmore⟩ := hnext a
    refine ⟨result, texts ++ more, fun s hs => ?_⟩
    rw [ends_bind_of_ok (hends s hs), hmore (s.said texts) hs, ShellState.said_said]

/-- A command that looks at the workspace sees the same in all workspaces of the kind. -/
theorem workspace {next : Workspace → Shell σ β} (w₀ : Workspace)
    (hsame : ∀ w, P w → next w = next w₀) (hnext : Reads P (next w₀)) :
    Reads P (Shell.workspace >>= next) := by
  obtain ⟨result, texts, hends⟩ := hnext
  refine ⟨result, texts, fun s hs => ?_⟩
  rw [ends_bind_of_ok (ends_workspace s), hsame _ hs, hends s hs]

theorem workspace_eq {command : Shell σ α} (h : Reads P command) {s s' : ShellState σ}
    {result : Except Stop α} (hs : P s.workspace) (hends : command.ends s = (result, s')) :
    s'.workspace = s.workspace := by
  obtain ⟨_, texts, hreads⟩ := h
  rw [hreads s hs] at hends
  rw [← (Prod.mk.inj hends).2, ShellState.workspace_said]

end Reads

end Shell

end TsxLint
