/-
Module: TsxLint.Proofs.Engine.Reached
Purpose: The states that passes of the fixer lead to, whatever the grammar keeps in mind.
Main exports: Session.left, Engine.Leads, Engine.Reaches, Engine.Stops,
  Engine.stops_or_leads, Engine.reaches_stop, Engine.fix_reaches_stop
-/
import TsxLint.Proofs.Engine.Passes

namespace TsxLint

/-!
Here a grammar may have a state, so a pass depends on what lies on the desk when it begins.  A
session in two parts has the outcome of its second part from the desk that its first part left.
Read off the fixer this gives the passes that lead on to another one (`Engine.Leads`), the states
that a row of them reaches (`Engine.Reaches`) and the ways in which one can be the last (`Engine.Stops`).
-/

/-! ### Sessions in two parts -/

namespace Session

variable {σ α β : Type}

/-- What lies on the desk when a session that begins with a desk is over. -/
def left (session : Session σ α) (desk : Desk σ) : Desk σ :=
  (StateT.run (m := Id) (ExceptT.run session) desk).2

theorem outcome_bind (session : Session σ α) (next : α → Session σ β) (desk : Desk σ) :
    (session >>= next).outcome desk =
      session.outcome desk >>= fun a => (next a).outcome (session.left desk) := by
  unfold outcome left
  rw [ExceptT.run_bind, StateT.run_bind]
  cases StateT.run (m := Id) (ExceptT.run session) desk with
  | mk r desk' =>
    cases r with
    | error fault => rfl
    | ok a => rfl

@[simp] theorem outcome_pure (a : α) (desk : Desk σ) :
    (pure a : Session σ α).outcome desk = .ok a := rfl

@[simp] theorem outcome_ofOutcome (o : Outcome α) (desk : Desk σ) :
    (ofOutcome o : Session σ α).outcome desk = o := answers_ofOutcome o desk

@[simp] theorem left_ofOutcome (o : Outcome α) (desk : Desk σ) :
    (ofOutcome o : Session σ α).left desk = desk := by
  cases o <;> rfl

/-- A computation on an outcome finds the desk as it was. -/
theorem outcome_ofOutcome_bind (o : Outcome α) (next : α → Session σ β) (desk : Desk σ) :
    (ofOutcome o >>= next).outcome desk = o >>= fun a => (next a).outcome desk := by
  rw [outcome_bind, outcome_ofOutcome, left_ofOutcome]

end Session

/-- A desk with more warnings. -/
def Desk.warned {σ : Type} (desk : Desk σ) (warnings : List Warning) : Desk σ :=
  { desk with warnings := desk.warnings ++ warnings }

theorem Session.outcome_warn_bind {σ α : Type} (warnings : List Warning) (session : Session σ α)
    (desk : Desk σ) :
    (warn warnings >>= fun _ => session).outcome desk = session.outcome (desk.warned warnings) :=
  rfl

/-! ### Passes the fixer comes to make -/

namespace FixState

/-- The plan of a pass from a state. -/
def plan (s : FixState) : FixPlan := FixPlan.ofFindings s.result.findings

/-- A state with one more pass counted, and what was found in the text that pass made. -/
def rewritten (s : FixState) (text : String) (result : RunResult) : FixState :=
  { s.counted with input := { s.input with text }, result }

end FixState

namespace Engine

variable {σ : Type}

/-- One pass that another one follows, with the desk before and after it: the accepted edits make a
new text, and the report on it names no syntax errors. -/
inductive Leads (e : Engine) (grammar : Grammar σ) (selection : RuleSelection) (state : FixState)
    (desk : Desk σ) : FixState → Desk σ → Prop where
  | rewritten {text : String} {result : RunResult} (some : state.accepted ≠ [])
      (applied : Edit.apply state.input.text state.accepted.flatten = .ok text)
      (changed : text ≠ state.input.text)
      (reported : (e.run grammar selection { state.input with text }).outcome
        (desk.warned state.plan.warnings) = .ok result)
      (intact : result.hasSyntaxErrors = false) :
      Leads e grammar selection state desk (state.rewritten text result)
        ((e.run grammar selection { state.input with text }).left
          (desk.warned state.plan.warnings))

/-- One pass that no other one follows, with the outcome it ends in. -/
inductive Stops (e : Engine) (grammar : Grammar σ) (selection : RuleSelection) (state : FixState)
    (desk : Desk σ) : Outcome FixState → Prop where
  /-- Nothing is accepted. -/
  | idle (none : state.accepted = []) : Stops e grammar selection state desk (.ok state)
  /-- The accepted edits leave the text as it is. -/
  | unchanged (some : state.accepted ≠ [])
      (same : Edit.apply state.input.text state.accepted.flatten = .ok state.input.text) :
      Stops e grammar selection state desk (.ok state.counted)
  /-- The new text has syntax errors. -/
  | broken {text : String} {result : RunResult} (some : state.accepted ≠ [])
      (applied : Edit.apply state.input.text state.accepted.flatten = .ok text)
      (changed : text ≠ state.input.text)
      (reported : (e.run grammar selection { state.input with text }).outcome
        (desk.warned state.plan.warnings) = .ok result)
      (broken : result.hasSyntaxErrors = true) :
      Stops e grammar selection state desk (.ok (state.rewritten text result))
  /-- The accepted edits cannot be applied. -/
  | unapplied {fault : Fault} (some : state.accepted ≠ [])
      (failed : Edit.apply state.input.text state.accepted.flatten = .error fault) :
      Stops e grammar selection state desk (.error fault)
  /-- The new text cannot be reported on. -/
  | unreported {text : String} {fault : Fault} (some : state.accepted ≠ [])
      (applied : Edit.apply state.input.text state.accepted.flatten = .ok text)
      (changed : text ≠ state.input.text)
      (failed : (e.run grammar selection { state.input with text }).outcome
        (desk.warned state.plan.warnings) = .error fault) :
      Stops e grammar selection state desk (.error fault)

/-- A state and a desk are reached by passes that are each followed by another one. -/
inductive Reaches (e : Engine) (grammar : Grammar σ) (selection : RuleSelection) :
    FixState → Desk σ → FixState → Desk σ → Prop where
  | here (state : FixState) (desk : Desk σ) : Reaches e grammar selection state desk state desk
  | later {state next last : FixState} {desk desk' desk'' : Desk σ}
      (first : e.Leads grammar selection state desk next desk')
      (rest : Reaches e grammar selection next desk' last desk'') :
      Reaches e grammar selection state desk last desk''

variable {e : Engine} {grammar : Grammar σ} {selection : RuleSelection}

theorem Leads.passes_eq {state next : FixState} {desk desk' : Desk σ}
    (h : e.Leads grammar selection state desk next desk') : next.passes = state.passes + 1 := by
  cases h with
  | rewritten => rfl

theorem Leads.intact {state next : FixState} {desk desk' : Desk σ}
    (h : e.Leads grammar selection state desk next desk') :
    next.result.hasSyntaxErrors = false := by
  cases h with
  | rewritten some applied changed reported intact => exact intact

/-- No state with syntax errors is reached from one without. -/
theorem Reaches.intact {state last : FixState} {desk desk' : Desk σ}
    (h : e.Reaches grammar selection state desk last desk')
    (hstate : state.result.hasSyntaxErrors = false) : last.result.hasSyntaxErrors = false := by
  induction h with
  | here => exact hstate
  | later first _ ih => exact ih first.intact

/-! ### Outcomes of passes -/

/-- A pass and those behind it, with what lies on the desk. -/
theorem outcome_fixFrom_succ (limit : Nat) (state : FixState) (desk : Desk σ) :
    (e.fixFrom grammar selection (limit + 1) state).outcome desk =
      if state.accepted.isEmpty then .ok state
      else Edit.apply state.input.text state.accepted.flatten >>= fun text =>
        if text = state.input.text then .ok state.counted
        else
          let run := e.run grammar selection { state.input with text }
          let before := desk.warned state.plan.warnings
          run.outcome before >>= fun result =>
            if result.hasSyntaxErrors then .ok (state.rewritten text result)
            else (e.fixFrom grammar selection limit (state.rewritten text result)).outcome
              (run.left before) := by
  rw [fixFrom, Session.outcome_warn_bind]
  change Session.outcome (if state.accepted.isEmpty then _ else _) _ = _
  by_cases hnone : state.accepted.isEmpty
  · rw [if_pos hnone, if_pos hnone, Session.outcome_pure]
  · rw [if_neg hnone, if_neg hnone, Session.outcome_ofOutcome_bind]
    refine congrArg _ (funext fun text => ?_)
    by_cases hsame : text = state.input.text
    · rw [if_pos hsame, if_pos hsame]
      rfl
    · rw [if_neg hsame, if_neg hsame, Session.outcome_bind]
      refine congrArg _ (funext fun result => ?_)
      cases hbroken : result.hasSyntaxErrors with
      | true => rfl
      | false => rfl

/-- A pass stops, or leads to a state from which the remaining passes are made. -/
theorem stops_or_leads (limit : Nat) (state : FixState) (desk : Desk σ) :
    e.Stops grammar selection state desk
        ((e.fixFrom grammar selection (limit + 1) state).outcome desk) ∨
      ∃ next desk', e.Leads grammar selection state desk next desk' ∧
        (e.fixFrom grammar selection (limit + 1) state).outcome desk =
          (e.fixFrom grammar selection limit next).outcome desk' := by
  rw [outcome_fixFrom_succ]
  by_cases hnone : state.accepted.isEmpty
  · rw [if_pos hnone]
    exact .inl (.idle (List.isEmpty_iff.1 hnone))
  · rw [if_neg hnone]
    have hsome : state.accepted ≠ [] := fun hnil => hnone (List.isEmpty_iff.2 hnil)
    cases happly : Edit.apply state.input.text state.accepted.flatten with
    | error fault => exact .inl (.unapplied hsome happly)
    | ok text =>
      rw [Outcome.ok_bind]
      by_cases hsame : text = state.input.text
      · rw [if_pos hsame]
        exact .inl (.unchanged hsome (hsame ▸ happly))
      · rw [if_neg hsame]
        dsimp only
        cases hrun : (e.run grammar selection { state.input with text }).outcome
            (desk.warned state.plan.warnings) with
        | error fault => exact .inl (.unreported hsome happly hsame hrun)
        | ok result =>
          rw [Outcome.ok_bind]
          cases hbroken : result.hasSyntaxErrors with
          | true =>
            rw [if_pos rfl]
            exact .inl (.broken hsome happly hsame hrun hbroken)
          | false =>
            rw [if_neg Bool.false_ne_true]
            exact .inr ⟨_, _, .rewritten hsome happly hsame hrun hbroken, rfl⟩

/-- Up to so many passes reach a state in which they are used up or stop. -/
theorem reaches_stop (e : Engine) (grammar : Grammar σ) (selection : RuleSelection) (limit : Nat)
    (state : FixState) (desk : Desk σ) :
    ∃ last desk', e.Reaches grammar selection state desk last desk' ∧
      ((last.passes = state.passes + limit ∧
          (e.fixFrom grammar selection limit state).outcome desk = .ok last) ∨
        (last.passes < state.passes + limit ∧
          e.Stops grammar selection last desk'
            ((e.fixFrom grammar selection limit state).outcome desk))) := by
  induction limit generalizing state desk with
  | zero => exact ⟨state, desk, .here state desk, .inl ⟨rfl, rfl⟩⟩
  | succ limit ih =>
    rcases stops_or_leads limit state desk with hstops | ⟨next, desk', hleads, heq⟩
    · exact ⟨state, desk, .here state desk, .inr ⟨by omega, hstops⟩⟩
    · obtain ⟨last, desk'', hreach, hlast⟩ := ih next desk'
      have hpasses := hleads.passes_eq
      refine ⟨last, desk'', .later hleads hreach, ?_⟩
      rw [heq]
      rcases hlast with ⟨hused, hok⟩ | ⟨hlt, hstops⟩
      · exact .inl ⟨by omega, hok⟩
      · exact .inr ⟨by omega, hstops⟩

/-- From a text without syntax errors the fixer reaches a state in which its passes are used up or
stop, and hands that state back. -/
theorem fix_reaches_stop {input : Input} {desk : Desk σ} {first : RunResult}
    (hrun : (e.run grammar selection input).outcome desk = .ok first)
    (hintact : first.hasSyntaxErrors = false) :
    ∃ state desk' o, e.Reaches grammar selection ⟨input, 0, 0, first⟩
        ((e.run grammar selection input).left desk) state desk' ∧
      (e.fix grammar selection input).outcome desk = (·.finish input.text) <$> o ∧
      ((state.passes = e.settings.passLimit ∧ o = .ok state) ∨
        (state.passes < e.settings.passLimit ∧ e.Stops grammar selection state desk' o)) := by
  obtain ⟨state, desk', hreach, hlast⟩ :=
    reaches_stop e grammar selection e.settings.passLimit ⟨input, 0, 0, first⟩
      ((e.run grammar selection input).left desk)
  simp only [Nat.zero_add] at hlast
  refine ⟨state, desk', _, hreach, ?_, hlast⟩
  rw [fix, Session.outcome_bind, hrun, Outcome.ok_bind]
  simp only [hintact, Bool.false_eq_true, if_false]
  rw [Session.outcome_bind]
  rfl

/-- The fixer leaves a text with syntax errors as it is. -/
theorem outcome_fix_of_broken {input : Input} {desk : Desk σ} {first : RunResult}
    (hrun : (e.run grammar selection input).outcome desk = .ok first)
    (hbroken : first.hasSyntaxErrors = true) :
    (e.fix grammar selection input).outcome desk =
      .ok (FixState.finish ⟨input, 0, 0, first⟩ input.text) := by
  rw [fix, Session.outcome_bind, hrun, Outcome.ok_bind]
  simp only [hbroken, if_true]
  rfl

end Engine

end TsxLint
