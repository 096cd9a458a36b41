/-
Module: TsxLint.Proofs.Engine.Passes
Purpose: The fixer without its warnings: single passes, and sequences of them.
Main exports: Session.Answers, Engine.report, Engine.pass, Engine.Settles, Engine.fix_answers
-/
import TsxLint.Engine.Fix
import TsxLint.Proofs.Outcome

namespace TsxLint

/-!
Where the tree of a text is a function of text and language, a session's state is
only its list of warnings, and no outcome depends on it.  What is left of a run is a
function from inputs to outcomes (`Engine.report`), and what is left of the fixer is
a step function (`Engine.pass`) that says for each state whether another pass
follows.  `Engine.Settles` is the relation of whole sequences of passes.
-/

/-! ### Outcomes of sessions -/

namespace Session

variable {σ α β : Type}

/-- The outcome of a session that begins with a desk. -/
def outcome (session : Session σ α) (desk : Desk σ) : Outcome α :=
  (StateT.run (m := Id) (ExceptT.run session) desk).1

/-- A session ends in an outcome whatever lies on the desk. -/
def Answers (session : Session σ α) (o : Outcome α) : Prop := ∀ desk, session.outcome desk = o

theorem answers_pure (a : α) : (pure a : Session σ α).Answers (.ok a) := fun _ => rfl

theorem answers_ofOutcome (o : Outcome α) : (ofOutcome o : Session σ α).Answers o := by
  intro desk
  cases o <;> rfl

/-- The outcome of two sessions in a row. -/
theorem Answers.bind {session : Session σ α} {next : α → Session σ β} {o : Outcome α}
    {answer : α → Outcome β} (hs : session.Answers o) (hn : ∀ a, (next a).Answers (answer a)) :
    (session >>= next).Answers (o >>= answer) := by
  intro desk
  have h := hs desk
  unfold outcome at h ⊢
  rw [ExceptT.run_bind, StateT.run_bind]
  cases hr : StateT.run (m := Id) (ExceptT.run session) desk with
  | mk r desk' =>
    rw [hr] at h
    subst h
    cases r with
    | error fault => rfl
    | ok a => exact hn a desk'

/-- Warnings have no part in the outcome. -/
theorem Answers.after_warn {session : Session σ α} {o : Outcome α} (warnings : List Warning)
    (h : session.Answers o) : (warn warnings >>= fun _ => session).Answers o :=
  fun desk => h { desk with warnings := desk.warnings ++ warnings }

end Session

/-! ### One pass -/

namespace FixState

/-- The groups of edits that a pass from a state applies. -/
def accepted (s : FixState) : List (List Edit) := (FixPlan.ofFindings s.result.findings).accepted

/-- A state with one more pass counted. -/
def counted (s : FixState) : FixState :=
  { s with passes := s.passes + 1, applied := s.applied + s.accepted.length }

@[simp] theorem counted_input (s : FixState) : s.counted.input = s.input := rfl

@[simp] theorem counted_passes (s : FixState) : s.counted.passes = s.passes + 1 := rfl

@[simp] theorem counted_result (s : FixState) : s.counted.result = s.result := rfl

end FixState

namespace Engine

section Passes

variable (e : Engine) (tree : String → Language → ParseTree) (selection : RuleSelection)

/-- The parsed file of an input. -/
def parsed (tree : String → Language → ParseTree) (input : Input) : Outcome SourceFile := do
  let language ← Language.resolve input.language input.path
  SourceFile.ofTree input.path language input.text (tree input.text language)

/-- What a run over an input reports. -/
def report (input : Input) : Outcome RunResult := do
  let source ← parsed tree input
  pure (e.inspect selection input.language source)

/-- The state after a new text was reported on, and whether another pass follows: none does
if the text has syntax errors. -/
def look (state : FixState) (text : String) : Outcome (FixState × Bool) := do
  let input := { state.input with text }
  let result ← e.report tree selection input
  pure ({ state with input, result }, !result.hasSyntaxErrors)

/-- One pass: the state it leaves, and whether another pass follows. -/
def pass (state : FixState) : Outcome (FixState × Bool) :=
  if state.accepted.isEmpty then pure (state, false)
  else do
    let text ← Edit.apply state.input.text state.accepted.flatten
    if text = state.input.text then pure (state.counted, false)
    else e.look tree selection state.counted text

/-- Up to so many passes. -/
def passesFrom : Nat → FixState → Outcome FixState
  | 0, state => pure state
  | limit + 1, state => do
    let next ← e.pass tree selection state
    if next.2 then passesFrom limit next.1 else pure next.1

/-- The fixer as a function of its input. -/
def mended (input : Input) : Outcome FixResult := do
  let result ← e.report tree selection input
  if result.hasSyntaxErrors then pure (FixState.finish ⟨input, 0, 0, result⟩ input.text)
  else
    let last ← e.passesFrom tree selection e.settings.passLimit ⟨input, 0, 0, result⟩
    pure (last.finish input.text)

/-- What one pass can do to a state.  The mark says whether another pass follows. -/
inductive Passed (state : FixState) : FixState → Bool → Prop where
  /-- Nothing is accepted. -/
  | idle (none : state.accepted = []) : Passed state state false
  /-- The accepted edits leave the text as it is. -/
  | unchanged (some : state.accepted ≠ [])
      (same : Edit.apply state.input.text state.accepted.flatten = .ok state.input.text) :
      Passed state state.counted false
  /-- The accepted edits make a new text, which is reported on. -/
  | rewritten {text : String} {result : RunResult} (some : state.accepted ≠ [])
      (applied : Edit.apply state.input.text state.accepted.flatten = .ok text)
      (changed : text ≠ state.input.text)
      (reported : e.report tree selection { state.input with text } = .ok result) :
      Passed state { state.counted with input := { state.input with text }, result }
        (!result.hasSyntaxErrors)

/-- A state is reached by up to so many passes. -/
inductive Settles : Nat → FixState → FixState → Prop where
  | spent (state : FixState) : Settles 0 state state
  | stop {limit : Nat} {state final : FixState}
      (last : e.Passed tree selection state final false) : Settles (limit + 1) state final
  | go {limit : Nat} {state next final : FixState}
      (first : e.Passed tree selection state next true) (rest : Settles limit next final) :
      Settles (limit + 1) state final

end Passes

variable {e : Engine} {tree : String → Language → ParseTree} {selection : RuleSelection}

/-! ### Sessions of runs and passes -/

theorem parse_answers (input : Input) :
    (Session.parse (Grammar.ofFunction tree) input).Answers (parsed tree input) := by
  refine (Session.answers_ofOutcome _).bind fun language => ?_
  have hask : (Session.ask (Grammar.ofFunction tree) input.text language).Answers
      (.ok (tree input.text language)) := fun _ => rfl
  exact hask.bind fun _ => Session.answers_ofOutcome _

theorem run_answers (input : Input) :
    (e.run (Grammar.ofFunction tree) selection input).Answers (e.report tree selection input) :=
  (parse_answers input).bind fun _ => (Session.answers_pure _).after_warn _

theorem fixFrom_answers (limit : Nat) (state : FixState) :
    (e.fixFrom (Grammar.ofFunction tree) selection limit state).Answers
      (e.passesFrom tree selection limit state) := by
  induction limit generalizing state with
  | zero => exact Session.answers_pure state
  | succ limit ih =>
    rw [passesFrom, pass]
    refine Session.Answers.after_warn _ ?_
    change Session.Answers (if state.accepted.isEmpty then _ else _) _
    by_cases hnone : state.accepted.isEmpty
    · rw [if_pos hnone, if_pos hnone]
      exact Session.answers_pure state
    · rw [if_neg hnone, if_neg hnone, bind_assoc]
      refine (Session.answers_ofOutcome _).bind fun text => ?_
      by_cases hsame : text = state.input.text
      · rw [if_pos hsame, if_pos hsame]
        exact Session.answers_pure _
      · rw [if_neg hsame, if_neg hsame, look, bind_assoc]
        refine (run_answers _).bind fun result => ?_
        cases hbroken : result.hasSyntaxErrors with
        | true => exact (Session.answers_pure _).after_warn _
        | false => exact ih _

/-- The fixer's outcome is a function of its input. -/
theorem fix_answers (input : Input) :
    (e.fix (Grammar.ofFunction tree) selection input).Answers (e.mended tree selection input) := by
  refine (run_answers input).bind fun result => ?_
  by_cases hbroken : result.hasSyntaxErrors
  · rw [if_pos hbroken, if_pos hbroken]
    exact (Session.answers_pure _).after_warn _
  · rw [if_neg hbroken, if_neg hbroken]
    exact (fixFrom_answers _ _).bind fun last => Session.answers_pure _

/-! ### Passes that end normally -/

theorem passed_of_pass_eq_ok {state next : FixState} {more : Bool}
    (h : e.pass tree selection state = .ok (next, more)) :
    e.Passed tree selection state next more := by
  unfold pass at h
  by_cases hnone : state.accepted.isEmpty
  · rw [if_pos hnone] at h
    cases h
    exact .idle (List.isEmpty_iff.1 hnone)
  · rw [if_neg hnone] at h
    have hsome : state.accepted ≠ [] := fun hnil => hnone (List.isEmpty_iff.2 hnil)
    obtain ⟨text, happly, h⟩ := Outcome.exists_of_bind_eq_ok h
    by_cases hsame : text = state.input.text
    · rw [if_pos hsame] at h
      cases h
      exact .unchanged hsome (hsame ▸ happly)
    · rw [if_neg hsame] at h
      obtain ⟨result, hreport, h⟩ := Outcome.exists_of_bind_eq_ok h
      cases h
      exact .rewritten hsome happly hsame hreport

theorem settles_of_passesFrom_eq_ok {limit : Nat} {state final : FixState}
    (h : e.passesFrom tree selection limit state = .ok final) :
    e.Settles tree selection limit state final := by
  induction limit generalizing state with
  | zero =>
    cases h
    exact .spent _
  | succ limit ih =>
    obtain ⟨⟨next, more⟩, hpass, h⟩ := Outcome.exists_of_bind_eq_ok h
    cases more with
    | false =>
      cases h
      exact .stop (passed_of_pass_eq_ok hpass)
    | true => exact .go (passed_of_pass_eq_ok hpass) (ih h)

/-- The fixer leaves a text with syntax errors alone, and else makes passes from there on. -/
theorem settles_of_mended_eq_ok {input : Input} {result : FixResult}
    (h : e.mended tree selection input = .ok result) :
    ∃ first last, e.report tree selection input = .ok first ∧ result = last.finish input.text ∧
      ((first.hasSyntaxErrors = true ∧ last = ⟨input, 0, 0, first⟩) ∨
        (first.hasSyntaxErrors = false ∧
          e.Settles tree selection e.settings.passLimit ⟨input, 0, 0, first⟩ last)) := by
  obtain ⟨first, hreport, h⟩ := Outcome.exists_of_bind_eq_ok h
  cases hbroken : first.hasSyntaxErrors with
  | true =>
    rw [hbroken, if_pos rfl] at h
    cases h
    exact ⟨first, _, hreport, rfl, .inl ⟨hbroken, rfl⟩⟩
  | false =>
    rw [hbroken, if_neg Bool.false_ne_true] at h
    obtain ⟨last, hpasses, h⟩ := Outcome.exists_of_bind_eq_ok h
    cases h
    exact ⟨first, last, hreport, rfl, .inr ⟨hbroken, settles_of_passesFrom_eq_ok hpasses⟩⟩

end Engine

end TsxLint
