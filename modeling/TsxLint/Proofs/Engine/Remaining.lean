/-
Module: TsxLint.Proofs.Engine.Remaining
Purpose: What the fixer hands back: the report fits the text, and the text may be a broken one.
Main exports: Engine.fix_remaining_eq_run, Engine.fix_content_intact_or_broken_last
-/
import TsxLint.Proofs.Engine.Idempotence
import TsxLint.Proofs.Engine.Reached

namespace TsxLint

/-!
Every state holds the report on its own input, from the first one to the last, and the fixer hands
back the input and the report of one state.  So the report it hands back is that of the text it
hands back, by whichever exit it ends.

That state is not always one without syntax errors.  All passes but the last begin and end at texts
without any; a last pass that breaks the text is announced, but its text is kept.
-/

namespace Engine

/-! ### A rule that breaks a text -/

/-- A rule that asks for a parenthesis in front of every text. -/
def opening : Rule where
  id := "DEMO.OPENING"
  name := "Opening"
  category := "demo"
  description := "Asks for a parenthesis."
  listens := []
  visit source _ := .ok [⟨source.root, "parenthesis", [⟨0, 0, "(", Nat.le_refl 0⟩], [], []⟩]

/-- The tree of a program without parts, which has errors if there is a parenthesis in it. -/
def unopenedTree (text : String) (_ : Language) : ParseTree :=
  ⟨.node "program" true "" 0 text.utf8ByteSize [], text.toList.contains '('⟩

/-- An engine with that rule only. -/
def openingEngine : Engine := ((empty Settings.default).register opening).1

/-- A file of one letter. -/
def letterInput : Input := ⟨⟨"", ["a.tsx"]⟩, "a", "tsx"⟩

theorem report_letter :
    (·.hasSyntaxErrors) <$> openingEngine.report unopenedTree ⟨[], []⟩ letterInput =
      .ok false := by
  cbv

theorem mended_letter :
    (fun r => (r.content, r.remaining.hasSyntaxErrors)) <$>
        openingEngine.mended unopenedTree ⟨[], []⟩ letterInput = .ok ("(a", true) := by
  cbv

/-- One letter is a text without syntax errors, and the fixer hands back one with syntax errors. -/
theorem outcomes_letter (desk : Desk Unit) :
    ∃ first result,
      (openingEngine.run (.ofFunction unopenedTree) ⟨[], []⟩ letterInput).outcome desk = .ok first ∧
      first.hasSyntaxErrors = false ∧
      (openingEngine.fix (.ofFunction unopenedTree) ⟨[], []⟩ letterInput).outcome desk =
        .ok result ∧
      result.content = "(a" ∧ result.remaining.hasSyntaxErrors = true := by
  obtain ⟨first, hfirst, hintact⟩ := Outcome.exists_of_map_eq_ok report_letter
  obtain ⟨result, hresult, hfacts⟩ := Outcome.exists_of_map_eq_ok mended_letter
  obtain ⟨hcontent, hbroken⟩ := Prod.mk.inj hfacts
  refine ⟨first, result, ?_, hintact, ?_, hcontent, hbroken⟩
  · rw [run_answers _ desk, hfirst]
  · rw [fix_answers _ desk, hresult]

/-! ### The report handed back -/

section Reports

variable {e : Engine} {tree : String → Language → ParseTree} {selection : RuleSelection}

theorem report_of_mended_eq_ok {input : Input} {result : FixResult}
    (h : e.mended tree selection input = .ok result) :
    e.report tree selection { input with text := result.content } = .ok result.remaining := by
  obtain ⟨first, last, hreport, rfl, hlast⟩ := settles_of_mended_eq_ok h
  rcases hlast with ⟨-, rfl⟩ | ⟨-, settles⟩
  · exact hreport
  · have hcurrent : last.IsCurrent e tree selection := settles.isCurrent hreport
    have hinput : last.input = { input with text := last.input.text } := settles.input_eq
    unfold FixState.IsCurrent at hcurrent
    rw [hinput] at hcurrent
    exact hcurrent

end Reports

/-- Where the fixer ends normally, what it reports to remain is what a run reports on the text it
hands back, whatever lies on the desk of that run. -/
theorem fix_remaining_eq_run (e : Engine) (tree : String → Language → ParseTree)
    (selection : RuleSelection) (input : Input) (desk : Desk Unit) (result : FixResult)
    (h : (e.fix (Grammar.ofFunction tree) selection input).outcome desk = .ok result) :
    ∀ desk' : Desk Unit,
      (e.run (Grammar.ofFunction tree) selection { input with text := result.content }).outcome
        desk' = .ok result.remaining := by
  intro desk'
  have hmended : e.mended tree selection input = .ok result := by
    rw [← fix_answers input desk, h]
  rw [run_answers _ desk']
  exact report_of_mended_eq_ok hmended

/-- What is reported to remain of a letter is reported on the broken text that is handed back. -/
theorem fix_remaining_eq_run_letter :
    ∃ result,
      (openingEngine.fix (.ofFunction unopenedTree) ⟨[], []⟩ letterInput).outcome ⟨(), []⟩ =
        .ok result ∧
      result.content = "(a" ∧
      ∀ desk' : Desk Unit,
        (openingEngine.run (.ofFunction unopenedTree) ⟨[], []⟩
          { letterInput with text := result.content }).outcome desk' = .ok result.remaining := by
  obtain ⟨first, result, -, -, hfix, hcontent, -⟩ := outcomes_letter ⟨(), []⟩
  exact ⟨result, hfix, hcontent, fix_remaining_eq_run _ _ _ _ _ _ hfix⟩

/-! ### The text handed back -/

/-- A text without syntax errors is handed back as one that passes reached without any, together
with the report on it, or as what the last pass made of such a text and broke. -/
theorem fix_content_intact_or_broken_last {σ : Type} (e : Engine) (grammar : Grammar σ)
    (selection : RuleSelection) (input : Input) (desk : Desk σ) (first : RunResult)
    (result : FixResult) (hrun : (e.run grammar selection input).outcome desk = .ok first)
    (hintact : first.hasSyntaxErrors = false)
    (h : (e.fix grammar selection input).outcome desk = .ok result) :
    ∃ state desk', e.Reaches grammar selection ⟨input, 0, 0, first⟩
        ((e.run grammar selection input).left desk) state desk' ∧
      state.result.hasSyntaxErrors = false ∧
      ((result.content = state.input.text ∧ result.remaining = state.result) ∨
        (Edit.apply state.input.text state.accepted.flatten = .ok result.content ∧
          result.passes = state.passes + 1 ∧ result.remaining.hasSyntaxErrors = true)) := by
  obtain ⟨state, desk', o, hreach, hfix, hlast⟩ := fix_reaches_stop hrun hintact
  refine ⟨state, desk', hreach, hreach.intact hintact, ?_⟩
  rw [hfix] at h
  obtain ⟨last, rfl, rfl⟩ := Outcome.exists_of_map_eq_ok h
  rcases hlast with ⟨-, hspent⟩ | ⟨-, hstops⟩
  · cases hspent
    exact .inl ⟨rfl, rfl⟩
  · cases hstops with
    | idle => exact .inl ⟨rfl, rfl⟩
    | unchanged => exact .inl ⟨rfl, rfl⟩
    | broken some applied changed reported broken => exact .inr ⟨applied, rfl, broken⟩

theorem fix_content_broken_letter :
    ∃ first result state desk',
      (openingEngine.fix (.ofFunction unopenedTree) ⟨[], []⟩ letterInput).outcome ⟨(), []⟩ =
        .ok result ∧
      openingEngine.Reaches (.ofFunction unopenedTree) ⟨[], []⟩ ⟨letterInput, 0, 0, first⟩
        ((openingEngine.run (.ofFunction unopenedTree) ⟨[], []⟩ letterInput).left ⟨(), []⟩)
        state desk' ∧
      state.result.hasSyntaxErrors = false ∧
      ((result.content = state.input.text ∧ result.remaining = state.result) ∨
        (Edit.apply state.input.text state.accepted.flatten = .ok result.content ∧
          result.passes = state.passes + 1 ∧ result.remaining.hasSyntaxErrors = true)) := by
  obtain ⟨first, result, hrun, hintact, hfix, -, -⟩ := outcomes_letter ⟨(), []⟩
  obtain ⟨state, desk', hfacts⟩ :=
    fix_content_intact_or_broken_last _ _ _ _ _ _ _ hrun hintact hfix
  exact ⟨first, result, state, desk', hfix, hfacts⟩

/-- A text without syntax errors may be handed back as one that has some. -/
theorem fix_content_not_always_intact :
    ¬ ∀ (e : Engine) (tree : String → Language → ParseTree) (selection : RuleSelection)
        (input : Input) (desk : Desk Unit) (first : RunResult) (result : FixResult),
      (e.run (.ofFunction tree) selection input).outcome desk = .ok first →
      first.hasSyntaxErrors = false →
      (e.fix (.ofFunction tree) selection input).outcome desk = .ok result →
      result.remaining.hasSyntaxErrors = false := by
  intro hall
  obtain ⟨first, result, hrun, hintact, hfix, -, hbroken⟩ := outcomes_letter ⟨(), []⟩
  rw [hall _ _ _ _ _ _ _ hrun hintact hfix] at hbroken
  cases hbroken

end Engine

end TsxLint
