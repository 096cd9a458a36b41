/-
Module: TsxLint.Proofs.Engine.Idempotence
Purpose: A text that the fixer has come to rest at is left alone by the fixer.
Main exports: FixState.IsAtRest, Engine.Settles.rests, Engine.fix_content_eq
-/
import Mathlib
import TsxLint.Proofs.Engine.Passes

namespace TsxLint

/-!
A sequence of passes ends because the limit is reached, because the new text has
syntax errors, or in a state that one more pass would not change.  In the last two
cases the fixer, given the text it ended with, stops where it stands: it looks at
the same report, since a state always holds the report on its own input.
-/

variable {e : Engine} {tree : String → Language → ParseTree} {selection : RuleSelection}

namespace FixState

/-- One more pass would leave the text of a state as it is. -/
def IsAtRest (s : FixState) : Prop :=
  s.accepted = [] ∨ Edit.apply s.input.text s.accepted.flatten = .ok s.input.text

/-- A state holds the report on its own input. -/
def IsCurrent (e : Engine) (tree : String → Language → ParseTree) (selection : RuleSelection)
    (s : FixState) : Prop :=
  e.report tree selection s.input = .ok s.result

end FixState

namespace Engine

/-! ### What a pass keeps -/

theorem Passed.isCurrent {state next : FixState} {more : Bool}
    (h : e.Passed tree selection state next more) (hs : state.IsCurrent e tree selection) :
    next.IsCurrent e tree selection := by
  cases h with
  | idle => exact hs
  | unchanged => exact hs
  | rewritten some applied changed reported => exact reported

/-- A pass changes nothing of an input but its text. -/
theorem Passed.input_eq {state next : FixState} {more : Bool}
    (h : e.Passed tree selection state next more) :
    next.input = { state.input with text := next.input.text } := by
  cases h <;> rfl

theorem Passed.passes_le {state next : FixState} {more : Bool}
    (h : e.Passed tree selection state next more) : next.passes ≤ state.passes + 1 := by
  cases h with
  | idle => exact Nat.le_succ _
  | unchanged => exact Nat.le_refl _
  | rewritten => exact Nat.le_refl _

/-- A pass that another one follows is counted. -/
theorem Passed.passes_eq {state next : FixState} {more : Bool}
    (h : e.Passed tree selection state next more) (hmore : more = true) :
    next.passes = state.passes + 1 := by
  cases h with
  | idle => cases hmore
  | unchanged => cases hmore
  | rewritten => rfl

/-- A pass that no other one follows ends at rest or at a text with syntax errors. -/
theorem Passed.rests {state next : FixState} {more : Bool}
    (h : e.Passed tree selection state next more) (hmore : more = false) :
    next.result.hasSyntaxErrors = true ∨ next.IsAtRest := by
  cases h with
  | idle none => exact .inr (.inl none)
  | unchanged some same => exact .inr (.inr same)
  | rewritten => exact .inl (by simpa using hmore)

/-! ### What a sequence of passes keeps -/

theorem Settles.isCurrent {limit : Nat} {state final : FixState}
    (h : e.Settles tree selection limit state final) (hs : state.IsCurrent e tree selection) :
    final.IsCurrent e tree selection := by
  induction h with
  | spent => exact hs
  | stop last => exact last.isCurrent hs
  | go first _ ih => exact ih (first.isCurrent hs)

theorem Settles.input_eq {limit : Nat} {state final : FixState}
    (h : e.Settles tree selection limit state final) :
    final.input = { state.input with text := final.input.text } := by
  induction h with
  | spent => rfl
  | stop last => exact last.input_eq
  | go first _ ih =>
    rw [first.input_eq] at ih
    exact ih

theorem Settles.passes_le {limit : Nat} {state final : FixState}
    (h : e.Settles tree selection limit state final) : final.passes ≤ state.passes + limit := by
  induction h with
  | spent => exact Nat.le_refl _
  | stop last =>
    have := last.passes_le
    omega
  | go first _ ih =>
    have := first.passes_le
    omega

/-- Passes end because they are used up, at a text with syntax errors, or at rest. -/
theorem Settles.rests {limit : Nat} {state final : FixState}
    (h : e.Settles tree selection limit state final) :
    final.passes = state.passes + limit ∨ final.result.hasSyntaxErrors = true ∨
      final.IsAtRest := by
  induction h with
  | spent => exact .inl rfl
  | stop last => exact .inr (last.rests rfl)
  | go first _ ih =>
    rcases ih with spent | rests
    · have := first.passes_eq rfl
      exact .inl (by omega)
    · exact .inr rests

/-! ### Passes from a state at rest -/

theorem pass_of_isAtRest (e : Engine) (tree : String → Language → ParseTree)
    (selection : RuleSelection) {state : FixState} (h : state.IsAtRest) :
    ∃ next, e.pass tree selection state = .ok (next, false) ∧ next.input = state.input := by
  unfold pass
  by_cases hnone : state.accepted.isEmpty
  · exact ⟨state, if_pos hnone, rfl⟩
  · rcases h with hnil | hsame
    · exact absurd (List.isEmpty_iff.2 hnil) hnone
    · rw [if_neg hnone, hsame]
      exact ⟨state.counted, if_pos rfl, rfl⟩

theorem passesFrom_of_isAtRest (e : Engine) (tree : String → Language → ParseTree)
    (selection : RuleSelection) {state : FixState} (limit : Nat) (h : state.IsAtRest) :
    ∃ final, e.passesFrom tree selection limit state = .ok final ∧ final.input = state.input := by
  cases limit with
  | zero => exact ⟨state, rfl, rfl⟩
  | succ limit =>
    obtain ⟨next, hpass, hinput⟩ := pass_of_isAtRest e tree selection h
    exact ⟨next, by rw [passesFrom, hpass]; rfl, hinput⟩

/-- The fixer stops where it stands at a text with syntax errors. -/
theorem mended_of_broken {input : Input} {result : RunResult}
    (hreport : e.report tree selection input = .ok result) (hbroken : result.hasSyntaxErrors = true) :
    e.mended tree selection input =
      .ok (FixState.finish ⟨input, 0, 0, result⟩ input.text) := by
  rw [mended, hreport]
  exact if_pos hbroken

/-- The fixer leaves a text alone that is broken or that a state came to rest at. -/
theorem mended_of_rests {state : FixState} (hcurrent : state.IsCurrent e tree selection)
    (hrests : state.result.hasSyntaxErrors = true ∨ state.IsAtRest) :
    ∃ again, e.mended tree selection state.input = .ok again ∧
      again.content = state.input.text := by
  by_cases hbroken : state.result.hasSyntaxErrors
  · exact ⟨_, mended_of_broken hcurrent hbroken, rfl⟩
  · have hrest : FixState.IsAtRest ⟨state.input, 0, 0, state.result⟩ :=
      hrests.resolve_left hbroken
    obtain ⟨final, hpasses, hinput⟩ :=
      passesFrom_of_isAtRest e tree selection e.settings.passLimit hrest
    refine ⟨final.finish state.input.text, ?_, congrArg Input.text hinput⟩
    have hreport : e.report tree selection state.input = .ok state.result := hcurrent
    rw [mended, hreport]
    change (if state.result.hasSyntaxErrors = true then _ else _) = _
    rw [if_neg hbroken, hpasses]
    rfl

/-- The fixer makes no more passes than it may.  If it ends before they are used up, or at a
text with syntax errors, then given the text it ended with it ends normally and leaves that text
as it is. -/
theorem fix_content_eq (e : Engine) (tree : String → Language → ParseTree)
    (selection : RuleSelection) (input : Input) (desk : Desk Unit) (result : FixResult)
    (h : (e.fix (Grammar.ofFunction tree) selection input).outcome desk = .ok result) :
    result.passes ≤ e.settings.passLimit ∧
    (result.passes < e.settings.passLimit ∨ result.remaining.hasSyntaxErrors = true →
      ∀ desk' : Desk Unit, ∃ again,
        (e.fix (Grammar.ofFunction tree) selection { input with text := result.content }).outcome
          desk' = .ok again ∧ again.content = result.content) := by
  have hmended : e.mended tree selection input = .ok result := by
    rw [← fix_answers input desk, h]
  obtain ⟨first, last, hreport, rfl, hlast⟩ := settles_of_mended_eq_ok hmended
  have hfacts : last.passes ≤ e.settings.passLimit ∧ last.IsCurrent e tree selection ∧
      last.input = { input with text := last.input.text } ∧
      (last.passes < e.settings.passLimit ∨ last.result.hasSyntaxErrors = true →
        last.result.hasSyntaxErrors = true ∨ last.IsAtRest) := by
    rcases hlast with ⟨hbroken, rfl⟩ | ⟨-, settles⟩
    · exact ⟨Nat.zero_le _, hreport, rfl, fun _ => .inl hbroken⟩
    · have hle := settles.passes_le
      simp only [Nat.zero_add] at hle
      refine ⟨hle, settles.isCurrent hreport, settles.input_eq, ?_⟩
      intro hend
      rcases settles.rests with spent | rests
      · rcases hend with hlt | hbroken
        · simp only [Nat.zero_add] at spent
          omega
        · exact .inl hbroken
      · exact rests
  obtain ⟨hle, hcurrent, hinput, hrests⟩ := hfacts
  refine ⟨hle, ?_⟩
  intro hend desk'
  obtain ⟨again, hagain, hcontent⟩ := mended_of_rests hcurrent (hrests hend)
  refine ⟨again, ?_, hcontent⟩
  rw [fix_answers _ desk', ← hagain]
  exact congrArg (e.mended tree selection) hinput.symm

/-! ### A run of the fixer -/

/-- A rule that asks for `b` wherever the letter `a` stands. -/
def relettering : Rule where
  id := "DEMO.RELETTERING"
  name := "Relettering"
  category := "demo"
  description := "Asks for another letter."
  listens := []
  visit source _ :=
    let places :=
      (List.range source.document.size).filter fun i => source.document.bytes[i]? == some 97
    .ok (places.map fun i => ⟨source.root, "letter", [⟨i, i + 1, "b", Nat.le_succ i⟩], [], []⟩)

/-- The tree of a text that is one program without parts. -/
def bareTree (text : String) (_ : Language) : ParseTree :=
  ⟨.node "program" true "" 0 text.utf8ByteSize [], false⟩

/-- An engine with that rule only. -/
def reletteringEngine : Engine := ((empty Settings.default).register relettering).1

theorem mended_relettering (path : FilePath) :
    reletteringEngine.mended bareTree ⟨[], []⟩ ⟨path, "aa", "tsx"⟩ =
      .ok ⟨path, "aa", "bb", 2, 2, ⟨path, [], [], 1, 0, false⟩⟩ := by
  cbv

/-- Two letters side by side take two passes, since their edits touch. -/
theorem fix_content_eq_relettering :
    ∃ result,
      (reletteringEngine.fix (.ofFunction bareTree) ⟨[], []⟩ ⟨⟨"", ["a.tsx"]⟩, "aa", "tsx"⟩).outcome
          ⟨(), []⟩ = .ok result ∧
        result.passes < reletteringEngine.settings.passLimit ∧
        ∃ again,
          (reletteringEngine.fix (.ofFunction bareTree) ⟨[], []⟩
            ⟨⟨"", ["a.tsx"]⟩, result.content, "tsx"⟩).outcome ⟨(), []⟩ = .ok again ∧
            again.content = result.content := by
  have h : (reletteringEngine.fix (.ofFunction bareTree) ⟨[], []⟩
      ⟨⟨"", ["a.tsx"]⟩, "aa", "tsx"⟩).outcome ⟨(), []⟩ =
        .ok ⟨⟨"", ["a.tsx"]⟩, "aa", "bb", 2, 2, ⟨⟨"", ["a.tsx"]⟩, [], [], 1, 0, false⟩⟩ := by
    rw [fix_answers, mended_relettering]
  have hlt : 2 < reletteringEngine.settings.passLimit := by decide
  exact ⟨_, h, hlt, (fix_content_eq _ _ _ _ _ _ h).2 (.inl hlt) _⟩

end Engine

end TsxLint
