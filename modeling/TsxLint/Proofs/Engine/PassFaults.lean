/-
Module: TsxLint.Proofs.Engine.PassFaults
Purpose: What the fixer fails with where the edits of a pass get in each other's way: only with an
  edit that ends behind the text.
Main exports: Fault.IsClash, Grammar.NeverClashes, Engine.fix_fails_only_behind_text
-/
import TsxLint.Proofs.Edit.Acceptance
import TsxLint.Proofs.Engine.Idempotence
import TsxLint.Proofs.Engine.Reached
import TsxLint.Proofs.Source.ParseFaults

namespace TsxLint

/-!
A run of the fixer fails in one of two places: at a text that could not be reported on, or at edits
that could not be applied to the text of a pass it came to make.  The first is never a clash of
edits, and the second is one only if an edit ends behind the text, since the accepted edits of a
pass do not overlap.
-/

namespace Fault

/-- A fault of edits that get in the way of each other or of the text. -/
def IsClash (fault : Fault) : Prop := fault.kind = "EditConflictError"

theorem IsMalformedText.not_isClash {fault : Fault} (h : fault.IsMalformedText) :
    ¬ fault.IsClash := by
  obtain ⟨error, rfl⟩ := h
  simp [IsClash, kind]

end Fault

/-- A grammar does not fail with a clash of edits. -/
def Grammar.NeverClashes {σ : Type} (grammar : Grammar σ) : Prop :=
  ∀ supply text language, Outcome.FailsOnly (¬ ·.IsClash) (grammar.parse supply text language).1

theorem Grammar.neverClashes_ofFunction (tree : String → Language → ParseTree) :
    (Grammar.ofFunction tree).NeverClashes := fun _ text language => .ok (tree text language)

/-! ### Sessions with faults of a certain sort -/

namespace Session

variable {σ α β : Type}

/-- A session fails only with faults that have a property, whatever lies on the desk. -/
def FailsOnly (P : Fault → Prop) (session : Session σ α) : Prop :=
  ∀ desk, Outcome.FailsOnly P (session.outcome desk)

theorem FailsOnly.bind {P : Fault → Prop} {session : Session σ α} {next : α → Session σ β}
    (h : FailsOnly P session) (hnext : ∀ a, FailsOnly P (next a)) :
    FailsOnly P (session >>= next) := by
  intro desk
  rw [outcome_bind]
  exact (h desk).bind fun a => hnext a _

theorem failsOnly_ofOutcome {P : Fault → Prop} {o : Outcome α} (h : Outcome.FailsOnly P o) :
    FailsOnly P (ofOutcome o : Session σ α) := by
  intro desk
  rw [outcome_ofOutcome]
  exact h

end Session

/-! ### Faults of a run -/

theorem Language.failsOnly_resolve (given : String) (path : FilePath) :
    Outcome.FailsOnly (¬ ·.IsClash) (Language.resolve given path) := by
  unfold Language.resolve
  intro fault h
  split at h
  · cases h
  · split at h
    · cases h
    · cases h
      simp [Fault.IsClash, Fault.kind]

theorem SourceFile.failsOnly_ofTree (path : FilePath) (language : Language) (text : String)
    (tree : ParseTree) :
    Outcome.FailsOnly (¬ ·.IsClash) (SourceFile.ofTree path language text tree) :=
  fun fault h => (onlySlicesFail_ofTree path language text tree fault h).not_isClash

section Runs

variable {σ : Type} {grammar : Grammar σ}

theorem Session.failsOnly_ask (hgrammar : grammar.NeverClashes) (text : String)
    (language : Language) : FailsOnly (¬ ·.IsClash) (ask grammar text language) := by
  intro desk
  exact failsOnly_ofOutcome (hgrammar desk.supply text language) _

theorem Session.failsOnly_parse (hgrammar : grammar.NeverClashes) (input : Input) :
    FailsOnly (¬ ·.IsClash) (parse grammar input) := by
  apply (failsOnly_ofOutcome (Language.failsOnly_resolve _ _)).bind
  intro language
  apply (failsOnly_ask hgrammar _ _).bind
  intro tree
  exact failsOnly_ofOutcome (SourceFile.failsOnly_ofTree _ _ _ _)

/-- Rules keep their faults to themselves, so a run fails only where parsing does. -/
theorem Engine.failsOnly_run (hgrammar : grammar.NeverClashes) (e : Engine)
    (selection : RuleSelection) (input : Input) :
    Session.FailsOnly (¬ ·.IsClash) (e.run grammar selection input) := by
  apply (Session.failsOnly_parse hgrammar input).bind
  intro source desk
  exact .ok _

end Runs

/-! ### Clashes of passes -/

namespace Engine

variable {σ : Type} {e : Engine} {grammar : Grammar σ} {selection : RuleSelection}

/-- Applying the accepted edits of a state fails with a clash only if one of them ends behind the
text. -/
theorem exists_behind_of_apply_eq_error {state : FixState} {fault : Fault}
    (h : Edit.apply state.input.text state.accepted.flatten = .error fault)
    (hclash : fault.IsClash) :
    ∃ edit ∈ state.accepted.flatten, state.input.text.utf8ByteSize < edit.stop ∧
      fault = .editOutside edit.start edit.stop state.input.text.utf8ByteSize :=
  Edit.exists_outside_of_apply_eq_error (FixPlan.apart_accepted _) h hclash

/-- A clash in a pass that stops is one of applying the edits it accepted. -/
theorem Stops.apply_eq_error_of_isClash (hgrammar : grammar.NeverClashes) {state : FixState}
    {desk : Desk σ} {fault : Fault}
    (h : e.Stops grammar selection state desk (.error fault)) (hclash : fault.IsClash) :
    Edit.apply state.input.text state.accepted.flatten = .error fault := by
  cases h with
  | unapplied some failed => exact failed
  | unreported some applied changed failed =>
    exact absurd hclash (failsOnly_run hgrammar e selection _ _ fault failed)

/-- A clash in a run of the fixer is one of applying the edits accepted by a pass it came to
make. -/
theorem exists_reached_of_fix_eq_error (hgrammar : grammar.NeverClashes) {input : Input}
    {desk : Desk σ} {fault : Fault}
    (h : (e.fix grammar selection input).outcome desk = .error fault) (hclash : fault.IsClash) :
    ∃ first state desk', (e.run grammar selection input).outcome desk = .ok first ∧
      first.hasSyntaxErrors = false ∧
      e.Reaches grammar selection ⟨input, 0, 0, first⟩ ((e.run grammar selection input).left desk)
        state desk' ∧
      state.passes < e.settings.passLimit ∧
      Edit.apply state.input.text state.accepted.flatten = .error fault := by
  cases hrun : (e.run grammar selection input).outcome desk with
  | error early =>
    rw [fix, Session.outcome_bind, hrun] at h
    cases h
    exact absurd hclash (failsOnly_run hgrammar e selection input desk fault hrun)
  | ok first =>
    cases hbroken : first.hasSyntaxErrors with
    | true =>
      rw [outcome_fix_of_broken hrun hbroken] at h
      cases h
    | false =>
      obtain ⟨state, desk', o, hreach, hfix, hlast⟩ := fix_reaches_stop hrun hbroken
      rw [hfix] at h
      cases o with
      | ok last => cases h
      | error early =>
        cases h
        rcases hlast with ⟨-, hspent⟩ | ⟨hlt, hstops⟩
        · cases hspent
        · exact ⟨first, state, desk', rfl, hbroken, hreach, hlt,
            hstops.apply_eq_error_of_isClash hgrammar hclash⟩

/-- Whatever edits rules ask for, the fixer never fails because two of them overlap.  If it fails
with a clash of edits, it came to make a pass which accepted an edit that ends behind the text of
that pass. -/
theorem fix_fails_only_behind_text (e : Engine) (grammar : Grammar σ)
    (hgrammar : grammar.NeverClashes) (selection : RuleSelection) (input : Input)
    (desk : Desk σ) :
    (∀ start stop otherStart otherStop,
      (e.fix grammar selection input).outcome desk ≠
        .error (.overlappingEdits start stop otherStart otherStop)) ∧
    ∀ fault, (e.fix grammar selection input).outcome desk = .error fault →
      fault.kind = "EditConflictError" →
      ∃ first state desk', (e.run grammar selection input).outcome desk = .ok first ∧
        first.hasSyntaxErrors = false ∧
        e.Reaches grammar selection ⟨input, 0, 0, first⟩
          ((e.run grammar selection input).left desk) state desk' ∧
        state.passes < e.settings.passLimit ∧
        ∃ edit ∈ state.accepted.flatten, state.input.text.utf8ByteSize < edit.stop ∧
          fault = .editOutside edit.start edit.stop state.input.text.utf8ByteSize := by
  constructor
  · intro start stop otherStart otherStop h
    obtain ⟨first, last, desk', -, -, -, -, happly⟩ := exists_reached_of_fix_eq_error hgrammar h rfl
    obtain ⟨edit, -, -, hfault⟩ := exists_behind_of_apply_eq_error happly rfl
    cases hfault
  · intro fault h hkind
    obtain ⟨first, last, desk', hrun, hintact, hreach, hlt, happly⟩ :=
      exists_reached_of_fix_eq_error hgrammar h hkind
    exact ⟨first, last, desk', hrun, hintact, hreach, hlt,
      exists_behind_of_apply_eq_error happly hkind⟩

/-! ### A rule that reaches too far -/

/-- A rule that asks for `b` in place of each letter `a` and of the letter behind it. -/
def shortening : Rule where
  id := "DEMO.SHORTENING"
  name := "Shortening"
  category := "demo"
  description := "Asks for one letter in place of two."
  listens := []
  visit source _ :=
    let places :=
      (List.range source.document.size).filter fun i => source.document.bytes[i]? == some 97
    .ok (places.map fun i =>
      ⟨source.root, "letters", [⟨i, i + 2, "b", Nat.le_add_right i 2⟩], [], []⟩)

/-- An engine with that rule only. -/
def shorteningEngine : Engine := ((empty Settings.default).register shortening).1

/-- The first pass accepts one of three edits, which overlap or touch.  In the second pass the last
letter has none behind it. -/
theorem mended_shortening (path : FilePath) :
    shorteningEngine.mended bareTree ⟨[], []⟩ ⟨path, "aaa", "tsx"⟩ =
      .error (.editOutside 1 3 2) := by
  cbv

theorem fix_fails_behind_shortened_text :
    ∃ first state desk',
      (shorteningEngine.run (.ofFunction bareTree) ⟨[], []⟩ ⟨⟨"", ["a.tsx"]⟩, "aaa", "tsx"⟩).outcome
        ⟨(), []⟩ = .ok first ∧
      first.hasSyntaxErrors = false ∧
      shorteningEngine.Reaches (.ofFunction bareTree) ⟨[], []⟩
        ⟨⟨⟨"", ["a.tsx"]⟩, "aaa", "tsx"⟩, 0, 0, first⟩
        ((shorteningEngine.run (.ofFunction bareTree) ⟨[], []⟩
          ⟨⟨"", ["a.tsx"]⟩, "aaa", "tsx"⟩).left ⟨(), []⟩) state desk' ∧
      state.passes < shorteningEngine.settings.passLimit ∧
      ∃ edit ∈ state.accepted.flatten, state.input.text.utf8ByteSize < edit.stop ∧
        Fault.editOutside 1 3 2 =
          .editOutside edit.start edit.stop state.input.text.utf8ByteSize := by
  have h : (shorteningEngine.fix (.ofFunction bareTree) ⟨[], []⟩
      ⟨⟨"", ["a.tsx"]⟩, "aaa", "tsx"⟩).outcome ⟨(), []⟩ = .error (.editOutside 1 3 2) := by
    rw [fix_answers, mended_shortening]
  have hgrammar := Grammar.neverClashes_ofFunction bareTree
  exact (fix_fails_only_behind_text _ _ hgrammar _ _ _).2 _ h rfl

end Engine

end TsxLint
