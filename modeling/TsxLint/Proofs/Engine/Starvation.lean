/-
Module: TsxLint.Proofs.Engine.Starvation
Purpose: Findings that the fixer could mend and yet hands back.
Main exports: Finding.IsStarved, Finding.YieldsTo, FixState.yields_of_isStarved,
  Engine.fix_starves_by_unchanged_pass
-/
import TsxLint.Proofs.Edit.Acceptance
import TsxLint.Proofs.Engine.Remaining

namespace TsxLint

/-!
A finding is starved if its edits, applied alone, would change the text, and the fixer ends without
applying them.  Passes that end because nothing is accepted starve no finding: the first group in
order is always accepted.  What starves findings is the other stop, a pass whose accepted edits
leave the text as it is.  Edits that put back what is there win over those that they touch, and
edits that are accepted together can undo each other.
-/

/-- The edits of a finding can be applied to a text alone, and would change it. -/
structure Finding.IsStarved (f : Finding) (text : String) : Prop where
  some : f.edits ≠ []
  apart : Edit.Apart f.edits
  inside : ∀ e ∈ f.edits, e.stop ≤ text.utf8ByteSize
  changes : ∃ changed, Edit.apply text f.edits = .ok changed ∧ changed ≠ text

/-- A finding has no effect among accepted groups: it is accepted together with others, or it
touches one that begins no later. -/
def Finding.YieldsTo (f : Finding) (accepted : List (List Edit)) : Prop :=
  (f.edits ∈ accepted ∧ 2 ≤ accepted.length) ∨
    ∃ group ∈ accepted,
      Edit.groupStart group ≤ Edit.groupStart f.edits ∧ Edit.clashes group f.edits = true

/-- One edit starves if it fits into the text and changes it. -/
theorem Finding.isStarved_of_edit {f : Finding} {e : Edit} {text changed : String}
    (hedits : f.edits = [e]) (inside : e.stop ≤ text.utf8ByteSize)
    (happly : Edit.apply text [e] = .ok changed) (hchanged : changed ≠ text) :
    f.IsStarved text where
  some := by simp [hedits]
  apart := by simp [hedits, Edit.Apart]
  inside := by simpa [hedits] using inside
  changes := ⟨changed, by rw [hedits, happly], hchanged⟩

namespace FixState

/-- A starved finding is accepted, or is held back by a group that is accepted and begins no
later. -/
theorem accepted_or_held_back {s : FixState} {f : Finding} {text : String}
    (hf : f ∈ s.result.findings) (starved : f.IsStarved text) :
    f.edits ∈ s.accepted ∨ ∃ group ∈ s.accepted,
      Edit.groupStart group ≤ Edit.groupStart f.edits ∧ Edit.clashes group f.edits = true :=
  FixPlan.accepted_or_held_back hf starved.some starved.apart

/-- Something is accepted if there is a starved finding. -/
theorem accepted_ne_nil_of_isStarved {s : FixState} {f : Finding} {text : String}
    (hf : f ∈ s.result.findings) (starved : f.IsStarved text) : s.accepted ≠ [] := by
  rcases accepted_or_held_back hf starved with haccepted | ⟨group, hgroup, -⟩
  · exact List.ne_nil_of_mem haccepted
  · exact List.ne_nil_of_mem hgroup

/-- Where the accepted groups leave a text as it is, starved findings yield to them. -/
theorem yields_of_isStarved {s : FixState} {f : Finding} {text : String}
    (hf : f ∈ s.result.findings) (starved : f.IsStarved text)
    (same : Edit.apply text s.accepted.flatten = .ok text) : f.YieldsTo s.accepted := by
  rcases accepted_or_held_back hf starved with haccepted | hheld
  · refine .inl ⟨haccepted, ?_⟩
    by_contra hfew
    have hpos : 0 < s.accepted.length := List.length_pos_of_mem haccepted
    obtain ⟨group, hgroup⟩ := List.length_eq_one_iff.1 (by omega : s.accepted.length = 1)
    rw [hgroup, List.mem_singleton] at haccepted
    -- a finding that is accepted alone changes the text
    obtain ⟨changed, happly, hchanged⟩ := starved.changes
    rw [hgroup, ← haccepted, List.flatten_singleton, happly] at same
    cases same
    exact hchanged rfl
  · exact .inr hheld

end FixState

namespace Engine

/-! ### Edits without effect -/

/-- A rule that asks for the same edits of every text. -/
def insisting (id : String) (edits : List Edit) : Rule where
  id := id
  name := "Insisting"
  category := "demo"
  description := "Asks for the same edits of every text."
  listens := []
  visit source _ := .ok [⟨source.root, "edits", edits, [], []⟩]

/-- An engine with two such rules. -/
def insistingEngine (first second : List Edit) : Engine :=
  (((empty Settings.default).register (insisting "DEMO.FIRST" first)).1.register
    (insisting "DEMO.SECOND" second)).1

/-- What the fixer hands back: the text, the passes, whether there are syntax errors, and the edits
that findings still ask for. -/
def handedBack (r : FixResult) : String × Nat × Bool × List (List Edit) :=
  (r.content, r.passes, r.remaining.hasSyntaxErrors, r.remaining.findings.map (·.edits))

/-- Adding nothing wins over replacing the letter behind it. -/
theorem mended_idle_first :
    handedBack <$> (insistingEngine [⟨0, 0, "", Nat.le_refl 0⟩]
        [⟨0, 1, "b", Nat.zero_le 1⟩]).mended bareTree ⟨[], []⟩ letterInput =
      .ok ("a", 1, false, [[⟨0, 0, "", Nat.le_refl 0⟩], [⟨0, 1, "b", Nat.zero_le 1⟩]]) := by
  cbv

/-- Taking a letter away in front and adding one behind leaves a row of letters as it is. -/
theorem mended_undone :
    handedBack <$> (insistingEngine [⟨0, 1, "", Nat.zero_le 1⟩]
        [⟨3, 3, "a", Nat.le_refl 3⟩]).mended bareTree ⟨[], []⟩ { letterInput with text := "aaa" } =
      .ok ("aaa", 1, false, [[⟨0, 1, "", Nat.zero_le 1⟩], [⟨3, 3, "a", Nat.le_refl 3⟩]]) := by
  cbv

/-- A text that is handed back after one pass starves a finding whose edit fits into it and would
change it. -/
theorem exists_starved {first second : List Edit} {input : Input} {text changed : String}
    {wanted : List (List Edit)} {e : Edit}
    (h : handedBack <$> (insistingEngine first second).mended bareTree ⟨[], []⟩ input =
      .ok (text, 1, false, wanted))
    (he : [e] ∈ wanted) (inside : e.stop ≤ text.utf8ByteSize)
    (happly : Edit.apply text [e] = .ok changed) (hchanged : changed ≠ text) :
    ∃ result, ((insistingEngine first second).fix (.ofFunction bareTree) ⟨[], []⟩ input).outcome
        ⟨(), []⟩ = .ok result ∧
      result.passes < (insistingEngine first second).settings.passLimit ∧
      result.remaining.hasSyntaxErrors = false ∧
      ∃ f ∈ result.remaining.findings, f.IsStarved result.content := by
  obtain ⟨result, hmended, hfacts⟩ := Outcome.exists_of_map_eq_ok h
  simp only [handedBack, Prod.mk.injEq] at hfacts
  obtain ⟨rfl, hpasses, hintact, rfl⟩ := hfacts
  obtain ⟨f, hf, hedits⟩ := List.mem_map.1 he
  have hlimit : (insistingEngine first second).settings.passLimit = 10 := rfl
  refine ⟨result, (fix_answers input ⟨(), []⟩).trans hmended, ?_, hintact, f, hf, ?_⟩
  · rw [hpasses, hlimit]
    simp
  · exact Finding.isStarved_of_edit hedits inside happly hchanged

/-! ### Starved findings -/

/-- Where the fixer stops with passes to spare, at a text without syntax errors, it starves findings
only by a pass that it made and that left the text as it is; such findings yield to the groups
accepted in it. -/
theorem fix_starves_by_unchanged_pass {σ : Type} (e : Engine) (grammar : Grammar σ)
    (selection : RuleSelection) (input : Input) (desk : Desk σ) (result : FixResult)
    (h : (e.fix grammar selection input).outcome desk = .ok result)
    (hpasses : result.passes < e.settings.passLimit)
    (hintact : result.remaining.hasSyntaxErrors = false) :
    ∀ f ∈ result.remaining.findings, f.IsStarved result.content →
      0 < result.passes ∧
      Edit.apply result.content (FixPlan.ofFindings result.remaining.findings).accepted.flatten =
        .ok result.content ∧
      f.YieldsTo (FixPlan.ofFindings result.remaining.findings).accepted := by
  intro f hf starved
  obtain ⟨first, hrun⟩ : ∃ first, (e.run grammar selection input).outcome desk = .ok first := by
    rw [fix, Session.outcome_bind] at h
    obtain ⟨first, hfirst, -⟩ := Outcome.exists_of_bind_eq_ok h
    exact ⟨first, hfirst⟩
  cases hbroken : first.hasSyntaxErrors with
  | true =>
    rw [outcome_fix_of_broken hrun hbroken] at h
    cases h
    exact absurd hintact (by simp [FixState.finish, hbroken])
  | false =>
    obtain ⟨state, desk', o, -, hfix, hlast⟩ := fix_reaches_stop hrun hbroken
    rw [hfix] at h
    obtain ⟨last, rfl, rfl⟩ := Outcome.exists_of_map_eq_ok h
    rcases hlast with ⟨hspent, hstate⟩ | ⟨-, hstops⟩
    · cases hstate
      exact absurd hspent (Nat.ne_of_lt hpasses)
    · cases hstops with
      | idle none => exact absurd none (FixState.accepted_ne_nil_of_isStarved hf starved)
      | unchanged some same =>
        exact ⟨Nat.succ_pos _, same, FixState.yields_of_isStarved hf starved same⟩
      | broken some applied changed reported broken =>
        exact absurd (hintact.symm.trans broken) Bool.false_ne_true

/-- Two findings that undo each other are handed back, and each of them would change the text. -/
theorem fix_starves_undone :
    ∃ result,
      ((insistingEngine [⟨0, 1, "", Nat.zero_le 1⟩] [⟨3, 3, "a", Nat.le_refl 3⟩]).fix
          (.ofFunction bareTree) ⟨[], []⟩ { letterInput with text := "aaa" }).outcome ⟨(), []⟩ =
        .ok result ∧
      ∃ f ∈ result.remaining.findings, f.IsStarved result.content ∧
        0 < result.passes ∧
        f.YieldsTo (FixPlan.ofFindings result.remaining.findings).accepted := by
  have happly : Edit.apply "aaa" [⟨0, 1, "", Nat.zero_le 1⟩] = .ok "aa" := by cbv
  obtain ⟨result, hfix, hpasses, hintact, f, hf, starved⟩ :=
    exists_starved mended_undone (by simp) (by decide) happly (by simp)
  obtain ⟨hpos, -, hyields⟩ :=
    fix_starves_by_unchanged_pass _ _ _ _ _ _ hfix hpasses hintact f hf starved
  exact ⟨result, hfix, f, hf, starved, hpos, hyields⟩

/-- The fixer may stop with passes to spare, at a text without syntax errors, and hand back a
finding that it could still mend. -/
theorem fix_may_starve :
    ¬ ∀ (e : Engine) (tree : String → Language → ParseTree) (selection : RuleSelection)
        (input : Input) (desk : Desk Unit) (result : FixResult),
      (e.fix (.ofFunction tree) selection input).outcome desk = .ok result →
      result.passes < e.settings.passLimit → result.remaining.hasSyntaxErrors = false →
      ∀ f ∈ result.remaining.findings, ¬ f.IsStarved result.content := by
  intro hall
  have happly : Edit.apply "a" [⟨0, 1, "b", Nat.zero_le 1⟩] = .ok "b" := by cbv
  obtain ⟨result, hfix, hpasses, hintact, f, hf, starved⟩ :=
    exists_starved mended_idle_first (by simp) (by decide) happly (by simp)
  exact hall _ _ _ _ _ _ hfix hpasses hintact f hf starved

end Engine

end TsxLint
