/-
Module: TsxLint.Proofs.Edit.Acceptance
Purpose: The edits that a pass accepts can be applied together.
Main exports: Edit.conflicts_of_overlaps, Edit.apart_selectFrom, Edit.accepted_or_clashes,
  Edit.countP_accepted_le_one, FixPlan.apart_accepted, FixPlan.count_accepted_le_one,
  FixPlan.accepted_or_held_back, Edit.exists_outside_of_apply_eq_error
-/
import TsxLint.Engine.Fix
import TsxLint.Proofs.Edit.Splicing

namespace TsxLint

/-!
Two relations keep edits apart: inside a group no two may overlap, and edits of different groups
may not even touch.  Edits that overlap also touch, so a selection that lets no edit touch those
taken before it ends with edits of which no two overlap.  What is left to go wrong when they are
applied is an edit that ends behind the text.

A group is left out for one reason only: an edit of it touches one of a group that was accepted
before, so of a group that begins no later.
-/

namespace Edit

theorem conflicts_iff (a b : Edit) : a.conflicts b = true ↔ a.start ≤ b.stop ∧ b.start ≤ a.stop := by
  simp [conflicts]

/-- Edits that overlap also touch. -/
theorem conflicts_of_overlaps {a b : Edit} (h : a.overlaps b = true) : a.conflicts b = true := by
  have ha := a.start_le_stop
  have hb := b.start_le_stop
  simp only [overlaps, Bool.or_eq_true, beq_iff_eq, Bool.and_eq_true, decide_eq_true_eq] at h
  apply (conflicts_iff a b).2
  omega

theorem clashes_eq_false_iff {taken group : List Edit} :
    clashes taken group = false ↔ ∀ e ∈ group, ∀ other ∈ taken, e.conflicts other = false := by
  simp [clashes]

/-! ### Edits put together -/

theorem apart_append {edits others : List Edit} :
    Apart (edits ++ others) ↔
      Apart edits ∧ Apart others ∧ ∀ a ∈ edits, ∀ b ∈ others, a.overlaps b = false :=
  List.pairwise_append

/-- A group that does not clash with what is taken can be taken as well. -/
theorem Apart.append_group {taken group : List Edit} (htaken : Apart taken) (hgroup : Apart group)
    (h : clashes taken group = false) : Apart (taken ++ group) := by
  refine apart_append.2 ⟨htaken, hgroup, ?_⟩
  intro a ha b hb
  by_contra hoverlap
  have htouch : b.conflicts a = true := by
    apply conflicts_of_overlaps
    rw [overlaps_comm]
    simpa using hoverlap
  rw [clashes_eq_false_iff.1 h b hb a ha] at htouch
  cases htouch

/-- What is taken and what is accepted later can be applied together. -/
theorem apart_selectFrom {taken : List Edit} {groups : List (List Edit)} (htaken : Apart taken)
    (hgroups : ∀ group ∈ groups, Apart group) :
    Apart (taken ++ (selectFrom taken groups).accepted.flatten) := by
  induction groups generalizing taken with
  | nil => simpa [selectFrom] using htaken
  | cons group rest ih =>
    obtain ⟨hgroup, hrest⟩ := List.forall_mem_cons.1 hgroups
    rw [selectFrom]
    cases hclash : clashes taken group with
    | true => exact ih htaken hrest
    | false =>
      have hmore := ih (htaken.append_group hgroup hclash) hrest
      rw [List.append_assoc] at hmore
      exact hmore

/-! ### Groups accepted together -/

/-- An edit touches itself. -/
theorem conflicts_self (e : Edit) : e.conflicts e = true :=
  (conflicts_iff e e).2 ⟨e.start_le_stop, e.start_le_stop⟩

/-- Groups that are accepted clash neither with what was taken before nor with each other. -/
theorem pairwise_selectFrom (taken : List Edit) (groups : List (List Edit)) :
    (∀ group ∈ (selectFrom taken groups).accepted, clashes taken group = false) ∧
      (selectFrom taken groups).accepted.Pairwise fun a b => clashes a b = false := by
  induction groups generalizing taken with
  | nil => exact ⟨by simp [selectFrom], .nil⟩
  | cons group rest ih =>
    rw [selectFrom]
    cases hclash : clashes taken group with
    | true => exact ih taken
    | false =>
      obtain ⟨hfree, hpairwise⟩ := ih (taken ++ group)
      have hsplit : ∀ later ∈ (selectFrom (taken ++ group) rest).accepted,
          clashes taken later = false ∧ clashes group later = false := by
        intro later hlater
        have hboth := hfree later hlater
        simp only [clashes_eq_false_iff, List.mem_append] at hboth ⊢
        exact ⟨fun e he other hother => hboth e he other (.inl hother),
          fun e he other hother => hboth e he other (.inr hother)⟩
      exact ⟨List.forall_mem_cons.2 ⟨hclash, fun later hlater => (hsplit later hlater).1⟩,
        List.pairwise_cons.2 ⟨fun later hlater => (hsplit later hlater).2, hpairwise⟩⟩

/-- What any two items of a list exclude from each other holds of one of them at most. -/
theorem countP_le_one_of_pairwise {α : Type} {r : α → α → Prop} {p : α → Bool} {xs : List α}
    (h : xs.Pairwise r) (hp : ∀ a b, p a = true → p b = true → ¬ r a b) : xs.countP p ≤ 1 := by
  have hkept := h.filter p
  have hall : ∀ a ∈ xs.filter p, p a = true := fun a ha => (List.mem_filter.1 ha).2
  rw [List.countP_eq_length_filter]
  match hxs : xs.filter p with
  | [] => exact Nat.zero_le 1
  | [_] => exact Nat.le_refl 1
  | a :: b :: rest =>
    rw [hxs] at hkept hall
    exact absurd (List.rel_of_pairwise_cons hkept List.mem_cons_self)
      (hp a b (hall a (by simp)) (hall b (by simp)))

/-- No two groups that hold the same edit are accepted. -/
theorem countP_accepted_le_one (groups : List (List Edit)) (e : Edit) :
    (select groups).accepted.countP (e ∈ ·) ≤ 1 := by
  refine countP_le_one_of_pairwise (pairwise_selectFrom [] groups).2 fun a b ha hb hab => ?_
  have hfree := clashes_eq_false_iff.1 hab e (of_decide_eq_true hb) e (of_decide_eq_true ha)
  rw [conflicts_self] at hfree
  cases hfree

/-! ### Groups left out -/

theorem clashes_eq_true_iff {taken group : List Edit} :
    clashes taken group = true ↔ ∃ e ∈ group, ∃ other ∈ taken, e.conflicts other = true := by
  simp [clashes]

/-- What clashes with edits put together clashes with those of one part. -/
theorem clashes_append {taken more group : List Edit} (h : clashes (taken ++ more) group = true) :
    clashes taken group = true ∨ clashes more group = true := by
  obtain ⟨e, he, other, hother, htouch⟩ := clashes_eq_true_iff.1 h
  rcases List.mem_append.1 hother with htaken | hmore
  · exact .inl (clashes_eq_true_iff.2 ⟨e, he, other, htaken, htouch⟩)
  · exact .inr (clashes_eq_true_iff.2 ⟨e, he, other, hmore, htouch⟩)

/-- A group is accepted, or clashes with what was taken before or with a group accepted ahead of
it. -/
theorem accepted_or_clashes {ahead : List Edit → List Edit → Prop} {taken : List Edit}
    {groups : List (List Edit)} (sorted : groups.Pairwise ahead) {group : List Edit}
    (h : group ∈ groups) :
    group ∈ (selectFrom taken groups).accepted ∨ clashes taken group = true ∨
      ∃ earlier ∈ (selectFrom taken groups).accepted,
        ahead earlier group ∧ clashes earlier group = true := by
  induction groups generalizing taken with
  | nil => cases h
  | cons first rest ih =>
    obtain ⟨hfirst, hrest⟩ := List.pairwise_cons.1 sorted
    rw [selectFrom]
    cases hclash : clashes taken first with
    | true =>
      rcases List.mem_cons.1 h with rfl | hmem
      · exact .inr (.inl hclash)
      · exact ih hrest hmem
    | false =>
      rcases List.mem_cons.1 h with rfl | hmem
      · exact .inl List.mem_cons_self
      · rcases @ih (taken ++ first) hrest hmem with haccepted | hmore | hlater
        · exact .inl (List.mem_cons_of_mem first haccepted)
        · rcases clashes_append hmore with htaken | hnew
          · exact .inr (.inl htaken)
          · exact .inr (.inr ⟨first, List.mem_cons_self, hfirst group hmem, hnew⟩)
        · obtain ⟨earlier, hearlier, hfacts⟩ := hlater
          exact .inr (.inr ⟨earlier, List.mem_cons_of_mem first hearlier, hfacts⟩)

/-! ### Faults of applying -/

theorem outside_of_joined_eq_error {bytes : List UInt8} {edits : List Edit} {cursor : Nat}
    {fault : Fault} (h : joined bytes cursor edits = .error fault) :
    ∃ e ∈ edits, bytes.length < e.stop ∧ fault = .editOutside e.start e.stop bytes.length := by
  induction edits generalizing cursor with
  | nil => cases h
  | cons e rest ih =>
    rw [joined] at h
    by_cases he : bytes.length < e.stop
    · rw [if_pos he] at h
      cases h
      exact ⟨e, List.mem_cons_self, he, rfl⟩
    · rw [if_neg he] at h
      cases hlater : joined bytes e.stop rest with
      | ok tail =>
        rw [hlater] at h
        cases h
      | error later =>
        rw [hlater] at h
        cases h
        obtain ⟨f, hf, hfacts⟩ := ih hlater
        exact ⟨f, List.mem_cons_of_mem e hf, hfacts⟩

/-- Edits that do not overlap clash with the text only, and only if one ends behind it. -/
theorem exists_outside_of_apply_eq_error {text : String} {edits : List Edit} {fault : Fault}
    (apart : Apart edits) (h : apply text edits = .error fault)
    (hkind : fault.kind = "EditConflictError") :
    ∃ e ∈ edits, text.utf8ByteSize < e.stop ∧
      fault = .editOutside e.start e.stop text.utf8ByteSize := by
  rw [← length_bytesOf]
  rw [apply_eq_bind, splice, (findOverlap?_eq_none_iff edits).2 apart] at h
  cases hjoined : joined (bytesOf text) 0 (inOrder edits) with
  | error early =>
    rw [hjoined] at h
    cases h
    obtain ⟨e, he, hfacts⟩ := outside_of_joined_eq_error hjoined
    exact ⟨e, (inOrder_perm edits).mem_iff.1 he, hfacts⟩
  | ok bytes =>
    rw [hjoined] at h
    exact absurd hkind (kind_ne_of_decoded_eq_error h)

end Edit

/-! ### What a pass accepts -/

namespace FixPlan

theorem apart_of_mem_groups {findings : List Finding} {group : List Edit}
    (h : group ∈ (ofFindings findings).groups) : Edit.Apart group := by
  have hmem : group ∈ (findings.filter isUsable).map (·.edits) :=
    (List.mergeSort_perm _ _).mem_iff.1 h
  obtain ⟨f, hf, rfl⟩ := List.mem_map.1 hmem
  have husable := (List.mem_filter.1 hf).2
  simp only [isUsable, Bool.and_eq_true, Option.isNone_iff_eq_none] at husable
  exact (Edit.findOverlap?_eq_none_iff f.edits).1 husable.2

/-- Whatever is found, no two edits that a pass accepts overlap. -/
theorem apart_accepted (findings : List Finding) :
    Edit.Apart (ofFindings findings).accepted.flatten := by
  have hnone : Edit.Apart [] := List.Pairwise.nil
  exact Edit.apart_selectFrom hnone fun _ => apart_of_mem_groups

/-- A pass applies no edit twice. -/
theorem count_accepted_le_one (findings : List Finding) (e : Edit) :
    (ofFindings findings).accepted.flatten.count e ≤ 1 := by
  refine Edit.countP_le_one_of_pairwise (apart_accepted findings) fun a b ha hb hab => ?_
  cases eq_of_beq ha
  cases eq_of_beq hb
  simp [Edit.overlaps] at hab

theorem pairwise_groups (findings : List Finding) :
    (ofFindings findings).groups.Pairwise fun a b => Edit.groupStart a ≤ Edit.groupStart b := by
  unfold ofFindings inOrder
  refine (List.pairwise_mergeSort ?_ ?_ _).imp fun hab => of_decide_eq_true hab
  · intro a b c hab hbc
    simp only [decide_eq_true_eq] at *
    omega
  · intro a b
    simp only [Bool.or_eq_true, decide_eq_true_eq]
    omega

theorem mem_groups {findings : List Finding} {f : Finding} (hf : f ∈ findings)
    (some : f.edits ≠ []) (apart : Edit.Apart f.edits) :
    f.edits ∈ (ofFindings findings).groups := by
  have husable : isUsable f = true := by
    simp [isUsable, Finding.fixable, (Edit.findOverlap?_eq_none_iff f.edits).2 apart, some]
  have hmem : f.edits ∈ (findings.filter isUsable).map (·.edits) :=
    List.mem_map.2 ⟨f, List.mem_filter.2 ⟨hf, husable⟩, rfl⟩
  exact (List.mergeSort_perm _ _).mem_iff.2 hmem

/-- A finding with edits that can be applied together is accepted, or is held back by a group that
is accepted and begins no later. -/
theorem accepted_or_held_back {findings : List Finding} {f : Finding} (hf : f ∈ findings)
    (some : f.edits ≠ []) (apart : Edit.Apart f.edits) :
    f.edits ∈ (ofFindings findings).accepted ∨
      ∃ group ∈ (ofFindings findings).accepted,
        Edit.groupStart group ≤ Edit.groupStart f.edits ∧ Edit.clashes group f.edits = true := by
  have hcases := @Edit.accepted_or_clashes _ [] _ (pairwise_groups findings) _
    (mem_groups hf some apart)
  rcases hcases with haccepted | hnone | hheld
  · exact .inl haccepted
  · simp [Edit.clashes] at hnone
  · exact .inr hheld

end FixPlan

end TsxLint
