/-
Module: TsxLint.Proofs.Edit.Choice
Purpose: What a choice among groups of edits is: the one that takes what it can, from the front.
Main exports: Edit.IsGreedyChoice, Edit.chosen_iff, Edit.select_greedy
-/
import TsxLint.Proofs.Edit.Acceptance

namespace TsxLint

namespace Edit

/-!
Groups of edits are decided on one after another, for or against.  Two conditions fix all the
decisions: groups that are decided for do not touch each other, and a group that is decided against
touches one in front of it that was decided for.  The first says that what is accepted can stay
together, and the second that nothing is put off without need.

What was taken before the first group matters to all of them.  So the conditions are stated over
edits that are taken already, and a decision for a group adds its edits to these.
-/

theorem conflicts_comm (a b : Edit) : a.conflicts b = b.conflicts a := by
  rw [conflicts, conflicts, Bool.and_comm]

theorem clashes_append_eq (taken more group : List Edit) :
    clashes (taken ++ more) group = (clashes taken group || clashes more group) := by
  rw [Bool.eq_iff_iff, Bool.or_eq_true]
  constructor
  · exact clashes_append
  · simp only [clashes_eq_true_iff, List.mem_append]
    rintro (⟨e, he, other, hother, htouch⟩ | ⟨e, he, other, hother, htouch⟩)
    · exact ⟨e, he, other, .inl hother, htouch⟩
    · exact ⟨e, he, other, .inr hother, htouch⟩

/-- The decisions on groups, each for or against, when some edits are taken already. -/
def decisions (taken : List Edit) : List (List Edit) → List (List Edit × Bool)
  | [] => []
  | group :: rest =>
    if clashes taken group then (group, false) :: decisions taken rest
    else (group, true) :: decisions (taken ++ group) rest

theorem map_fst_decisions (taken : List Edit) (groups : List (List Edit)) :
    (decisions taken groups).map Prod.fst = groups := by
  induction groups generalizing taken with
  | nil => rfl
  | cons group rest ih =>
    rw [decisions]
    split <;> rw [List.map_cons, ih]

/-- What is decided for is accepted, and what is decided against put off. -/
theorem selectFrom_eq (taken : List Edit) (groups : List (List Edit)) :
    selectFrom taken groups =
      ⟨((decisions taken groups).filter (·.2)).map Prod.fst,
        ((decisions taken groups).filter (!·.2)).map Prod.fst⟩ := by
  induction groups generalizing taken with
  | nil => rfl
  | cons group rest ih =>
    rw [selectFrom, decisions]
    split <;> simp [ih]

/-! ### What fixes the decisions -/

/-- Decisions on groups when some edits are taken: what is decided for touches neither these nor
each other, and what is decided against touches these or something that was decided for before. -/
structure Chosen (taken : List Edit) (decided : List (List Edit × Bool)) : Prop where
  free : ∀ group, (group, true) ∈ decided → clashes taken group = false
  apart : decided.Pairwise fun a b => a.2 = true → b.2 = true → clashes a.1 b.1 = false
  held : ∀ before group behind, decided = before ++ (group, false) :: behind →
    clashes taken group = true ∨ ∃ earlier, (earlier, true) ∈ before ∧ clashes earlier group = true

theorem chosen_nil (taken : List Edit) : Chosen taken [] :=
  ⟨fun _ h => (nomatch h), .nil, fun before _ _ h => by cases before <;> cases h⟩

/-- Deciding against a group changes nothing for the others. -/
theorem chosen_cons_false_iff {taken group : List Edit} {rest : List (List Edit × Bool)} :
    Chosen taken ((group, false) :: rest) ↔ clashes taken group = true ∧ Chosen taken rest := by
  constructor
  · rintro ⟨hfree, hapart, hheld⟩
    refine ⟨?_, fun g hg => hfree g (.tail _ hg), hapart.of_cons, ?_⟩
    · rcases hheld [] group rest rfl with hclash | ⟨earlier, hearlier, -⟩
      · exact hclash
      · cases hearlier
    · rintro before g behind rfl
      rcases hheld ((group, false) :: before) g behind rfl with hclash | ⟨earlier, hearlier, htouch⟩
      · exact .inl hclash
      · rcases List.mem_cons.1 hearlier with heq | hmem
        · cases heq
        · exact .inr ⟨earlier, hmem, htouch⟩
  · rintro ⟨hclash, hfree, hapart, hheld⟩
    refine ⟨?_, List.pairwise_cons.2 ⟨fun _ _ h => (nomatch h), hapart⟩, ?_⟩
    · intro g hg
      rcases List.mem_cons.1 hg with heq | hmem
      · cases heq
      · exact hfree g hmem
    · intro before g behind heq
      cases before with
      | nil =>
        cases heq
        exact .inl hclash
      | cons x before =>
        obtain ⟨rfl, hrest⟩ := List.cons.inj heq
        rcases hheld before g behind hrest with htaken | ⟨earlier, hearlier, htouch⟩
        · exact .inl htaken
        · exact .inr ⟨earlier, .tail _ hearlier, htouch⟩

/-- Deciding for a group takes its edits. -/
theorem chosen_cons_true_iff {taken group : List Edit} {rest : List (List Edit × Bool)} :
    Chosen taken ((group, true) :: rest) ↔
      clashes taken group = false ∧ Chosen (taken ++ group) rest := by
  constructor
  · rintro ⟨hfree, hapart, hheld⟩
    obtain ⟨hgroup, hrest⟩ := List.pairwise_cons.1 hapart
    refine ⟨hfree group List.mem_cons_self, ?_, hrest, ?_⟩
    · intro g hg
      rw [clashes_append_eq, hfree g (.tail _ hg), hgroup (g, true) hg rfl rfl]
      rfl
    · rintro before g behind rfl
      rw [clashes_append_eq, Bool.or_eq_true]
      rcases hheld ((group, true) :: before) g behind rfl with hclash | ⟨earlier, hearlier, htouch⟩
      · exact .inl (.inl hclash)
      · rcases List.mem_cons.1 hearlier with heq | hmem
        · cases heq
          exact .inl (.inr htouch)
        · exact .inr ⟨earlier, hmem, htouch⟩
  · rintro ⟨hclash, hfree, hapart, hheld⟩
    have hboth : ∀ g, (g, true) ∈ rest → clashes taken g = false ∧ clashes group g = false := by
      intro g hg
      have hg := hfree g hg
      rwa [clashes_append_eq, Bool.or_eq_false_iff] at hg
    refine ⟨?_, List.pairwise_cons.2 ⟨?_, hapart⟩, ?_⟩
    · intro g hg
      rcases List.mem_cons.1 hg with heq | hmem
      · cases heq
        exact hclash
      · exact (hboth g hmem).1
    · rintro ⟨g, flag⟩ hg - rfl
      exact (hboth g hg).2
    · intro before g behind heq
      cases before with
      | nil => cases heq
      | cons x before =>
        obtain ⟨rfl, hrest⟩ := List.cons.inj heq
        rcases hheld before g behind hrest with hnew | ⟨earlier, hearlier, htouch⟩
        · rcases clashes_append hnew with htaken | hgroup
          · exact .inl htaken
          · exact .inr ⟨group, List.mem_cons_self, hgroup⟩
        · exact .inr ⟨earlier, .tail _ hearlier, htouch⟩

/-- The conditions fix the decisions. -/
theorem chosen_iff (taken : List Edit) (decided : List (List Edit × Bool)) :
    Chosen taken decided ↔ decided = decisions taken (decided.map Prod.fst) := by
  induction decided generalizing taken with
  | nil => exact iff_of_true (chosen_nil taken) rfl
  | cons decision rest ih =>
    obtain ⟨group, flag⟩ := decision
    rw [List.map_cons, decisions]
    cases flag with
    | false =>
      rw [chosen_cons_false_iff, ih]
      cases clashes taken group <;> simp
    | true =>
      rw [chosen_cons_true_iff, ih]
      cases clashes taken group <;> simp

/-! ### The choice -/

/-- A selection is what decisions on all groups come to, of which each is either accepted or put off
as a whole.  No edit of an accepted group touches one of another accepted group, and every group
that is put off has an edit that touches one of an accepted group in front of it. -/
structure IsGreedyChoice (groups : List (List Edit)) (s : Selection)
    (decided : List (List Edit × Bool)) : Prop where
  groups : decided.map Prod.fst = groups
  accepted : s.accepted = (decided.filter (·.2)).map Prod.fst
  deferred : s.deferred = (decided.filter (!·.2)).map Prod.fst
  apart : s.accepted.Pairwise fun a b => ∀ e ∈ a, ∀ other ∈ b, e.conflicts other = false
  held : ∀ before group behind, decided = before ++ (group, false) :: behind →
    ∃ earlier, (earlier, true) ∈ before ∧ ∃ e ∈ group, ∃ other ∈ earlier, e.conflicts other = true

theorem pairwise_accepted_iff (decided : List (List Edit × Bool)) :
    (((decided.filter (·.2)).map Prod.fst).Pairwise fun a b =>
        ∀ e ∈ a, ∀ other ∈ b, e.conflicts other = false) ↔
      decided.Pairwise fun a b => a.2 = true → b.2 = true → clashes a.1 b.1 = false := by
  have hclashes : ∀ a b : List Edit, (∀ e ∈ a, ∀ other ∈ b, e.conflicts other = false) ↔
      clashes a b = false := by
    intro a b
    rw [clashes_eq_false_iff]
    constructor
    · intro h e he other hother
      rw [conflicts_comm]
      exact h other hother e he
    · intro h e he other hother
      rw [conflicts_comm]
      exact h other hother e he
  rw [List.pairwise_map, List.pairwise_filter]
  refine List.Pairwise.iff ?_
  intro a b
  rw [hclashes]

theorem isGreedyChoice_iff {groups : List (List Edit)} {s : Selection}
    {decided : List (List Edit × Bool)} :
    IsGreedyChoice groups s decided ↔ decided.map Prod.fst = groups ∧
      s = ⟨(decided.filter (·.2)).map Prod.fst, (decided.filter (!·.2)).map Prod.fst⟩ ∧
      Chosen [] decided := by
  have hnone : ∀ group, clashes [] group = false := fun group => by simp [clashes]
  constructor
  · rintro ⟨hgroups, haccepted, hdeferred, hapart, hheld⟩
    rw [haccepted, pairwise_accepted_iff] at hapart
    refine ⟨hgroups, ?_, fun group _ => hnone group, hapart, ?_⟩
    · cases s
      cases haccepted
      cases hdeferred
      rfl
    · intro before group behind heq
      obtain ⟨earlier, hearlier, htouch⟩ := hheld before group behind heq
      exact .inr ⟨earlier, hearlier, clashes_eq_true_iff.2 htouch⟩
  · rintro ⟨hgroups, rfl, -, hapart, hheld⟩
    refine ⟨hgroups, rfl, rfl, (pairwise_accepted_iff decided).2 hapart, ?_⟩
    intro before group behind heq
    rcases hheld before group behind heq with hclash | ⟨earlier, hearlier, htouch⟩
    · rw [hnone] at hclash
      cases hclash
    · exact ⟨earlier, hearlier, clashes_eq_true_iff.1 htouch⟩

/-- The groups that are accepted and those that are put off are all groups, each whole and in the
order given; the accepted ones do not touch each other, and each of the others touches an accepted
one in front of it.  No other selection is like this.  The first group is always accepted, so
something is accepted if there is anything. -/
theorem select_greedy (groups : List (List Edit)) :
    (∃ decided, IsGreedyChoice groups (select groups) decided) ∧
    (∀ s decided, IsGreedyChoice groups s decided → s = select groups) ∧
    (select groups).accepted.head? = groups.head? := by
  refine ⟨⟨decisions [] groups, isGreedyChoice_iff.2 ⟨?_, ?_, ?_⟩⟩, ?_, ?_⟩
  · exact map_fst_decisions [] groups
  · exact selectFrom_eq [] groups
  · rw [chosen_iff, map_fst_decisions]
  · intro s decided h
    obtain ⟨hgroups, hs, hchosen⟩ := isGreedyChoice_iff.1 h
    rw [chosen_iff, hgroups] at hchosen
    rw [hs, hchosen]
    exact (selectFrom_eq [] groups).symm
  · cases groups with
    | nil => rfl
    | cons group rest =>
      have hfree : clashes [] group = false := by simp [clashes]
      rw [select, selectFrom, if_neg (by rw [hfree]; exact Bool.false_ne_true)]
      rfl

end Edit

end TsxLint
