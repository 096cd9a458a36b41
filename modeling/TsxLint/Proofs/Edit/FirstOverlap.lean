/-
Module: TsxLint.Proofs.Edit.FirstOverlap
Purpose: What the search among neighbouring edits finds: the first overlap in order, if any.
Main exports: Edit.exists_of_firstOverlap?_eq_some, Edit.exists_positions_of_subperm,
  Edit.findOverlap?_complete
-/
import Mathlib.Data.List.NodupEquivFin
import Mathlib.Data.List.Permutation
import TsxLint.Proofs.Edit.Choice

namespace TsxLint.Edit

/-!
Edits are put in order by where they begin and then by where they end, and each is compared with the
next one only.  A long edit may reach far behind the next ones, but then the next one begins inside
it and the two of them overlap already.  So the search misses nothing, and what it finds is a pair
such that the edits up to the first of the two are apart.

An edit may stand in a list more than once, so what is found is told by positions in the list: two
copies of one edit overlap, one edit by itself does not.
-/

theorem firstOverlap?_cons_eq_none {e next : Edit} {rest : List Edit}
    (h : e.overlaps next = false) (hrest : firstOverlap? (next :: rest) = none) :
    firstOverlap? (e :: next :: rest) = none := by
  rw [firstOverlap?_cons_cons, h, if_neg Bool.false_ne_true, hrest]

/-- The pair that is found stands side by side, and up to the first of it no neighbours overlap. -/
theorem exists_of_firstOverlap?_eq_some {edits : List Edit} {a b : Edit}
    (h : firstOverlap? edits = some (a, b)) :
    ∃ before behind, edits = before ++ a :: b :: behind ∧
      firstOverlap? (before ++ [a]) = none ∧ a.overlaps b = true := by
  induction edits with
  | nil => cases h
  | cons e rest ih =>
    cases rest with
    | nil => cases h
    | cons next rest =>
      rw [firstOverlap?_cons_cons] at h
      cases hoverlap : e.overlaps next with
      | true =>
        rw [hoverlap, if_pos rfl] at h
        cases h
        exact ⟨[], rest, rfl, rfl, hoverlap⟩
      | false =>
        rw [hoverlap, if_neg Bool.false_ne_true] at h
        obtain ⟨before, behind, heq, hnone, hab⟩ := ih h
        refine ⟨e :: before, behind, congrArg (e :: ·) heq, ?_, hab⟩
        -- `next` is the first of the edits in front of the pair, or of the pair itself
        cases before with
        | nil =>
          cases heq
          exact firstOverlap?_cons_eq_none hoverlap hnone
        | cons first before =>
          cases heq
          exact firstOverlap?_cons_eq_none hoverlap hnone

/-- Two items of a list, the same one twice if it stands there twice, have different positions. -/
theorem exists_positions_of_subperm {α : Type} {a b : α} {xs : List α} (h : [a, b].Subperm xs) :
    ∃ i j : Nat, i ≠ j ∧ xs[i]? = some a ∧ xs[j]? = some b := by
  obtain ⟨pair, hpair, hsub⟩ := h
  obtain ⟨position, hposition⟩ := List.sublist_iff_exists_orderEmbedding_getElem?_eq.1 hsub
  have hne : position 0 ≠ position 1 := position.injective.ne (by decide)
  have hfirst := hposition 0
  have hsecond := hposition 1
  rcases List.perm_pair.1 hpair with rfl | rfl
  · exact ⟨position 0, position 1, hne, hfirst.symm, hsecond.symm⟩
  · exact ⟨position 1, position 0, hne.symm, hsecond.symm, hfirst.symm⟩

/-- Among edits in order, those in which no neighbours overlap are apart. -/
theorem apart_of_firstOverlap?_eq_none {edits : List Edit}
    (sorted : edits.Pairwise fun a b => a.notAfter b = true) (h : firstOverlap? edits = none) :
    Apart edits :=
  (pairwise_precedes_of_firstOverlap?_eq_none sorted h).imp fun hab => hab.overlaps_eq_false

/-- A search among neighbours in order finds nothing exactly if no two edits at different positions
overlap.  What it finds are two edits at different positions that do, neighbours in order, and the
edits in order up to the first of them are apart.  Edits that overlap also conflict, and both
relations hold either way round. -/
theorem findOverlap?_complete (edits : List Edit) :
    (findOverlap? edits = none ↔
      ∀ (i j : Nat) (a b : Edit), i ≠ j → edits[i]? = some a → edits[j]? = some b →
        a.overlaps b = false) ∧
    (∀ a b, findOverlap? edits = some (a, b) →
      a.overlaps b = true ∧ (∃ i j : Nat, i ≠ j ∧ edits[i]? = some a ∧ edits[j]? = some b) ∧
        ∃ before behind, inOrder edits = before ++ a :: b :: behind ∧ Apart (before ++ [a])) ∧
    (∀ a b : Edit, a.overlaps b = true → a.conflicts b = true) ∧
    (∀ a b : Edit, a.overlaps b = b.overlaps a) ∧
    ∀ a b : Edit, a.conflicts b = b.conflicts a := by
  refine ⟨?_, fun a b h => ?_, fun _ _ => conflicts_of_overlaps, overlaps_comm, conflicts_comm⟩
  · rw [findOverlap?_eq_none_iff, apart_iff_not_overlapSomewhere]
    constructor
    · intro h i j a b hne hi hj
      exact Bool.eq_false_iff.2 fun hab => h ⟨i, j, a, b, hne, hi, hj, hab⟩
    · rintro h ⟨i, j, a, b, hne, hi, hj, hab⟩
      rw [h i j a b hne hi hj] at hab
      cases hab
  · obtain ⟨before, behind, heq, hnone, hab⟩ := exists_of_firstOverlap?_eq_some h
    have hsorted := pairwise_inOrder edits
    refine ⟨hab, exists_positions_of_subperm ?_, before, behind, heq, ?_⟩
    · have hsub : [a, b].Sublist (inOrder edits) := by
        rw [heq]
        exact ((List.nil_sublist behind).cons_cons b |>.cons_cons a).trans
          (List.sublist_append_right before _)
      exact hsub.subperm.trans (inOrder_perm edits).subperm
    · refine apart_of_firstOverlap?_eq_none (hsorted.sublist ?_) hnone
      rw [heq]
      exact ((List.nil_sublist _).cons_cons a).append_left before

/-- An insertion at the beginning of a long edit is found with it, though the edit reaches over two
others as well. -/
example : (findOverlap? [⟨4, 5, "", by decide⟩, ⟨0, 9, "", by decide⟩, ⟨6, 6, "x", by decide⟩,
    ⟨0, 0, "y", by decide⟩]).map (fun p => (p.1.range, p.2.range)) = some ((0, 0), (0, 9)) := by
  cbv

end TsxLint.Edit
