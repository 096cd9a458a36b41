/-
Module: TsxLint.Proofs.Edit.Overlap
Purpose: Edits that do not overlap, seen as edits that come one after the other.
Main exports: Edit.Precedes, Edit.Apart, Edit.findOverlap?_eq_none_iff,
  Edit.eq_inOrder_of_perm
-/
import TsxLint.Edit.Basic
import Mathlib.Data.List.Basic

namespace TsxLint.Edit

/-!
Two edits that do not overlap have an order: one of them ends before the other
begins.  The order is transitive, so among edits in order it is enough to compare
neighbours, and that is why the search for an overlap may look at neighbours only.
-/

/-- The first edit ends before the second begins, and they begin at different
places. -/
def Precedes (a b : Edit) : Prop := a.start < b.start ∧ a.stop ≤ b.start

/-- No two edits of a list overlap, whatever their positions. -/
def Apart (edits : List Edit) : Prop := edits.Pairwise fun a b => a.overlaps b = false

instance (edits : List Edit) : Decidable (Apart edits) :=
  inferInstanceAs (Decidable (edits.Pairwise _))

/-- An edit that is built has the range and the text it is built from. -/
theorem between_eq_ok_iff {start stop : Int} {text : String} {e : Edit} :
    between start stop text = .ok e ↔
      (e.start : Int) = start ∧ (e.stop : Int) = stop ∧ e.text = text := by
  obtain ⟨first, last, replacement, hrange⟩ := e
  by_cases h : 0 ≤ start ∧ start ≤ stop
  · rw [between, dif_pos h]
    rw [Except.ok.injEq, Edit.mk.injEq, eq_comm (a := text), ← and_assoc, ← and_assoc]
    refine and_congr_left fun _ => ?_
    change start.toNat = first ∧ stop.toNat = last ↔ (first : Int) = start ∧ (last : Int) = stop
    omega
  · rw [between, dif_neg h]
    constructor
    · intro hfault
      cases hfault
    · rintro ⟨rfl, rfl, -⟩
      exact absurd ⟨Int.natCast_nonneg first, Int.ofNat_le.2 hrange⟩ h

theorem Precedes.trans {a b c : Edit} (hab : a.Precedes b) (hbc : b.Precedes c) :
    a.Precedes c := by
  have hb := b.start_le_stop
  obtain ⟨h₁, h₂⟩ := hab
  obtain ⟨h₃, h₄⟩ := hbc
  constructor <;> omega

theorem overlaps_comm (a b : Edit) : a.overlaps b = b.overlaps a := by
  simp only [overlaps, Bool.and_comm, BEq.comm]

/-- Edits do not overlap exactly if one of them precedes the other. -/
theorem overlaps_eq_false_iff (a b : Edit) :
    a.overlaps b = false ↔ a.Precedes b ∨ b.Precedes a := by
  have ha := a.start_le_stop
  have hb := b.start_le_stop
  simp only [overlaps, Precedes, Bool.or_eq_false_iff, Bool.and_eq_false_iff, beq_eq_false_iff_ne,
    decide_eq_false_iff_not, ne_eq]
  omega

theorem Precedes.overlaps_eq_false {a b : Edit} (h : a.Precedes b) : a.overlaps b = false :=
  (overlaps_eq_false_iff a b).2 (.inl h)

/-! ### Edits in order -/

theorem notAfter_iff (a b : Edit) :
    a.notAfter b = true ↔ a.start < b.start ∨ (a.start = b.start ∧ a.stop ≤ b.stop) := by
  simp [notAfter]

theorem notAfter_trans (a b c : Edit) (hab : a.notAfter b = true) (hbc : b.notAfter c = true) :
    a.notAfter c = true := by
  rw [notAfter_iff] at *
  omega

theorem notAfter_total (a b : Edit) : (a.notAfter b || b.notAfter a) = true := by
  rw [Bool.or_eq_true, notAfter_iff, notAfter_iff]
  omega

theorem inOrder_perm (edits : List Edit) : (inOrder edits).Perm edits :=
  List.mergeSort_perm edits notAfter

theorem pairwise_inOrder (edits : List Edit) :
    (inOrder edits).Pairwise fun a b => a.notAfter b = true :=
  List.pairwise_mergeSort notAfter_trans notAfter_total edits

/-- Among edits in order, one that does not overlap a later one precedes it. -/
theorem precedes_of_notAfter {a b : Edit} (h : a.notAfter b = true)
    (apart : a.overlaps b = false) : a.Precedes b := by
  rcases (overlaps_eq_false_iff a b).1 apart with before | behind
  · exact before
  · obtain ⟨h₁, h₂⟩ := behind
    rw [notAfter_iff] at h
    omega

/-! ### Neighbours -/

theorem firstOverlap?_cons_cons (a b : Edit) (rest : List Edit) :
    firstOverlap? (a :: b :: rest) =
      if a.overlaps b then some (a, b) else firstOverlap? (b :: rest) := rfl

/-- If no neighbours of a list in order overlap, each edit precedes all later ones. -/
theorem pairwise_precedes_of_firstOverlap?_eq_none {edits : List Edit}
    (sorted : edits.Pairwise fun a b => a.notAfter b = true)
    (h : firstOverlap? edits = none) : edits.Pairwise Precedes := by
  induction edits with
  | nil => exact .nil
  | cons a rest ih =>
    cases rest with
    | nil => exact List.pairwise_singleton _ _
    | cons b rest =>
      rw [firstOverlap?_cons_cons] at h
      cases hne : a.overlaps b with
      | true => simp [hne] at h
      | false =>
        -- neighbours are in order, and preceding carries over to all later edits
        have hab : a.Precedes b :=
          precedes_of_notAfter (List.rel_of_pairwise_cons sorted List.mem_cons_self) hne
        have later : (b :: rest).Pairwise Precedes := ih sorted.of_cons (by simpa [hne] using h)
        refine List.pairwise_cons.2 ⟨fun c hc => ?_, later⟩
        rcases List.mem_cons.1 hc with rfl | hc
        · exact hab
        · exact hab.trans (List.rel_of_pairwise_cons later hc)

theorem firstOverlap?_eq_none_of_pairwise {edits : List Edit} (h : edits.Pairwise Precedes) :
    firstOverlap? edits = none := by
  induction edits with
  | nil => rfl
  | cons a rest ih =>
    cases rest with
    | nil => rfl
    | cons b rest =>
      have hab : a.Precedes b := List.rel_of_pairwise_cons h List.mem_cons_self
      rw [firstOverlap?_cons_cons, hab.overlaps_eq_false]
      exact ih h.of_cons

/-- Not overlapping does not depend on the order of a list. -/
theorem Apart.perm {edits others : List Edit} (h : Apart edits) (perm : edits.Perm others) :
    Apart others :=
  (perm.pairwise_iff fun {a b} hab => by rw [overlaps_comm]; exact hab).1 h

theorem pairwise_precedes_inOrder {edits : List Edit} (h : Apart edits) :
    (inOrder edits).Pairwise Precedes := by
  have apart : Apart (inOrder edits) := h.perm (inOrder_perm edits).symm
  exact ((pairwise_inOrder edits).and apart).imp fun h => precedes_of_notAfter h.1 h.2

/-- The search among neighbours finds nothing exactly if no two edits overlap at all. -/
theorem findOverlap?_eq_none_iff (edits : List Edit) : findOverlap? edits = none ↔ Apart edits := by
  constructor
  · intro h
    have ordered : (inOrder edits).Pairwise Precedes :=
      pairwise_precedes_of_firstOverlap?_eq_none (pairwise_inOrder edits) h
    exact Apart.perm (ordered.imp fun hab => hab.overlaps_eq_false) (inOrder_perm edits)
  · intro h
    exact firstOverlap?_eq_none_of_pairwise (pairwise_precedes_inOrder h)

/-! ### Rearrangements -/

/-- Edits that precede each other have one order only. -/
theorem eq_inOrder_of_perm {edits ordered : List Edit} (perm : ordered.Perm edits)
    (h : ordered.Pairwise Precedes) : ordered = inOrder edits := by
  have apart : Apart edits := Apart.perm (h.imp fun hab => hab.overlaps_eq_false) perm
  refine List.Perm.eq_of_pairwise (fun a b _ _ hab hba => ?_) h (pairwise_precedes_inOrder apart)
    (perm.trans (inOrder_perm edits).symm)
  obtain ⟨h₁, -⟩ := hab
  obtain ⟨h₂, -⟩ := hba
  omega

/-- The range of an edit. -/
def range (e : Edit) : Nat × Nat := (e.start, e.stop)

/-- In order, the ranges of two arrangements of the same edits agree place by place, even if
edits with equal ranges differ in their texts. -/
theorem ranges_inOrder_eq_of_perm {edits others : List Edit} (perm : edits.Perm others) :
    (inOrder edits).map range = (inOrder others).map range := by
  let before : Nat × Nat → Nat × Nat → Prop :=
    fun r s => r.1 < s.1 ∨ (r.1 = s.1 ∧ r.2 ≤ s.2)
  have sorted (es : List Edit) : ((inOrder es).map range).Pairwise before :=
    List.pairwise_map.2 ((pairwise_inOrder es).imp fun h => (notAfter_iff _ _).1 h)
  refine List.Perm.eq_of_pairwise (fun r s _ _ hrs hsr => ?_) (sorted edits) (sorted others) ?_
  · simp only [before] at hrs hsr
    exact Prod.ext (by omega) (by omega)
  · exact (((inOrder_perm edits).trans perm).trans (inOrder_perm others).symm).map range

theorem overlaps_congr {a b c d : Edit} (hac : a.range = c.range) (hbd : b.range = d.range) :
    a.overlaps b = c.overlaps d := by
  simp only [range, Prod.mk.injEq] at hac hbd
  simp only [overlaps, hac, hbd]

/-- Which neighbours overlap first is told by the ranges alone. -/
theorem firstOverlap?_ranges_eq {edits others : List Edit}
    (h : edits.map range = others.map range) :
    (firstOverlap? edits).map (fun p => (p.1.range, p.2.range)) =
      (firstOverlap? others).map fun p => (p.1.range, p.2.range) := by
  induction edits generalizing others with
  | nil => simp_all [firstOverlap?]
  | cons a rest ih =>
    obtain ⟨c, others, rfl, hac, hrest⟩ := List.map_eq_cons_iff.1 h.symm
    cases rest with
    | nil => simp_all [firstOverlap?]
    | cons b rest =>
      obtain ⟨d, others, rfl, hbd, htail⟩ := List.map_eq_cons_iff.1 hrest
      rw [firstOverlap?_cons_cons, firstOverlap?_cons_cons, overlaps_congr hac.symm hbd.symm]
      cases c.overlaps d with
      | true => simp [hac, hbd]
      | false => exact ih hrest.symm

end TsxLint.Edit
