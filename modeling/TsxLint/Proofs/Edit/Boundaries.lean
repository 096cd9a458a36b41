/-
Module: TsxLint.Proofs.Edit.Boundaries
Purpose: Edits that begin and end between characters can be applied.
Main exports: Edit.IsAligned, Edit.exists_apply_eq_ok
-/
import TsxLint.Proofs.Edit.Splicing

namespace TsxLint.Edit

/-!
Applying edits fails in two ways that are told apart: edits may clash, and the joined bytes may
encode no text.  The second cannot happen if every edit begins and ends between characters,
since what is kept between edits is then text by itself.
-/

/-- An edit begins and ends between characters of a text. -/
def IsAligned (text : String) (e : Edit) : Prop :=
  (String.Pos.Raw.mk e.start).IsValid text ∧ (String.Pos.Raw.mk e.stop).IsValid text

instance (text : String) (e : Edit) : Decidable (e.IsAligned text) :=
  inferInstanceAs (Decidable (_ ∧ _))

theorem bytesOf_append (s t : String) : bytesOf (s ++ t) = bytesOf s ++ bytesOf t := by
  simp [bytesOf, String.toUTF8_eq_toByteArray]

theorem bytesOf_injective : Function.Injective bytesOf := by
  intro s t h
  have hdecoded := decoded_bytesOf s
  rw [h, decoded_bytesOf] at hdecoded
  exact (Except.ok.inj hdecoded).symm

theorem drop_eq_append {α : Type} (l : List α) {first middle : Nat} (h : first ≤ middle) :
    l.drop first = (l.take middle).drop first ++ l.drop middle := by
  rw [List.drop_take, ← Nat.add_sub_cancel' h, ← List.drop_drop, Nat.add_sub_cancel',
    List.take_append_drop]
  omega

theorem take_drop_eq_append {α : Type} (l : List α) {first middle last : Nat} (h : first ≤ middle)
    (hlast : middle ≤ last) :
    (l.take last).drop first = (l.take middle).drop first ++ (l.take last).drop middle := by
  rw [drop_eq_append _ h, List.take_take, Nat.min_eq_left hlast]

/-- What lies between two places between characters is a text. -/
theorem exists_bytesOf_eq_drop_take {text : String} {first last : Nat}
    (hfirst : (String.Pos.Raw.mk first).IsValid text)
    (hlast : (String.Pos.Raw.mk last).IsValid text) :
    ∃ s, ((bytesOf text).take last).drop first = bytesOf s := by
  have hvalid : (text.toByteArray.extract first last).IsValidUTF8 :=
    String.Pos.isValidUTF8_extract (text.pos _ hfirst) (text.pos _ hlast)
  refine ⟨String.ofByteArray _ hvalid, ?_⟩
  simp [bytesOf, String.toUTF8_eq_toByteArray, List.drop_take]

theorem drop_eq_drop_take_utf8ByteSize (text : String) (first : Nat) :
    (bytesOf text).drop first = ((bytesOf text).take text.utf8ByteSize).drop first := by
  rw [← length_bytesOf, List.take_length]

/-- Pieces between places between characters, and replacements, join to a text. -/
theorem exists_bytesOf_eq_pieces {text : String} {edits : List Edit} {cursor : Nat}
    (hcursor : (String.Pos.Raw.mk cursor).IsValid text) (aligned : ∀ e ∈ edits, e.IsAligned text) :
    ∃ s, pieces (bytesOf text) cursor edits = bytesOf s := by
  induction edits generalizing cursor with
  | nil =>
    rw [pieces, drop_eq_drop_take_utf8ByteSize]
    exact exists_bytesOf_eq_drop_take hcursor (String.Pos.Raw.isValid_rawEndPos (s := text))
  | cons e rest ih =>
    obtain ⟨hstart, hstop⟩ := aligned e List.mem_cons_self
    obtain ⟨kept, hkept⟩ := exists_bytesOf_eq_drop_take hcursor hstart
    obtain ⟨later, hlater⟩ := ih hstop fun f hf => aligned f (List.mem_cons_of_mem e hf)
    exact ⟨kept ++ e.text ++ later, by rw [pieces, hkept, hlater, bytesOf_append, bytesOf_append]⟩

theorem IsAligned.stop_le {text : String} {e : Edit} (h : e.IsAligned text) :
    e.stop ≤ text.utf8ByteSize := by
  have := h.2.le_rawEndPos
  exact this

/-- Edits that begin and end between characters, no two of which overlap, can be applied. -/
theorem exists_apply_eq_ok {text : String} {edits : List Edit} (apart : Apart edits)
    (aligned : ∀ e ∈ edits, e.IsAligned text) : ∃ s, apply text edits = .ok s := by
  have hinside : ¬ ReachOutside (bytesOf text).length edits := by
    rintro ⟨e, he, hlt⟩
    rw [length_bytesOf] at hlt
    exact absurd (aligned e he).stop_le (Nat.not_le.2 hlt)
  have hordered : ∀ e ∈ inOrder edits, e.IsAligned text := fun e he =>
    aligned e ((inOrder_perm edits).mem_iff.1 he)
  obtain ⟨s, hs⟩ := exists_bytesOf_eq_pieces (String.Pos.Raw.isValid_zero (s := text)) hordered
  refine ⟨s, ?_⟩
  rw [apply_eq_bind, splice_eq_ok apart hinside]
  exact decoded_eq_ok_iff.2 hs

end TsxLint.Edit
