/-
Module: TsxLint.Proofs.Source.Slices
Purpose: What is read of a range of a text, by the bytes of the range.
Main exports: Document.slice_eq_ok_iff, Document.exists_slice_eq_ok, Document.slice_of_le
-/
import TsxLint.Proofs.Edit.Boundaries
import TsxLint.Source.Position

namespace TsxLint

/-!
Reading a range of a text is decoding its bytes.  So what is read has the bytes of the range, and
nothing stands in the way of reading as long as the range does not end inside a character.
-/

/-- Ends that are limited by the length of a list take the same part of it. -/
theorem extract_min_length {α : Type} (l : List α) (first last : Nat) :
    l.extract (min first l.length) (min last l.length) = (l.take last).drop first := by
  have hlast : l.take (min last l.length) = l.take last := by
    rw [List.take_eq_take_iff]
    omega
  rw [List.extract_eq_take_drop, ← List.drop_take, hlast, List.drop_eq_drop_iff, List.length_take]
  omega

namespace Document

theorem size_ofText (text : String) : (ofText text).size = text.utf8ByteSize := by
  simp [size, ofText, ofBytes, String.toUTF8_eq_toByteArray]

/-- Reading a range of a text is decoding the bytes of the range. -/
theorem slice_eq_decoded (text : String) (first last : Nat) :
    (ofText text).slice first last = Edit.decoded (((Edit.bytesOf text).take last).drop first) := by
  have hclamp (place : Nat) :
      (ofText text).clampOffset place = min place (Edit.bytesOf text).length := by
    rw [clampOffset, if_neg (by omega), Int.toNat_natCast, size_ofText, Edit.length_bytesOf]
  have hbytes : (ofText text).sliceBytes first last =
      ⟨(((Edit.bytesOf text).take last).drop first).toArray⟩ := by
    rw [sliceBytes, hclamp, hclamp]
    apply ByteArray.ext
    apply Array.toList_inj.1
    rw [ByteArray.data_extract, Array.toList_extract, List.toList_toArray]
    exact extract_min_length _ _ _
  rw [slice, hbytes]
  rfl

/-- What is read of a range has the bytes of the range. -/
theorem slice_eq_ok_iff {text s : String} {first last : Nat} :
    (ofText text).slice first last = .ok s ↔
      ((Edit.bytesOf text).take last).drop first = Edit.bytesOf s := by
  rw [slice_eq_decoded, Edit.decoded_eq_ok_iff]

/-- What lies between two places between characters can be read. -/
theorem exists_slice_eq_ok {text : String} {first last : Nat}
    (hfirst : (String.Pos.Raw.mk first).IsValid text)
    (hlast : (String.Pos.Raw.mk last).IsValid text) :
    ∃ s, (ofText text).slice first last = .ok s := by
  obtain ⟨s, hs⟩ := Edit.exists_bytesOf_eq_drop_take hfirst hlast
  exact ⟨s, slice_eq_ok_iff.2 hs⟩

/-- A range that ends where it begins or before holds nothing. -/
theorem slice_of_le {text : String} {first last : Int} (hlast : 0 ≤ last) (h : last ≤ first) :
    (ofText text).slice first last = .ok "" := by
  have hempty : (ofText text).sliceBytes first last = "".toUTF8 := by
    rw [sliceBytes, clampOffset, clampOffset, if_neg (by omega), if_neg (by omega)]
    apply ByteArray.extract_eq_empty_iff.2
    omega
  rw [slice, hempty, Text.decode_toUTF8]

end Document

end TsxLint
