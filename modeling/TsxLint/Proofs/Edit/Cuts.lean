/-
Module: TsxLint.Proofs.Edit.Cuts
Purpose: A text cut into pieces around a range, and what is left when the range goes.
Main exports: Edit.Cut, Edit.exists_cut, Edit.apply_singleton, Edit.exists_apply_singleton,
  Edit.Cut.IsAt.apply_eq_ok
-/
import TsxLint.Proofs.Edit.Boundaries

namespace TsxLint.Edit

/-!
An edit names its range by bytes.  As long as places are between characters, the text falls into
pieces there that are texts by themselves, and what an edit does is said with these: it puts its
text between what is in front of the range and what is behind it.
-/

/-- A text in pieces: something with a margin on both sides, and what is around it. -/
structure Cut where
  front : String
  before : String
  own : String
  behind : String
  rest : String

namespace Cut

/-- The text that is cut. -/
def whole (c : Cut) : String := c.front ++ c.before ++ c.own ++ c.behind ++ c.rest

/-- The pieces of a text at four places. -/
structure IsAt (c : Cut) (text : String) (first start stop last : Nat) : Prop where
  whole_eq : c.whole = text
  first_eq : c.front.utf8ByteSize = first
  start_eq : (c.front ++ c.before).utf8ByteSize = start
  stop_eq : (c.front ++ c.before ++ c.own).utf8ByteSize = stop
  last_eq : (c.front ++ c.before ++ c.own ++ c.behind).utf8ByteSize = last
  before_eq : ((bytesOf text).take start).drop first = bytesOf c.before
  behind_eq : ((bytesOf text).take last).drop stop = bytesOf c.behind

end Cut

section Pieces

variable {text s t : String} {p q : Nat}

theorem bytesOf_append_eq_take (hs : bytesOf s = (bytesOf text).take p)
    (ht : ((bytesOf text).take q).drop p = bytesOf t) (hpq : p ≤ q) :
    bytesOf (s ++ t) = (bytesOf text).take q := by
  have hparts := take_drop_eq_append (bytesOf text) (Nat.zero_le p) hpq
  rw [List.drop_zero, List.drop_zero] at hparts
  rw [bytesOf_append, hs, ← ht, ← hparts]

theorem utf8ByteSize_eq_of_take (hs : bytesOf s = (bytesOf text).take p)
    (hp : (String.Pos.Raw.mk p).IsValid text) : s.utf8ByteSize = p := by
  have hle : p ≤ text.utf8ByteSize := hp.le_rawEndPos
  rw [← length_bytesOf, hs, List.length_take, length_bytesOf, Nat.min_eq_left hle]

end Pieces

/-- A text that is put together in two ways with the same first size has the same parts. -/
theorem append_inj_of_size {s t x y : String} (h : s ++ t = x ++ y)
    (hsize : s.utf8ByteSize = x.utf8ByteSize) : s = x ∧ t = y := by
  have hbytes : bytesOf s ++ bytesOf t = bytesOf x ++ bytesOf y := by
    rw [← bytesOf_append, ← bytesOf_append, h]
  obtain ⟨hs, ht⟩ := List.append_inj hbytes (by rw [length_bytesOf, length_bytesOf, hsize])
  exact ⟨bytesOf_injective hs, bytesOf_injective ht⟩

/-- A text falls into pieces at places between characters. -/
theorem exists_cut {text : String} {first start stop last : Nat}
    (hfirst : (String.Pos.Raw.mk first).IsValid text)
    (hstart : (String.Pos.Raw.mk start).IsValid text)
    (hstop : (String.Pos.Raw.mk stop).IsValid text) (hlast : (String.Pos.Raw.mk last).IsValid text)
    (hbefore : first ≤ start) (hown : start ≤ stop) (hbehind : stop ≤ last) :
    ∃ c : Cut, c.IsAt text first start stop last := by
  obtain ⟨front, hfront⟩ := exists_bytesOf_eq_drop_take String.Pos.Raw.isValid_zero hfirst
  obtain ⟨before, hmargin⟩ := exists_bytesOf_eq_drop_take hfirst hstart
  obtain ⟨own, hinner⟩ := exists_bytesOf_eq_drop_take hstart hstop
  obtain ⟨behind, hmargin'⟩ := exists_bytesOf_eq_drop_take hstop hlast
  obtain ⟨rest, hrest⟩ :=
    exists_bytesOf_eq_drop_take hlast (String.Pos.Raw.isValid_rawEndPos (s := text))
  have htofirst : bytesOf front = (bytesOf text).take first := hfront.symm
  have htostart := bytesOf_append_eq_take htofirst hmargin hbefore
  have htostop := bytesOf_append_eq_take htostart hinner hown
  have htolast := bytesOf_append_eq_take htostop hmargin' hbehind
  refine ⟨⟨front, before, own, behind, rest⟩, ?_, utf8ByteSize_eq_of_take htofirst hfirst,
    utf8ByteSize_eq_of_take htostart hstart, utf8ByteSize_eq_of_take htostop hstop,
    utf8ByteSize_eq_of_take htolast hlast, hmargin, hmargin'⟩
  apply bytesOf_injective
  have hwhole := bytesOf_append_eq_take htolast hrest hlast.le_rawEndPos
  rw [Cut.whole, hwhole]
  exact List.take_of_length_le (Nat.le_of_eq (length_bytesOf text))

/-- An edit of a text in three pieces replaces the one in the middle. -/
theorem apply_singleton {front middle rest : String} {e : Edit}
    (hstart : e.start = front.utf8ByteSize) (hstop : e.stop = (front ++ middle).utf8ByteSize) :
    apply (front ++ middle ++ rest) [e] = .ok (front ++ e.text ++ rest) := by
  have hbytes : bytesOf (front ++ middle ++ rest) =
      bytesOf front ++ bytesOf middle ++ bytesOf rest := by
    rw [bytesOf_append, bytesOf_append]
  have hfront : (bytesOf (front ++ middle ++ rest)).take e.start = bytesOf front := by
    rw [hbytes, hstart, ← length_bytesOf, List.append_assoc, List.take_left]
  have hrest : (bytesOf (front ++ middle ++ rest)).drop e.stop = bytesOf rest := by
    rw [hbytes, hstop, ← length_bytesOf, bytesOf_append, List.drop_left]
  have hinside : ¬ ReachOutside (bytesOf (front ++ middle ++ rest)).length [e] := by
    rintro ⟨f, hf, hlt⟩
    rw [List.mem_singleton.1 hf, hstop, bytesOf_append, List.length_append, length_bytesOf] at hlt
    omega
  rw [apply_eq_bind, splice_eq_ok (List.pairwise_singleton _ _) hinside]
  apply decoded_eq_ok_iff.2
  rw [inOrder, List.mergeSort_singleton, pieces, pieces, hfront, hrest, List.drop_zero,
    bytesOf_append, bytesOf_append]

/-- An edit between places between characters can be applied by itself, and makes up for the bytes
that it takes away with those of its text. -/
theorem exists_apply_singleton {text : String} {e : Edit} (h : e.IsAligned text) :
    ∃ s, apply text [e] = .ok s ∧
      s.utf8ByteSize + (e.stop - e.start) = text.utf8ByteSize + e.text.utf8ByteSize := by
  obtain ⟨c, hc⟩ := exists_cut h.1 h.1 h.2 h.2 (Nat.le_refl _) e.start_le_stop (Nat.le_refl _)
  have hpieces : text = c.front ++ (c.before ++ c.own ++ c.behind) ++ c.rest := by
    rw [← hc.whole_eq, Cut.whole]
    simp only [String.append_assoc]
  have hstop : e.stop = (c.front ++ (c.before ++ c.own ++ c.behind)).utf8ByteSize := by
    rw [← hc.last_eq]
    simp only [String.append_assoc]
  refine ⟨c.front ++ e.text ++ c.rest, ?_, ?_⟩
  · rw [hpieces]
    exact apply_singleton hc.first_eq.symm hstop
  · have hsize := congrArg String.utf8ByteSize hpieces
    have hfront := hc.first_eq
    have hle := e.start_le_stop
    simp only [String.utf8ByteSize_append] at hsize hstop ⊢
    omega

/-! ### The margins -/

namespace Cut

variable {text : String} {c : Cut} {first start stop last : Nat}

theorem IsAt.before_eq_empty (h : c.IsAt text first start stop last) (heq : first = start) :
    c.before = "" := by
  have hsize := h.start_eq
  rw [String.utf8ByteSize_append, h.first_eq, heq] at hsize
  exact String.utf8ByteSize_eq_zero_iff.1 (by omega)

theorem IsAt.behind_eq_empty (h : c.IsAt text first start stop last) (heq : stop = last) :
    c.behind = "" := by
  have hsize := h.last_eq
  rw [String.utf8ByteSize_append, h.stop_eq, heq] at hsize
  exact String.utf8ByteSize_eq_zero_iff.1 (by omega)

end Cut

/-- Taking out the middle of a text with its margins leaves what is around them. -/
theorem Cut.IsAt.apply_eq_ok {text : String} {c : Cut} {first start stop last : Nat} {e : Edit}
    (h : c.IsAt text first start stop last) (hfirst : e.start = first) (hlast : e.stop = last)
    (htext : e.text = "") : apply text [e] = .ok (c.front ++ c.rest) := by
  have hpieces : text = c.front ++ (c.before ++ c.own ++ c.behind) ++ c.rest := by
    rw [← h.whole_eq, Cut.whole]
    simp only [String.append_assoc]
  have hstop : e.stop = (c.front ++ (c.before ++ c.own ++ c.behind)).utf8ByteSize := by
    rw [hlast, ← h.last_eq]
    simp only [String.append_assoc]
  rw [hpieces, apply_singleton (hfirst.trans h.first_eq.symm) hstop, htext, String.append_empty]

end TsxLint.Edit
