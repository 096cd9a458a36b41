/-
Module: TsxLint.Proofs.Edit.Places
Purpose: Where the parts of a text are after edits, and edits that change white space only.
Main exports: Edit.inFrontOf, Edit.exists_around, Text.withoutBlanks,
  Edit.withoutBlanks_of_apply_eq_ok
-/
import Mathlib.Data.List.Pairwise
import TsxLint.Proofs.Edit.Boundaries
import TsxLint.Proofs.Edit.Choice
import TsxLint.Text.Blank

namespace TsxLint

/-!
A place of a text that no edit reaches over parts the edits in two: those that end in front of it,
and the others.  The text that comes out is then what the first ones make of the part in front of
the place, followed by what the others make of the rest.  So the place is found again in the text
that comes out: it is where the first of the two parts ends.

If each edit puts white space in the place of white space, the other characters stay as they are, in
their order.
-/

namespace Edit

variable {bytes : List UInt8} {edits : List Edit} {e : Edit}

/-- What edits make of the part of a text in front of a place. -/
def inFrontOf (bytes : List UInt8) (edits : List Edit) (place : Nat) : Outcome (List UInt8) :=
  splice (bytes.take place) (edits.filter fun e => e.stop ≤ place)

/-! ### The parts on both sides of a place -/

/-- What is in front of all edits is kept. -/
theorem pieces_of_le_start {place cursor : Nat} (hcursor : cursor ≤ place)
    (behind : ∀ e ∈ edits, place ≤ e.start) :
    pieces bytes cursor edits = (bytes.take place).drop cursor ++ pieces bytes place edits := by
  cases edits with
  | nil => exact drop_eq_append bytes hcursor
  | cons e rest =>
    rw [pieces, pieces, take_drop_eq_append bytes hcursor (behind e List.mem_cons_self)]
    simp only [List.append_assoc]

/-- A place that no edit reaches over parts what comes out into what the edits in front of it make
of the text in front of it, and what the others make of the rest. -/
theorem pieces_eq_append {place cursor : Nat} (ordered : edits.Pairwise Precedes)
    (hcursor : cursor ≤ place) (parts : ∀ e ∈ edits, e.stop ≤ place ∨ place ≤ e.start) :
    pieces bytes cursor edits =
      pieces (bytes.take place) cursor (edits.filter fun e => e.stop ≤ place) ++
        pieces bytes place (edits.filter fun e => !decide (e.stop ≤ place)) := by
  induction edits generalizing cursor with
  | nil => exact drop_eq_append bytes hcursor
  | cons e rest ih =>
    by_cases he : e.stop ≤ place
    · have hstart := e.start_le_stop
      rw [List.filter_cons_of_pos (by simpa using he), List.filter_cons_of_neg (by simpa using he),
        pieces, pieces, ih ordered.of_cons he fun f hf => parts f (List.mem_cons_of_mem e hf),
        List.take_take, Nat.min_eq_left (by omega)]
      simp only [List.append_assoc]
    · -- the edits behind this one begin behind the place as well
      have hbehind : ∀ f ∈ e :: rest, place ≤ f.start ∧ ¬ f.stop ≤ place := by
        have hstart := (parts e List.mem_cons_self).resolve_left he
        intro f hf
        rcases List.mem_cons.1 hf with rfl | hf
        · exact ⟨hstart, he⟩
        · have hf := (List.rel_of_pairwise_cons ordered hf).2
          have := f.start_le_stop
          omega
      rw [List.filter_eq_nil_iff.2 fun f hf => by simpa using (hbehind f hf).2,
        List.filter_eq_self.2 fun f hf => by simpa using (hbehind f hf).2]
      exact pieces_of_le_start hcursor fun f hf => (hbehind f hf).1

/-! ### Edits in order -/

theorem inOrder_filter (apart : Apart edits) (keep : Edit → Bool) :
    inOrder (edits.filter keep) = (inOrder edits).filter keep :=
  (eq_inOrder_of_perm ((inOrder_perm edits).filter keep)
    ((pairwise_precedes_inOrder apart).filter keep)).symm

theorem inFrontOf_eq_ok (apart : Apart edits) (inside : ∀ e ∈ edits, e.stop ≤ bytes.length)
    (place : Nat) :
    inFrontOf bytes edits place =
      .ok (pieces (bytes.take place) 0 ((inOrder edits).filter fun e => e.stop ≤ place)) := by
  rw [inFrontOf, splice_eq_ok, inOrder_filter apart]
  · exact apart.filter _
  · rintro ⟨e, he, hlt⟩
    obtain ⟨he, hplace⟩ := List.mem_filter.1 he
    have hplace := of_decide_eq_true hplace
    have hlength := inside e he
    rw [List.length_take] at hlt
    omega

/-- Edits none of which touches another. -/
def Untouched (edits : List Edit) : Prop := edits.Pairwise fun a b => a.conflicts b = false

namespace Untouched

theorem apart (h : Untouched edits) : Apart edits := by
  refine h.imp fun {a b} hab => ?_
  by_contra hoverlap
  rw [conflicts_of_overlaps (eq_true_of_ne_false hoverlap)] at hab
  cases hab

/-- Of two edits one ends before the other begins, or they are the same. -/
theorem eq_or_lt (h : Untouched edits) {f : Edit} (hf : f ∈ edits) (he : e ∈ edits) :
    f = e ∨ f.stop < e.start ∨ e.stop < f.start := by
  have hsymm : Std.Symm fun a b : Edit => a.conflicts b = false :=
    ⟨fun a b hab => by rwa [conflicts_comm]⟩
  by_cases heq : f = e
  · exact .inl heq
  · have hconflict := h.forall hf he heq
    rw [Bool.eq_false_iff, Ne, conflicts_iff] at hconflict
    omega

/-- Put in order, each edit ends before the next one begins, with something between them. -/
theorem inOrder (h : Untouched edits) :
    (Edit.inOrder edits).Pairwise fun a b => a.stop < b.start := by
  have huntouched : (Edit.inOrder edits).Pairwise fun a b => a.conflicts b = false := by
    refine ((inOrder_perm edits).pairwise_iff fun {a b} hab => ?_).2 h
    rw [conflicts_comm]
    exact hab
  refine ((pairwise_precedes_inOrder h.apart).and huntouched).imp fun {a b} ⟨hab, hconflict⟩ => ?_
  have hrange := b.start_le_stop
  obtain ⟨hstart, -⟩ := hab
  have := mt (conflicts_iff a b).2 (by rw [hconflict]; simp)
  omega

end Untouched

/-- Between a place that no edit reaches over and the end of the next edit there is no other. -/
theorem filter_between_eq {first : Nat} (ordered : edits.Pairwise fun a b => a.stop < b.start)
    (he : e ∈ edits) (hfirst : first < e.start)
    (front : ∀ f ∈ edits, f.stop ≤ first ∨ e.start ≤ f.start) :
    (edits.filter fun f => f.stop ≤ e.stop).filter (fun f => !decide (f.stop ≤ first)) = [e] := by
  obtain ⟨earlier, later, rfl⟩ := List.append_of_mem he
  obtain ⟨-, hlater, hearlier⟩ := List.pairwise_append.1 ordered
  have hrange := e.start_le_stop
  have hin : ∀ f ∈ earlier, f.stop ≤ first := by
    intro f hf
    have := hearlier f hf e List.mem_cons_self
    have := f.start_le_stop
    have := front f (List.mem_append_left _ hf)
    omega
  have hout : ∀ f ∈ later, ¬ f.stop ≤ e.stop := by
    intro f hf
    have := List.rel_of_pairwise_cons hlater hf
    have := f.start_le_stop
    omega
  rw [List.filter_filter, List.filter_append, List.filter_cons_of_pos (by simp; omega),
    List.filter_eq_nil_iff.2 fun f hf => by simp [hin f hf],
    List.filter_eq_nil_iff.2 fun f hf => by simp [hout f hf]]
  rfl

/-- What edits make of the text up to the end of one of them: the last pieces are what is kept in
front of it, from a place on that no other edit reaches over, and its own text. -/
theorem pieces_through {first : Nat} (untouched : Untouched edits) (he : e ∈ edits)
    (hfirst : first < e.start) (front : ∀ f ∈ edits, f.stop ≤ first ∨ e.start ≤ f.start) :
    pieces (bytes.take e.stop) 0 ((inOrder edits).filter fun f => f.stop ≤ e.stop) =
      pieces (bytes.take first) 0 ((inOrder edits).filter fun f => f.stop ≤ first) ++
        (bytes.take e.start).drop first ++ bytesOf e.text := by
  have hrange := e.start_le_stop
  have hmem : ∀ f ∈ inOrder edits, f ∈ edits := fun f => (inOrder_perm edits).mem_iff.1
  have hordered := pairwise_precedes_inOrder untouched.apart
  have hearlier :
      ((inOrder edits).filter fun f => f.stop ≤ e.stop).filter (fun f => f.stop ≤ first) =
        (inOrder edits).filter fun f => f.stop ≤ first := by
    rw [List.filter_filter]
    refine List.filter_congr fun f _ => ?_
    rw [← Bool.decide_and, decide_eq_decide]
    omega
  have hparts : ∀ f ∈ (inOrder edits).filter fun f => f.stop ≤ e.stop,
      f.stop ≤ first ∨ first ≤ f.start := by
    intro f hf
    have := front f (hmem f (List.mem_of_mem_filter hf))
    omega
  rw [pieces_eq_append (hordered.filter _) (Nat.zero_le first) hparts, hearlier,
    filter_between_eq untouched.inOrder ((inOrder_perm edits).mem_iff.2 he) hfirst
      fun f hf => front f (hmem f hf)]
  simp [pieces, List.take_take, Nat.min_eq_left (show first ≤ e.stop by omega),
    Nat.min_eq_left hrange]

/-- Around an edit: what is in front of it, from a place on that no other edit reaches over, stands
in front of its text, and what is behind it, up to another such place, follows. -/
theorem exists_around {first last : Nat} (untouched : Untouched edits)
    (inside : ∀ e ∈ edits, e.stop ≤ bytes.length) (he : e ∈ edits)
    (hfirst : first < e.start) (hlast : e.stop ≤ last)
    (front : ∀ f ∈ edits, f.stop ≤ first ∨ e.start ≤ f.start)
    (back : ∀ f ∈ edits, f.stop ≤ e.stop ∨ last ≤ f.start) :
    ∃ head tail, inFrontOf bytes edits first = .ok head ∧
      inFrontOf bytes edits e.stop =
        .ok (head ++ (bytes.take e.start).drop first ++ bytesOf e.text) ∧
      splice bytes edits = .ok (head ++ (bytes.take e.start).drop first ++ bytesOf e.text ++
        (bytes.take last).drop e.stop ++ tail) := by
  let later := (inOrder edits).filter fun f => !decide (f.stop ≤ e.stop)
  have hback : ∀ f ∈ inOrder edits, f.stop ≤ e.stop ∨ last ≤ f.start := fun f hf =>
    back f ((inOrder_perm edits).mem_iff.1 hf)
  have hlater : ∀ f ∈ later, last ≤ f.start := by
    intro f hf
    obtain ⟨hf, hbehind⟩ := List.mem_filter.1 hf
    exact (hback f hf).resolve_left (by simpa using hbehind)
  have hrest : pieces bytes e.stop later =
      (bytes.take last).drop e.stop ++ pieces bytes last later :=
    pieces_of_le_start hlast hlater
  have hthrough : pieces (bytes.take e.stop) 0 ((inOrder edits).filter fun f => f.stop ≤ e.stop) =
      _ := pieces_through untouched he hfirst front
  refine ⟨_, pieces bytes last later, inFrontOf_eq_ok untouched.apart inside first, ?_, ?_⟩
  · rw [inFrontOf_eq_ok untouched.apart inside, hthrough]
  · have houtside : ¬ ReachOutside bytes.length edits := fun ⟨f, hf, hlt⟩ => by
      have := inside f hf
      omega
    have hparts : ∀ f ∈ inOrder edits, f.stop ≤ e.stop ∨ e.stop ≤ f.start := fun f hf =>
      (hback f hf).imp_right (Nat.le_trans hlast)
    rw [splice_eq_ok untouched.apart houtside,
      pieces_eq_append (pairwise_precedes_inOrder untouched.apart) (Nat.zero_le e.stop) hparts,
      hthrough, hrest]
    simp only [List.append_assoc]

end Edit

/-! ### Line feeds and white space -/

theorem Edit.bytesOf_eq_flatMap (s : String) :
    bytesOf s = s.toList.flatMap String.utf8EncodeChar := by
  rw [bytesOf, String.toUTF8_eq_toByteArray, ← String.utf8Encode_toList]
  simp [List.utf8Encode]

/-- Only the encoding of a line feed has the byte of a line feed. -/
theorem Edit.eq_of_ten_mem_utf8EncodeChar {c : Char} (h : 10 ∈ String.utf8EncodeChar c) :
    c = '\n' := by
  have hten : c.val.toNat = 10 := by
    rw [String.utf8EncodeChar] at h
    generalize c.val.toNat = v at h ⊢
    -- if there is more than one byte, each of them is at least 128
    repeat' split at h
    all_goals
      simp [← UInt8.toNat_inj] at h
      omega
  exact Char.ext (UInt32.toNat_inj.1 hten)

/-- The line feeds of a text are counted alike by bytes and by characters. -/
theorem Edit.count_ten_bytesOf (s : String) : (bytesOf s).count 10 = s.toList.count '\n' := by
  have hchar (c : Char) : (String.utf8EncodeChar c).count 10 = if c = '\n' then 1 else 0 := by
    split
    · next h =>
      subst h
      decide
    · next h => exact List.count_eq_zero.2 (mt eq_of_ten_mem_utf8EncodeChar h)
  rw [bytesOf_eq_flatMap]
  induction s.toList with
  | nil => rfl
  | cons c rest ih =>
    rw [List.flatMap_cons, List.count_append, ih, hchar, List.count_cons, Nat.add_comm]
    simp

/-- The characters of a text that are not white space. -/
def Text.withoutBlanks (s : String) : List Char := s.toList.filter fun c => !isBlank c

theorem Text.withoutBlanks_append (s t : String) :
    withoutBlanks (s ++ t) = withoutBlanks s ++ withoutBlanks t := by
  rw [withoutBlanks, String.toList_append, List.filter_append]
  rfl

theorem Text.withoutBlanks_eq_nil_iff {s : String} :
    withoutBlanks s = [] ↔ isBlankText s = true := by
  simp [withoutBlanks, isBlankText]

namespace Edit

variable {text out : String} {edits : List Edit}

/-- An edit puts white space in the place of white space. -/
def SwapsBlanks (text : String) (e : Edit) : Prop :=
  Text.isBlankText e.text = true ∧
    ∃ s, ((bytesOf text).take e.stop).drop e.start = bytesOf s ∧ Text.isBlankText s = true

/-- Pieces and replacements that are white space, from a cursor on. -/
theorem withoutBlanks_of_pieces {cursor : Nat} (ordered : edits.Pairwise Precedes)
    (aligned : ∀ e ∈ edits, e.IsAligned text) (behind : ∀ e ∈ edits, cursor ≤ e.start)
    (hcursor : (String.Pos.Raw.mk cursor).IsValid text) (blank : ∀ e ∈ edits, e.SwapsBlanks text)
    {rest : String} (hrest : (bytesOf text).drop cursor = bytesOf rest)
    (hout : pieces (bytesOf text) cursor edits = bytesOf out) :
    Text.withoutBlanks out = Text.withoutBlanks rest := by
  induction edits generalizing cursor rest out with
  | nil => rw [bytesOf_injective (hout.symm.trans hrest)]
  | cons e later ih =>
    obtain ⟨hstart, hstop⟩ := aligned e List.mem_cons_self
    have haligned := fun f hf => aligned f (List.mem_cons_of_mem e hf)
    obtain ⟨hadded, removed, hremoved, hblank⟩ := blank e List.mem_cons_self
    obtain ⟨kept, hkept⟩ := exists_bytesOf_eq_drop_take hcursor hstart
    obtain ⟨tail, htail⟩ := exists_bytesOf_eq_drop_take hstop
      (String.Pos.Raw.isValid_rawEndPos (s := text))
    have htail' : (bytesOf text).drop e.stop = bytesOf tail := by
      rw [drop_eq_drop_take_utf8ByteSize]
      exact htail
    obtain ⟨mended, hmended⟩ := exists_bytesOf_eq_pieces hstop haligned
    have hbefore : rest = kept ++ removed ++ tail := by
      apply bytesOf_injective
      rw [← hrest, bytesOf_append, bytesOf_append, ← hkept, ← hremoved, ← htail', List.append_assoc,
        ← drop_eq_append _ e.start_le_stop, ← drop_eq_append _ (behind e List.mem_cons_self)]
    have hafter : out = kept ++ e.text ++ mended := by
      apply bytesOf_injective
      rw [← hout, pieces, hkept, hmended, bytesOf_append, bytesOf_append]
    have hlater : Text.withoutBlanks mended = Text.withoutBlanks tail :=
      ih ordered.of_cons haligned (fun f hf => (List.rel_of_pairwise_cons ordered hf).2) hstop
        (fun f hf => blank f (List.mem_cons_of_mem e hf)) htail' hmended
    rw [hbefore, hafter]
    simp only [Text.withoutBlanks_append, Text.withoutBlanks_eq_nil_iff.2 hadded,
      Text.withoutBlanks_eq_nil_iff.2 hblank, hlater]

/-- If each edit puts white space in the place of white space, the other characters stay. -/
theorem withoutBlanks_of_apply_eq_ok (apart : Apart edits) (aligned : ∀ e ∈ edits, e.IsAligned text)
    (blank : ∀ e ∈ edits, e.SwapsBlanks text) (happly : apply text edits = .ok out) :
    Text.withoutBlanks out = Text.withoutBlanks text := by
  have hmem : ∀ e ∈ inOrder edits, e ∈ edits := fun e => (inOrder_perm edits).mem_iff.1
  have hinside : ¬ ReachOutside (bytesOf text).length edits := by
    rintro ⟨e, he, hlt⟩
    rw [length_bytesOf] at hlt
    exact absurd (aligned e he).stop_le (Nat.not_le.2 hlt)
  rw [apply_eq_bind, splice_eq_ok apart hinside] at happly
  exact withoutBlanks_of_pieces (pairwise_precedes_inOrder apart)
    (fun e he => aligned e (hmem e he)) (fun _ _ => Nat.zero_le _) String.Pos.Raw.isValid_zero
    (fun e he => blank e (hmem e he)) List.drop_zero (decoded_eq_ok_iff.1 happly)

end Edit

end TsxLint
