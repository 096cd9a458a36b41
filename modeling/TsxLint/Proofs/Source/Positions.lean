/-
Module: TsxLint.Proofs.Source.Positions
Purpose: What bisection finds, and that the table of lines gives the lines and columns that counting
  gives.
Main exports: lt_bisect_iff, bisect_eq, Document.IsPlace, Document.span_eq_spanOf,
  Document.span_gives_places
-/
import Mathlib.Data.List.DropRight
import TsxLint.Source.Model

namespace TsxLint

/-!
Bisection finds where a condition ends that holds on an initial part of a range.  In the table of
line starts, the starts at or before an offset are such a part.  The bytes before an offset fall
into whole lines and what the offset's own line has before it: the table has one start for the
beginning and one for each line feed of the whole lines, and the last of these starts is their
length.  So row and column are right at any offset, also on a line feed, right behind one and at the
end.
-/

/-! ### Bisection -/

theorem le_bisect (before : Nat → Bool) (low high : Nat) : low ≤ bisect before low high := by
  fun_induction bisect before low high with
  | case1 low high hlt middle hbefore ih => omega
  | case2 low high hlt middle hbefore ih => exact ih
  | case3 low high hlt => exact Nat.le_refl _

theorem bisect_le (before : Nat → Bool) {low high : Nat} (h : low ≤ high) :
    bisect before low high ≤ high := by
  fun_induction bisect before low high with
  | case1 low high hlt middle hbefore ih => exact ih (by omega)
  | case2 low high hlt middle hbefore ih =>
    have := ih (by omega)
    omega
  | case3 low high hlt => exact h

/-- If a condition holds on an initial part of a range, bisection finds where it ends. -/
theorem lt_bisect_iff {before : Nat → Bool} {low high i : Nat}
    (initial : ∀ i j, i ≤ j → j < high → before j = true → before i = true)
    (hlow : low ≤ i) (hhigh : i < high) : i < bisect before low high ↔ before i = true := by
  fun_induction bisect before low high with
  | case1 low high hlt middle hbefore ih =>
    by_cases hi : middle < i
    · exact ih initial hi hhigh
    · have := le_bisect before (middle + 1) high
      exact iff_of_true (by omega) (initial i middle (by omega) (by omega) hbefore)
  | case2 low high hlt middle hbefore ih =>
    by_cases hi : i < middle
    · exact ih (fun j k hjk hk => initial j k hjk (by omega)) hlow hi
    · have := bisect_le before (show low ≤ middle by omega)
      exact iff_of_false (by omega) fun h => hbefore (initial middle i (by omega) hhigh h)
  | case3 low high hlt => omega

/-- If a condition holds of the numbers of a range that are below a bound, bisection finds the
bound. -/
theorem bisect_eq {before : Nat → Bool} {bound high : Nat} (hbound : bound ≤ high)
    (h : ∀ i < high, before i = true ↔ i < bound) : bisect before 0 high = bound := by
  have hiff {i : Nat} (hi : i < high) : i < bisect before 0 high ↔ i < bound := by
    rw [lt_bisect_iff (fun j k hjk hk hbefore => ?_) (Nat.zero_le i) hi, h i hi]
    have := (h k hk).1 hbefore
    exact (h j (by omega)).2 (by omega)
  have hle := bisect_le before (Nat.zero_le high)
  rcases Nat.lt_trichotomy (bisect before 0 high) bound with hlt | heq | hlt
  · exact absurd ((hiff (by omega)).2 hlt) (Nat.lt_irrefl _)
  · exact heq
  · exact absurd ((hiff (by omega)).1 hlt) (Nat.lt_irrefl _)

namespace Document

variable {lines since rest : List UInt8} {place offset : Nat}

/-! ### The table of line starts -/

theorem startsAfter_append (place : Nat) (front rest : List UInt8) :
    startsAfter place (front ++ rest) =
      startsAfter place front ++ startsAfter (place + front.length) rest := by
  induction front generalizing place with
  | nil => rfl
  | cons b front ih =>
    have hplace : place + (b :: front).length = place + 1 + front.length := by
      rw [List.length_cons]
      omega
    rw [List.cons_append, startsAfter, startsAfter, ih, hplace]
    split
    · rfl
    · rfl

theorem length_startsAfter (place : Nat) (bytes : List UInt8) :
    (startsAfter place bytes).length = bytes.count 10 := by
  induction bytes generalizing place with
  | nil => rfl
  | cons b rest ih =>
    rw [startsAfter]
    by_cases hb : b = 10
    · rw [if_pos hb, List.length_cons, ih, hb, List.count_cons_self]
    · rw [if_neg hb, ih, List.count_cons_of_ne hb]

/-- Lines begin behind the place at which the bytes begin, and not behind their end. -/
theorem bounds_of_mem_startsAfter {bytes : List UInt8} (h : offset ∈ startsAfter place bytes) :
    place < offset ∧ offset ≤ place + bytes.length := by
  induction bytes generalizing place with
  | nil => cases h
  | cons b rest ih =>
    rw [startsAfter] at h
    rw [List.length_cons]
    split at h
    · rcases List.mem_cons.1 h with rfl | h
      · omega
      · have := ih h
        omega
    · have := ih h
      omega

/-! ### Whole lines and what is behind them -/

/-- Bytes that end with a line feed, or none. -/
def AreLines (bytes : List UInt8) : Prop := ∀ last ∈ bytes.getLast?, last = 10

/-- Any bytes are whole lines and some bytes of a further line. -/
theorem exists_lines (bytes : List UInt8) :
    ∃ lines since, bytes = lines ++ since ∧ AreLines lines ∧ 10 ∉ since := by
  refine ⟨bytes.rdropWhile (· != 10), bytes.rtakeWhile (· != 10),
    List.rdropWhile_append_rtakeWhile.symm, fun last hlast => ?_, fun hmem => ?_⟩
  · obtain ⟨hne, rfl⟩ := List.mem_getLast?_eq_getLast hlast
    simpa using List.rdropWhile_last_not (· != 10) bytes hne
  · simpa using List.mem_rtakeWhile_imp hmem

/-- Behind whole lines no further line begins until the next line feed. -/
theorem startsAfter_append_since (place : Nat) (lines : List UInt8) (hsince : 10 ∉ since) :
    startsAfter place (lines ++ since) = startsAfter place lines := by
  have hnone : startsAfter (place + lines.length) since = [] := by
    rw [← List.length_eq_zero_iff, length_startsAfter, List.count_eq_zero]
    exact hsince
  rw [startsAfter_append, hnone, List.append_nil]

/-- The last of the lines that begin in whole lines begins behind them. -/
theorem AreLines.getLast?_starts (hlines : AreLines lines) :
    (0 :: startsAfter 0 lines).getLast? = some lines.length := by
  rcases List.eq_nil_or_concat' lines with rfl | ⟨front, last, rfl⟩
  · rfl
  · obtain rfl : last = 10 := hlines last List.getLast?_concat
    have hstarts : startsAfter 0 (front ++ [10]) = startsAfter 0 front ++ [front.length + 1] := by
      rw [startsAfter_append, Nat.zero_add]
      rfl
    rw [hstarts, ← List.cons_append, List.getLast?_concat, List.length_append]
    rfl

/-! ### The table at an offset -/

section Table

variable {front rest : List UInt8} {data : ByteArray}

/-- The table of lines when bytes are cut at an offset: first the starts at or before the offset,
then those behind it. -/
theorem lineStarts_toList (text : String) (hdata : data.data.toList = front ++ rest) :
    (ofBytes text data).lineStarts.toList =
      (0 :: startsAfter 0 front) ++ startsAfter front.length rest := by
  have htable : (ofBytes text data).lineStarts.toList = 0 :: startsAfter 0 data.data.toList := rfl
  rw [htable, hdata, startsAfter_append, Nat.zero_add, List.cons_append]

theorem size_lineStarts (text : String) (hdata : data.data.toList = front ++ rest) :
    (ofBytes text data).lineStarts.size =
      (0 :: startsAfter 0 front).length + (startsAfter front.length rest).length := by
  rw [← Array.length_toList, lineStarts_toList text hdata, List.length_append]

/-- The starts at or before an offset are the first ones in the table. -/
theorem getD_lineStarts_le_iff (text : String) (hdata : data.data.toList = front ++ rest) {i : Nat}
    (hi : i < (ofBytes text data).lineStarts.size) :
    (ofBytes text data).lineStarts.getD i 0 ≤ front.length ↔
      i < (0 :: startsAfter 0 front).length := by
  have htable := lineStarts_toList text hdata
  have hsize := size_lineStarts text hdata
  rw [← Array.getElem_eq_getD (h := hi), ← Array.getElem_toList]
  simp only [htable]
  by_cases hfront : i < (0 :: startsAfter 0 front).length
  · -- a start in front is that of the text or one behind a line feed before the offset
    rw [List.getElem_append_left hfront]
    refine iff_of_true ?_ hfront
    rcases List.mem_cons.1 (List.getElem_mem hfront) with hzero | hmem
    · omega
    · have := bounds_of_mem_startsAfter hmem
      omega
  · rw [List.getElem_append_right (by omega)]
    refine iff_of_false ?_ hfront
    have := bounds_of_mem_startsAfter (List.getElem_mem (l := startsAfter front.length rest)
      (n := i - (0 :: startsAfter 0 front).length) (by omega))
    omega

/-- Bisection in the table counts the line feeds before an offset. -/
theorem rowByTable_eq (text : String) (hdata : data.data.toList = front ++ rest) :
    (ofBytes text data).rowByTable front.length = front.count 10 := by
  have hsize := size_lineStarts text hdata
  have hfound : bisect
      (fun i => decide (((ofBytes text data).lineStarts.getD i 0 : Int) ≤ front.length)) 0
      (ofBytes text data).lineStarts.size = (0 :: startsAfter 0 front).length := by
    refine bisect_eq (by omega) fun i hi => ?_
    rw [decide_eq_true_eq, Int.ofNat_le]
    exact getD_lineStarts_le_iff text hdata hi
  rw [rowByTable, hfound, List.length_cons, length_startsAfter]
  omega

/-- The line that an offset is in begins behind the whole lines before the offset. -/
theorem rowStart_eq (text : String) (hdata : data.data.toList = lines ++ since ++ rest)
    (hlines : AreLines lines) (hsince : 10 ∉ since) :
    (ofBytes text data).rowStart (lines.count 10) = lines.length := by
  have hstart : (ofBytes text data).lineStarts.toList[lines.count 10]? = some lines.length := by
    rw [lineStarts_toList text hdata, startsAfter_append_since 0 lines hsince,
      List.getElem?_append_left (by simp [length_startsAfter]), ← hlines.getLast?_starts,
      List.getLast?_eq_getElem?]
    simp [length_startsAfter]
  rw [rowStart, if_neg (by omega), Int.toNat_natCast, Array.getD_eq_getD_getElem?,
    ← Array.getElem?_toList, hstart]
  rfl

end Table

/-! ### Places -/

/-- The line and the column of an offset: one more than the number of line feeds before it, and the
number of bytes between the last of them, or the beginning, and the offset. -/
structure IsPlace (bytes : List UInt8) (offset : Nat) (line column : Int) : Prop where
  line_eq : line = 1 + (bytes.take offset).count 10
  column_eq : ∃ lines since, bytes.take offset = lines ++ since ∧ AreLines lines ∧ 10 ∉ since ∧
    column = since.length

/-- The place that the table gives is the place of the offset. -/
theorem isPlace_of_table (text : String) {data : ByteArray} (hoffset : offset ≤ data.size) :
    IsPlace data.data.toList offset ((ofBytes text data).rowByTable offset + 1)
      (offset - (ofBytes text data).rowStart ((ofBytes text data).rowByTable offset)) := by
  obtain ⟨lines, since, hcut, hlines, hsince⟩ := exists_lines (data.data.toList.take offset)
  have hlength : (lines ++ since).length = offset := by
    rw [← hcut]
    exact List.length_take_of_le (by simpa using hoffset)
  have hdata : data.data.toList = lines ++ since ++ data.data.toList.drop offset := by
    rw [← hcut, List.take_append_drop]
  have hrow : (ofBytes text data).rowByTable offset = (lines ++ since).count 10 := by
    rw [← hlength]
    exact rowByTable_eq text hdata
  have hcount : (lines ++ since).count 10 = lines.count 10 := by
    rw [List.count_append, List.count_eq_zero.2 hsince, Nat.add_zero]
  refine ⟨?_, lines, since, hcut, hlines, hsince, ?_⟩
  · rw [hrow, hcut]
    omega
  · rw [hrow, hcount, rowStart_eq text hdata hlines hsince, ← hlength, List.length_append]
    omega

/-- Going back from the end of some bytes, the first line feed ends the whole lines. -/
theorem takeWhile_reverse_eq (hlines : AreLines lines) (hsince : 10 ∉ since) :
    (lines ++ since).reverse.takeWhile (· != 10) = since.reverse := by
  have hstop : lines.reverse.takeWhile (· != 10) = [] := by
    rcases List.eq_nil_or_concat' lines with rfl | ⟨front, last, rfl⟩
    · rfl
    · obtain rfl : last = 10 := hlines last List.getLast?_concat
      rw [List.reverse_append]
      rfl
  rw [List.reverse_append, List.takeWhile_append_of_pos, hstop, List.append_nil]
  intro b hb
  have hne : b ≠ 10 := by
    rintro rfl
    exact hsince (List.mem_reverse.1 hb)
  simpa using hne

/-- The place of an offset is the one that is counted. -/
theorem IsPlace.eq_counted {d : Document} {line column : Int}
    (h : IsPlace d.bytes offset line column) (hoffset : offset ≤ d.bytes.length) :
    line = d.rowAt offset + 1 ∧ column = d.columnAt offset := by
  obtain ⟨hline, lines, since, hcut, hlines, hsince, hcolumn⟩ := h
  have hlength : (d.bytes.take offset).length = offset := List.length_take_of_le hoffset
  constructor
  · rw [hline, rowAt]
    omega
  · rw [columnAt, hlength, Nat.sub_self, Nat.add_zero, hcut, takeWhile_reverse_eq hlines hsince,
      List.length_reverse, hcolumn]

/-! ### Spans -/

/-- A span that is computed from offsets is the one that a node of the tree has at them. -/
theorem span_eq_spanOf (text : String) {data : ByteArray} {start stop : Nat}
    (hstart : start ≤ data.size) (hstop : stop ≤ data.size) :
    (ofBytes text data).span start stop = (ofBytes text data).spanOf start stop := by
  have hlength : (ofBytes text data).bytes.length = data.size := Array.length_toList
  obtain ⟨hstartLine, hstartColumn⟩ :=
    (isPlace_of_table text hstart).eq_counted (d := ofBytes text data) (hlength ▸ hstart)
  obtain ⟨hstopLine, hstopColumn⟩ :=
    (isPlace_of_table text hstop).eq_counted (d := ofBytes text data) (hlength ▸ hstop)
  rw [span, spanOf, hstartLine, hstartColumn, hstopLine, hstopColumn]

/-- For any bytes and offsets into them, the span that is computed by the table of lines has the
places of both offsets for its lines and columns, and it is the span of every node of a tree with
this range. -/
theorem span_gives_places (text : String) (data : ByteArray) {start stop : Nat}
    (hle : start ≤ stop) (hstop : stop ≤ data.size) :
    let s := (ofBytes text data).span start stop
    IsPlace data.data.toList start s.startLine s.startColumn ∧
      IsPlace data.data.toList stop s.endLine s.endColumn ∧
      ∀ t : Tree, t.start = start → t.stop = stop → Model.spanOf (ofBytes text data) t = s := by
  have hstart : start ≤ data.size := Nat.le_trans hle hstop
  refine ⟨isPlace_of_table text hstart, isPlace_of_table text hstop, ?_⟩
  rintro t rfl rfl
  exact (span_eq_spanOf text hstart hstop).symm

/-- Bytes that are no text; the range begins right behind a line feed, has one in it and ends in
front of one. -/
theorem span_gives_places_feeds :
    2 ≤ 4 ∧ 4 ≤ (ByteArray.mk #[0xC3, 10, 10, 0x28, 10]).size ∧
      (ofBytes "" ⟨#[0xC3, 10, 10, 0x28, 10]⟩).span 2 4 = ⟨2, 0, 3, 1, 2, 4⟩ := by
  refine ⟨by decide, by decide, ?_⟩
  obtain ⟨-, -, hnode⟩ :=
    span_gives_places "" ⟨#[0xC3, 10, 10, 0x28, 10]⟩ (show 2 ≤ 4 by decide) (by decide)
  exact (hnode (.node "string_fragment" true "" 2 4 []) rfl rfl).symm.trans (by decide)

end Document

end TsxLint
