/-
Module: TsxLint.Proofs.Json.Texts
Purpose: A text between quotes reads back to the text.
Main exports: Json.text_writeChar, Json.text_writeText
-/
import Mathlib.Tactic.IntervalCases
import Mathlib.Tactic.SplitIfs
import TsxLint.Json.Reader
import TsxLint.Json.Writer

namespace TsxLint.Json

/-!
Every character is written in one of three ways: as it is, behind a backslash, or as one or two
escaped code units.  Each of them reads back to the character if something is behind it, and the
closing quote always is.
-/

/-! ### Code units -/

theorem hexDigits_one {n : Nat} (hn : n < 16) : Text.hexDigits 1 n = [Nat.digitChar n] := by
  simp [Text.hexDigits, Nat.toDigits_of_lt_base hn]

/-- The last digit of a padded number. -/
theorem hexDigits_succ {width : Nat} (hwidth : 0 < width) (n : Nat) :
    Text.hexDigits (width + 1) n = Text.hexDigits width (n / 16) ++ [Nat.digitChar (n % 16)] := by
  unfold Text.hexDigits
  by_cases hn : n < 16
  · obtain ⟨k, rfl⟩ := Nat.exists_eq_add_of_le' hwidth
    rw [Nat.toDigits_of_lt_base hn, Nat.div_eq_of_lt hn, Nat.mod_eq_of_lt hn, Nat.toDigits_zero]
    simp [← List.replicate_succ']
  · rw [Nat.toDigits_of_base_le (by decide) (Nat.le_of_not_lt hn)]
    simp

theorem hexDigits_four (n : Nat) (hn : n < 0x10000) :
    Text.hexDigits 4 n = [Nat.digitChar (n / 16 / 16 / 16), Nat.digitChar (n / 16 / 16 % 16),
      Nat.digitChar (n / 16 % 16), Nat.digitChar (n % 16)] := by
  rw [hexDigits_succ (by decide), hexDigits_succ (by decide), hexDigits_succ (by decide),
    hexDigits_one (by omega)]
  rfl

theorem hexValue?_digitChar {n : Nat} (hn : n < 16) : hexValue? (Nat.digitChar n) = some n := by
  interval_cases n <;> rfl

theorem unit?_hexDigits {n : Nat} (hn : n < 0x10000) : unit? (Text.hexDigits 4 n) = some n := by
  rw [hexDigits_four n hn]
  simp only [unit?, hexValue?_digitChar (show n / 16 / 16 / 16 < 16 by omega),
    hexValue?_digitChar (Nat.mod_lt _ (by decide : 16 > 0)), Option.bind_eq_bind, Option.bind_some,
    Option.pure_def]
  congr 1
  omega

theorem length_hexDigits {n : Nat} (hn : n < 0x10000) : (Text.hexDigits 4 n).length = 4 := by
  rw [hexDigits_four n hn]
  rfl

/-- The digits of a code unit at the head of a text. -/
theorem unit_at_head {n : Nat} (hn : n < 0x10000) {rest : List Char} (hrest : rest ≠ []) :
    ¬ (Text.hexDigits 4 n ++ rest).length < 5 ∧
      unit? ((Text.hexDigits 4 n ++ rest).take 4) = some n ∧
      (Text.hexDigits 4 n ++ rest).drop 4 = rest := by
  have hlength := length_hexDigits hn
  refine ⟨?_, ?_, ?_⟩
  · have hpos := List.length_pos_iff.2 hrest
    rw [List.length_append]
    omega
  · rw [List.take_left' hlength, unit?_hexDigits hn]
  · rw [List.drop_left' hlength]

/-! ### Escapes -/

theorem escape_unit (mark : List Char) {n : Nat} (hn : n < 0x10000)
    (hsingle : n < 0xd800 ∨ 0xe000 ≤ n) {rest : List Char} (hrest : rest ≠ []) :
    escape mark ('u' :: (Text.hexDigits 4 n ++ rest)) = .ok (Char.ofNat n, 5) := by
  obtain ⟨hlong, hunit, -⟩ := unit_at_head hn hrest
  have hhigh : (0xd800 ≤ n && n < 0xdc00) = false := by
    simp only [Bool.and_eq_false_iff, decide_eq_false_iff_not]
    omega
  have hlow : (0xdc00 ≤ n && n < 0xe000) = false := by
    simp only [Bool.and_eq_false_iff, decide_eq_false_iff_not]
    omega
  simp only [escape, if_neg hlong, hunit, hhigh, hlow, Bool.false_eq_true, if_false]

/-- Two code units for one character beyond the basic plane. -/
theorem escape_pair (mark : List Char) {high low : Nat} (hhigh : high < 0x400)
    (hlow : low < 0x400) {rest : List Char} (hrest : rest ≠ []) :
    escape mark ('u' :: (Text.hexDigits 4 (0xd800 + high) ++
        (escapedUnit (0xdc00 + low) ++ rest))) =
      .ok (Char.ofNat (0x10000 + high * 0x400 + low), 11) := by
  obtain ⟨hlong, hunit, hafter⟩ := unit_at_head (n := 0xd800 + high) (by omega)
    (show escapedUnit (0xdc00 + low) ++ rest ≠ [] by simp [escapedUnit])
  obtain ⟨hlongLow, hunitLow, -⟩ := unit_at_head (n := 0xdc00 + low) (by omega) hrest
  have hsurrogate : (0xd800 ≤ 0xd800 + high && 0xd800 + high < 0xdc00) = true := by
    simp only [Bool.and_eq_true, decide_eq_true_eq]
    omega
  have hsecond : (0xdc00 ≤ 0xdc00 + low && 0xdc00 + low < 0xe000) = true := by
    simp only [Bool.and_eq_true, decide_eq_true_eq]
    omega
  simp only [escape, if_neg hlong, hunit, hafter, hsurrogate, if_true]
  simp only [escapedUnit, List.cons_append, if_neg hlongLow, hunitLow, hsecond, if_true,
    Nat.add_sub_cancel_left]

/-! ### Characters -/

theorem text_skip (start done skipped rest : List Char) :
    text start done skipped.length (skipped ++ rest) = text start done 0 rest := by
  induction skipped with
  | nil => rfl
  | cons c cs ih =>
    rw [List.cons_append, List.length_cons, text]
    exact ih

/-- An escape at the head of a text. -/
theorem text_of_escape (start done marked : List Char) {rest : List Char} {c : Char}
    (hsome : marked ≠ [])
    (hescape : escape ('\\' :: (marked ++ rest)) (marked ++ rest) = .ok (c, marked.length)) :
    text start done 0 ('\\' :: (marked ++ rest)) = text start (c :: done) 0 rest := by
  have hempty : (marked ++ rest).isEmpty = false := by
    simp [hsome]
  rw [text]
  simp only [hempty, hescape, Bool.false_eq_true, if_false]
  exact text_skip start (c :: done) marked rest

theorem text_plain (start done : List Char) {c : Char} (hquote : c ≠ '\x22') (hslash : c ≠ '\\')
    (hc : 0x20 ≤ c.toNat) (rest : List Char) :
    text start done 0 (c :: rest) = text start (c :: done) 0 rest := by
  have hcontrol : ¬ c.toNat < 0x20 := Nat.not_lt.2 hc
  rw [text]
  simp only [beq_iff_eq, hquote, hslash, hcontrol, if_false]

/-- The ways in which a character is written. -/
inductive WrittenAs : Char → List Char → Prop where
  | plain {c : Char} (hquote : c ≠ '\x22') (hslash : c ≠ '\\') (hlow : 0x20 ≤ c.toNat)
      (hhigh : c.toNat < 0x7f) : WrittenAs c [c]
  | letter {c marked : Char} (hshown : 0x20 ≤ marked.toNat ∧ marked.toNat < 0x7f)
      (hreads : ∀ mark rest, escape mark (marked :: rest) = .ok (c, 1)) :
      WrittenAs c ['\\', marked]
  | unit {n : Nat} (hn : n < 0x10000) (hsingle : n < 0xd800 ∨ 0xe000 ≤ n) :
      WrittenAs (Char.ofNat n) (escapedUnit n)
  | pair {high low : Nat} (hhigh : high < 0x400) (hlow : low < 0x400) :
      WrittenAs (Char.ofNat (0x10000 + high * 0x400 + low))
        (escapedUnit (0xd800 + high) ++ escapedUnit (0xdc00 + low))

theorem writtenAs_writeChar (c : Char) : WrittenAs c (writeChar c) := by
  have hvalid := c.valid
  have hunit := WrittenAs.unit (n := c.toNat)
  have hpair := @WrittenAs.pair ((c.toNat - 0x10000) / 0x400) ((c.toNat - 0x10000) % 0x400)
  unfold writeChar
  split_ifs with hself hn hr ht hb hf hplain hbasic
  · rcases Bool.or_eq_true_iff.1 hself with hc | hc
    · rw [eq_of_beq hc]
      exact .letter (by decide) fun _ _ => rfl
    · rw [eq_of_beq hc]
      exact .letter (by decide) fun _ _ => rfl
  · rw [eq_of_beq hn]
    exact .letter (by decide) fun _ _ => rfl
  · rw [eq_of_beq hr]
    exact .letter (by decide) fun _ _ => rfl
  · rw [eq_of_beq ht]
    exact .letter (by decide) fun _ _ => rfl
  · rw [eq_of_beq hb]
    exact .letter (by decide) fun _ _ => rfl
  · rw [eq_of_beq hf]
    exact .letter (by decide) fun _ _ => rfl
  · have hself := Bool.or_eq_false_iff.1 (Bool.eq_false_iff.2 hself)
    have hplain := Bool.and_eq_true_iff.1 hplain
    exact .plain (beq_eq_false_iff_ne.1 hself.1) (beq_eq_false_iff_ne.1 hself.2)
      (of_decide_eq_true hplain.1) (of_decide_eq_true hplain.2)
  · rw [Char.ofNat_toNat] at hunit
    refine hunit hbasic ?_
    rcases hvalid with hlow | hhigh
    · exact .inl hlow
    · exact .inr (Nat.succ_le_of_lt hhigh.1)
  · have hbound : c.toNat < 0x110000 := by
      rcases hvalid with hlow | hhigh
      · exact hlow.trans (by decide)
      · exact hhigh.2
    have hsum : 0x10000 + (c.toNat - 0x10000) / 0x400 * 0x400 + (c.toNat - 0x10000) % 0x400 =
        c.toNat := by
      omega
    rw [hsum, Char.ofNat_toNat] at hpair
    exact hpair (by omega) (Nat.mod_lt _ (by decide))

/-- A character that is written reads back. -/
theorem text_of_writtenAs (start done : List Char) {c : Char} {cs rest : List Char}
    (h : WrittenAs c cs) (hrest : rest ≠ []) :
    text start done 0 (cs ++ rest) = text start (c :: done) 0 rest := by
  cases h with
  | plain hquote hslash hlow hhigh => exact text_plain start done hquote hslash hlow rest
  | @letter c marked hshown hreads =>
    exact text_of_escape start done [marked] (List.cons_ne_nil _ _) (hreads _ _)
  | @unit n hn hsingle =>
    refine text_of_escape start done ('u' :: Text.hexDigits 4 n) (List.cons_ne_nil _ _) ?_
    rw [List.length_cons, length_hexDigits hn]
    exact escape_unit _ hn hsingle hrest
  | @pair high low hhigh hlow =>
    have hlength : ('u' :: (Text.hexDigits 4 (0xd800 + high) ++
        escapedUnit (0xdc00 + low))).length = 11 := by
      simp only [escapedUnit, List.length_append, List.length_cons,
        length_hexDigits (show 0xd800 + high < 0x10000 by omega),
        length_hexDigits (show 0xdc00 + low < 0x10000 by omega)]
    refine text_of_escape start done
      ('u' :: (Text.hexDigits 4 (0xd800 + high) ++ escapedUnit (0xdc00 + low)))
      (List.cons_ne_nil _ _) ?_
    rw [hlength, List.cons_append, List.append_assoc]
    exact escape_pair _ hhigh hlow hrest

theorem text_flatMap_writeChar (start done : List Char) (cs rest : List Char) :
    text start done 0 (cs.flatMap writeChar ++ '\x22' :: rest) =
      .ok (String.ofList (done.reverse ++ cs), rest) := by
  induction cs generalizing done with
  | nil => simp [text]
  | cons c cs ih =>
    rw [List.flatMap_cons, List.append_assoc,
      text_of_writtenAs start done (writtenAs_writeChar c) (by simp), ih]
    simp

/-- What is written between quotes reads back. -/
theorem text_writeText (start : List Char) (s : String) (rest : List Char) :
    text start [] 0 (s.toList.flatMap writeChar ++ '\x22' :: rest) = .ok (s, rest) := by
  rw [text_flatMap_writeChar, List.reverse_nil, List.nil_append, String.ofList_toList]

end TsxLint.Json
