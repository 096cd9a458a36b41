/-
Module: TsxLint.Proofs.Number.IntegerLiterals
Purpose: The value of an integer literal against the number that the language gives it.
Main exports: Literal.Digits, Literal.Writes, Value.number?, Literal.readNumber?_of_writes,
  Model.build_integer_literal
-/
import Mathlib.Tactic.IntervalCases
import TsxLint.Proofs.Number.Naturals
import TsxLint.Proofs.Json.Numbers
import TsxLint.Proofs.Source.Parts
import TsxLint.Proofs.Source.Slices

/-!
`Literal.Writes` says which texts are integer literals of the language and which number each of them
is: decimal digits, digits in an announced base, and the two old forms that begin with a zero.
Literals of the first two kinds are read as integers.  The old forms are not, so their digits are
read as a decimal number.  That is right for digits that are decimal, and wrong for the octal ones
from eight on (`Model.build_integer_literal`).  A literal with an `n` behind it is no number for
either reading.
-/

namespace TsxLint

namespace Literal

/-! ### Integer literals -/

/-- A digit of a base, in lower or upper case, and its value. -/
def IsDigitOf (base : Nat) (c : Char) (v : Nat) : Prop :=
  v < base ∧ ("0123456789abcdef".toList[v]? = some c ∨ "0123456789ABCDEF".toList[v]? = some c)

/-- Digits of a base and the number they write.  Where `separated` holds, an underscore may stand
between two of them. -/
inductive Digits (separated : Bool) (base : Nat) : List Char → Nat → Prop
  | single {c : Char} {v : Nat} (digit : IsDigitOf base c v) : Digits separated base [c] v
  | more {cs : List Char} {n : Nat} {c : Char} {v : Nat} (before : Digits separated base cs n)
      (digit : IsDigitOf base c v) : Digits separated base (cs ++ [c]) (n * base + v)
  | behind {cs : List Char} {n : Nat} {c : Char} {v : Nat} (allowed : separated = true)
      (before : Digits separated base cs n) (digit : IsDigitOf base c v) :
      Digits separated base (cs ++ ['_', c]) (n * base + v)

/-- The kinds of integer literals. -/
inductive Form where
  | decimal
  | marked
  | oldOctal
  | oldDecimal
deriving DecidableEq, Repr

/-- The letters that announce a base behind a zero. -/
def baseMarks : List (Char × Nat) :=
  [('x', 16), ('X', 16), ('o', 8), ('O', 8), ('b', 2), ('B', 2)]

/-- The integer literals and their numbers.  A zero before other digits is old style: the digits are
octal if each of them is below eight, else decimal, and nothing may separate them. -/
inductive Writes : Form → List Char → Nat → Prop
  | zero : Writes .decimal ['0'] 0
  | decimal {c : Char} {cs : List Char} {n : Nat} (first : c ≠ '0')
      (digits : Digits true 10 (c :: cs) n) : Writes .decimal (c :: cs) n
  | marked {mark : Char} {base : Nat} {cs : List Char} {n : Nat} (mark_mem : (mark, base) ∈ baseMarks)
      (digits : Digits true base cs n) : Writes .marked ('0' :: mark :: cs) n
  | oldOctal {cs : List Char} {n : Nat} (digits : Digits false 8 cs n) :
      Writes .oldOctal ('0' :: cs) n
  | oldDecimal {cs : List Char} {n : Nat} (digits : Digits false 10 cs n)
      (large : '8' ∈ cs ∨ '9' ∈ cs) : Writes .oldDecimal ('0' :: cs) n

variable {separated : Bool} {base n v : Nat} {c : Char} {cs : List Char} {form : Form}

/-! ### Single digits -/

/-- A character that is read as it stands. -/
def IsPlain (c : Char) : Prop := c.toNat < 127 ∧ isMargin c = false

theorem IsDigitOf.lt_length (h : IsDigitOf base c v) : v < 16 := by
  rcases h.2 with h | h
  · exact (List.getElem?_eq_some_iff.1 h).1
  · exact (List.getElem?_eq_some_iff.1 h).1

/-- What every digit has in common. -/
theorem IsDigitOf.reads (h : IsDigitOf base c v) :
    digitIn? base c = some v ∧ c.toNat < 127 ∧ isMargin c = false ∧ c ≠ '_' := by
  have hv := h.lt_length
  have hall : ∀ c : Char, ∀ v < 16, "0123456789abcdef".toList[v]? = some c ∨
      "0123456789ABCDEF".toList[v]? = some c →
      Json.hexValue? c = some v ∧ c.toNat < 127 ∧ isMargin c = false ∧ c ≠ '_' := by
    intro c v hv hc
    interval_cases v <;> rcases hc with hc | hc <;> cases hc <;> decide
  obtain ⟨hvalue, hrest⟩ := hall c v hv h.2
  refine ⟨?_, hrest⟩
  simp only [digitIn?, hvalue, if_pos h.1]

theorem IsDigitOf.isPlain (h : IsDigitOf base c v) : IsPlain c := ⟨h.reads.2.1, h.reads.2.2.1⟩

theorem IsDigitOf.ne_underscore (h : IsDigitOf base c v) : c ≠ '_' := h.reads.2.2.2

/-- Digits below ten are the decimal ones. -/
theorem IsDigitOf.isDigit (h : IsDigitOf base c v) (hv : v < 10) :
    c.isDigit = true ∧ c.toNat - 48 = v := by
  obtain ⟨-, hc⟩ := h
  interval_cases v <;> rcases hc with hc | hc <;> cases hc <;> decide

theorem IsDigitOf.eq_zero_char (h : IsDigitOf base c 0) : c = '0' := by
  rcases h.2 with h | h <;> cases h <;> rfl

/-! ### Runs of digits -/

theorem Digits.exists_cons (h : Digits separated base cs n) :
    ∃ c ds v, cs = c :: ds ∧ IsDigitOf base c v := by
  induction h with
  | single digit => exact ⟨_, _, _, rfl, digit⟩
  | more before digit ih | behind allowed before digit ih =>
    obtain ⟨c, ds, v, rfl, hc⟩ := ih
    exact ⟨c, _, v, rfl, hc⟩

theorem Digits.isPlain (h : Digits separated base cs n) : ∀ c ∈ cs, IsPlain c := by
  induction h with
  | single digit => simpa using digit.isPlain
  | more before digit ih =>
    intro c hc
    rcases List.mem_append.1 hc with hc | hc
    · exact ih c hc
    · exact List.mem_singleton.1 hc ▸ digit.isPlain
  | behind allowed before digit ih =>
    intro c hc
    rcases List.mem_append.1 hc with hc | hc
    · exact ih c hc
    · rcases List.mem_pair.1 hc with rfl | rfl
      · exact ⟨by decide, by decide⟩
      · exact digit.isPlain

/-- A run of digits is read to its end, whatever is behind it. -/
theorem Digits.separatedDigits_append (h : Digits separated base cs n) (rest : List Char) :
    separatedDigits base 0 false (cs ++ rest) = separatedDigits base n true rest := by
  have hstep {m : Nat} {ready : Bool} {c : Char} {v : Nat} {rest : List Char}
      (digit : IsDigitOf base c v) : separatedDigits base m ready (c :: rest) =
        separatedDigits base (m * base + v) true rest := by
    rw [separatedDigits, if_neg (by simpa using digit.ne_underscore)]
    simp only [digit.reads.1]
  induction h generalizing rest with
  | single digit => rw [List.singleton_append, hstep digit, Nat.zero_mul, Nat.zero_add]
  | more before digit ih => rw [List.append_assoc, ih, List.singleton_append, hstep digit]
  | behind allowed before digit ih =>
    rw [List.append_assoc, ih, List.cons_append, List.singleton_append, separatedDigits]
    simp only [beq_self_eq_true, if_true]
    exact hstep digit

theorem Digits.separatedDigits_eq (h : Digits separated base cs n) :
    separatedDigits base 0 false cs = some n := by
  have hread := h.separatedDigits_append []
  rwa [List.append_nil] at hread

theorem Digits.markedDigits_append (h : Digits separated base cs n) (rest : List Char) :
    markedDigits base (cs ++ rest) = separatedDigits base n true rest := by
  rw [← h.separatedDigits_append rest]
  obtain ⟨c, ds, v, rfl, hc⟩ := h.exists_cons
  unfold markedDigits
  split
  · next heq =>
    cases heq
    exact absurd rfl hc.ne_underscore
  · rfl

theorem Digits.eq_or_isDigit (h : Digits separated base cs n) (hbase : base ≤ 10) :
    ∀ c ∈ cs, c = '_' ∨ c.isDigit = true := by
  induction h with
  | single digit =>
    intro c hc
    exact .inr (List.mem_singleton.1 hc ▸ (digit.isDigit (digit.1.trans_le hbase)).1)
  | more before digit ih =>
    intro c hc
    rcases List.mem_append.1 hc with hc | hc
    · exact ih c hc
    · exact .inr (List.mem_singleton.1 hc ▸ (digit.isDigit (digit.1.trans_le hbase)).1)
  | behind allowed before digit ih =>
    intro c hc
    rcases List.mem_append.1 hc with hc | hc
    · exact ih c hc
    · rcases List.mem_pair.1 hc with rfl | rfl
      · exact .inl rfl
      · exact .inr (digit.isDigit (digit.1.trans_le hbase)).1

/-- What is left of a run of decimal digits without its underscores. -/
theorem Digits.isDigits_filter (h : Digits separated base cs n) (hbase : base ≤ 10) :
    Json.IsDigits (cs.filter (· != '_')) := by
  intro c hc
  obtain ⟨hmem, hne⟩ := List.mem_filter.1 hc
  exact (h.eq_or_isDigit hbase c hmem).resolve_left (by simpa using hne)

theorem IsDigitOf.filter_eq (h : IsDigitOf base c v) :
    [c].filter (· != '_') = [c] ∧ ['_', c].filter (· != '_') = [c] :=
  have hsingle : [c].filter (· != '_') = [c] :=
    List.filter_cons_of_pos (bne_iff_ne.2 h.ne_underscore)
  ⟨hsingle, hsingle⟩

/-- Digits that do not begin with a zero write a number of their length. -/
theorem Digits.pow_length_le (h : Digits separated 10 cs n) (first : cs.head? ≠ some '0') :
    10 ^ (cs.filter (· != '_')).length ≤ 10 * n := by
  induction h with
  | single digit =>
    have hpos : 0 < _ := Nat.pos_of_ne_zero fun hv =>
      first (congrArg some (hv ▸ digit : IsDigitOf 10 _ 0).eq_zero_char)
    rw [digit.filter_eq.1, List.length_singleton]
    omega
  | more before digit ih =>
    obtain ⟨c, ds, v, rfl, -⟩ := before.exists_cons
    have ih := ih first
    rw [List.filter_append, List.length_append, digit.filter_eq.1, List.length_singleton, Nat.pow_succ]
    omega
  | behind allowed before digit ih =>
    obtain ⟨c, ds, v, rfl, -⟩ := before.exists_cons
    have ih := ih first
    rw [List.filter_append, List.length_append, digit.filter_eq.2, List.length_singleton, Nat.pow_succ]
    omega

/-! ### Digits behind a zero -/

theorem Digits.zero_cons (h : Digits separated 10 cs n) : Digits separated 10 ('0' :: cs) n := by
  have hzero : Digits separated 10 ['0'] 0 := .single ⟨by decide, .inl rfl⟩
  induction h with
  | single digit => simpa using hzero.more digit
  | more before digit ih => exact ih.more digit
  | behind allowed before digit ih => exact ih.behind allowed digit

/-- Octal digits that are taken for decimal ones. -/
theorem Digits.exists_decimal (h : Digits separated 8 cs n) :
    ∃ m, Digits separated 10 cs m ∧ n ≤ m ∧ (n = m ↔ n < 8) := by
  have hdigit {c : Char} {v : Nat} (digit : IsDigitOf 8 c v) : IsDigitOf 10 c v :=
    ⟨digit.1.trans (by decide), digit.2⟩
  induction h with
  | single digit => exact ⟨_, .single (hdigit digit), le_rfl, iff_of_true rfl digit.1⟩
  | more before digit ih =>
    obtain ⟨m, hm, hle, hiff⟩ := ih
    have hv := digit.1
    exact ⟨_, hm.more (hdigit digit), by omega, by omega⟩
  | behind allowed before digit ih =>
    obtain ⟨m, hm, hle, hiff⟩ := ih
    have hv := digit.1
    exact ⟨_, hm.behind allowed (hdigit digit), by omega, by omega⟩

/-- Without underscores the digits are those of a decimal number. -/
theorem Digits.digitsValue_eq (h : Digits false 10 cs n) :
    Json.IsDigits cs ∧ Json.digitsValue cs = n := by
  generalize hseparated : false = separated at h
  induction h with
  | single digit =>
    obtain ⟨hdigit, hvalue⟩ := digit.isDigit digit.1
    refine ⟨by simpa [Json.IsDigits] using hdigit, ?_⟩
    simp [Json.digitsValue, hvalue]
  | more before digit ih =>
    obtain ⟨hdigits, hn⟩ := ih
    obtain ⟨hdigit, hvalue⟩ := digit.isDigit digit.1
    refine ⟨hdigits.append (by simpa [Json.IsDigits] using hdigit), ?_⟩
    rw [Json.digitsValue_concat, hn, hvalue]
  | behind allowed => exact absurd (hseparated.trans allowed) Bool.false_ne_true

/-! ### Texts that begin with a digit -/

theorem plainChars_ofList (h : ∀ c ∈ cs, IsPlain c) : plainChars (String.ofList cs) = cs := by
  have hplain : cs.map plainChar = cs := by
    refine (List.map_congr_left fun c hc => ?_).trans (List.map_id cs)
    exact if_pos (h c hc).1
  have hmargin (ds : List Char) (hds : ∀ c ∈ ds, c ∈ cs) : ds.dropWhile isMargin = ds := by
    cases ds with
    | nil => rfl
    | cons c ds => exact List.dropWhile_cons_of_neg (by simp [(h c (hds c List.mem_cons_self)).2])
  rw [plainChars, String.toList_ofList, hplain, hmargin cs fun _ => id,
    hmargin _ fun c => List.mem_reverse.1, List.reverse_reverse]

theorem splitSign_of_isDigit (hc : c.isDigit = true) (cs : List Char) :
    splitSign (c :: cs) = (false, c :: cs) := by
  unfold splitSign
  split
  · next heq =>
    cases heq
    cases hc
  · next heq =>
    cases heq
    cases hc
  · rfl

theorem toLower_of_isDigit (hc : c.isDigit = true) : c.toLower = c := by
  have hlt : ¬ (c.val ≥ 65 ∧ c.val ≤ 90) := by
    have hdigit : c.val ≥ 48 ∧ c.val ≤ 57 := by simpa [Char.isDigit] using hc
    intro h
    exact absurd (UInt32.le_trans h.1 hdigit.2) (by decide)
  exact dif_neg hlt

theorem numberWord?_of_isDigit (hc : c.isDigit = true) (cs : List Char) :
    numberWord? false (c :: cs) = none := by
  have hword (w : Char) (word : List Char) (hw : w.isDigit = false) :
      String.ofList ((c :: cs).map Char.toLower) ≠ String.ofList (w :: word) := by
    intro heq
    have hfirst := String.ofList_injective heq
    rw [List.map_cons, toLower_of_isDigit hc] at hfirst
    cases hfirst
    rw [hc] at hw
    cases hw
  simp only [numberWord?, Bool.or_eq_true, decide_eq_true_eq]
  rw [if_neg, if_neg]
  · exact hword 'n' ['a', 'n'] rfl
  · exact not_or.2 ⟨hword 'i' ['n', 'f'] rfl, hword 'i' ['n', 'f', 'i', 'n', 'i', 't', 'y'] rfl⟩

/-- A text of plain characters that begins with a digit. -/
theorem readNumber?_of_isPlain (hdigit : c.isDigit = true) (h : ∀ x ∈ c :: cs, IsPlain x) :
    readNumber? (String.ofList (c :: cs)) =
      match natural? (c :: cs) with
      | some n => some (.int n)
      | none => (decimal? false ((c :: cs).filter (· != '_'))).map .float := by
  have hc : c ≠ '_' := by
    rintro rfl
    cases hdigit
  have hinteger : readInteger? (String.ofList (c :: cs)) = (natural? (c :: cs)).map Int.ofNat := by
    simp only [readInteger?, plainChars_ofList h, splitSign_of_isDigit hdigit]
    cases natural? (c :: cs) <;> rfl
  have hfilter : (c :: cs).filter (· != '_') = c :: cs.filter (· != '_') :=
    List.filter_cons_of_pos (bne_iff_ne.2 hc)
  have hdecimal : readDecimal? (String.ofList (c :: cs)) =
      decimal? false (c :: cs.filter (· != '_')) := by
    have hplain : ∀ x ∈ c :: cs.filter (· != '_'), IsPlain x := fun x hx =>
      h x (List.mem_of_mem_filter (hfilter ▸ hx))
    simp only [readDecimal?, String.toList_ofList, hfilter, plainChars_ofList hplain,
      splitSign_of_isDigit hdigit, numberWord?_of_isDigit hdigit, Option.or_none]
  rw [readNumber?, hinteger, hdecimal, hfilter]
  cases natural? (c :: cs) <;> rfl

/-- Digits alone, as a decimal number. -/
theorem decimal?_of_isDigits (hcs : cs ≠ []) (h : Json.IsDigits cs) :
    decimal? false cs = some (.ofDecimal false (Json.digitsValue cs) 0) := by
  have hnil : Json.EndsDigits [] := by simp [Json.EndsDigits]
  have htake := Json.takeWhile_digits h hnil
  have hdrop := Json.dropWhile_digits h hnil
  rw [List.append_nil] at htake hdrop
  simp [decimal?, htake, hdrop, hcs]

/-- Digits with something behind them that is neither a point nor an exponent. -/
theorem decimal?_eq_none {digits rest : List Char} (hdigits : Json.IsDigits digits)
    (hrest : Json.EndsNumber rest) (hsome : rest ≠ []) : decimal? false (digits ++ rest) = none := by
  have htake := Json.takeWhile_digits hdigits hrest.digits
  have hdrop := Json.dropWhile_digits hdigits hrest.digits
  obtain ⟨c, more, rfl⟩ := List.exists_cons_of_ne_nil hsome
  have hpoint : c ≠ '.' := fun hc => hrest.noPoint (congrArg some hc)
  have hexponent : Json.exponent? (c :: more) = none := Json.exponent?_eq_none hrest.noMark
  simp only [decimal?, htake, hdrop]
  split
  · next heq =>
    cases heq
    exact absurd rfl hpoint
  · simp [hexponent]

/-! ### Literals that are read as integers -/

theorem natural?_of_decimal (first : c ≠ '0') (h : Digits true 10 (c :: cs) n) (hn : n < 2 ^ 53) :
    natural? (c :: cs) = some n := by
  have hlimit : ¬ JsonError.digitLimit < ((c :: cs).filter (· != '_')).length := by
    have hpow := h.pow_length_le (by simpa using first)
    have hlt : 10 ^ ((c :: cs).filter (· != '_')).length < 10 ^ 17 :=
      hpow.trans_lt (by omega)
    have hlength := (Nat.pow_lt_pow_iff_right (by decide)).1 hlt
    unfold JsonError.digitLimit
    omega
  simp only [natural?, if_neg hlimit, h.separatedDigits_eq]
  split
  · next heq =>
    cases heq
    exact absurd rfl first
  · rfl

/-- The digits behind a letter that announces their base. -/
theorem natural?_of_mark {mark : Char} (mark_mem : (mark, base) ∈ baseMarks) (cs : List Char) :
    natural? ('0' :: mark :: cs) = markedDigits base cs := by
  simp only [baseMarks, List.mem_cons, Prod.mk.injEq, List.not_mem_nil, or_false] at mark_mem
  rcases mark_mem with ⟨rfl, rfl⟩ | ⟨rfl, rfl⟩ | ⟨rfl, rfl⟩ | ⟨rfl, rfl⟩ | ⟨rfl, rfl⟩ | ⟨rfl, rfl⟩ <;>
    rfl

/-- Where no base is announced only decimal digits are an integer, and behind a zero only zeros. -/
theorem separatedDigits_of_natural? {m : Nat} (hmark : ∀ p ∈ baseMarks, cs.head? ≠ some p.1)
    (h : natural? (c :: cs) = some m) :
    separatedDigits 10 0 false (c :: cs) = some m ∧ (c = '0' → cs ≠ [] → m = 0) := by
  have hof {limit : Prop} [Decidable limit] {read : Option Nat}
      (h : (if limit then none else read) = some m) : read = some m := by
    split at h
    · cases h
    · exact h
  simp only [natural?] at h
  split at h
  · next mark rest heq =>
    cases heq
    have hne (p : Char × Nat) (hp : p ∈ baseMarks) : (mark == p.1) = false :=
      beq_eq_false_iff_ne.2 fun heq => hmark p hp (congrArg some heq)
    have hx := hne ('x', 16) (by decide)
    have hX := hne ('X', 16) (by decide)
    have ho := hne ('o', 8) (by decide)
    have hO := hne ('O', 8) (by decide)
    have hb := hne ('b', 2) (by decide)
    have hB := hne ('B', 2) (by decide)
    simp only [hx, hX, ho, hO, hb, hB, Bool.or_self, Bool.false_eq_true, if_false,
      Option.filter_eq_some_iff, beq_iff_eq] at h
    exact ⟨hof h.1, fun _ _ => h.2⟩
  · next hshort =>
    refine ⟨hof h, fun hc hcs => ?_⟩
    obtain ⟨mark, rest, rfl⟩ := List.exists_cons_of_ne_nil hcs
    exact absurd (hc ▸ rfl) (hshort mark rest)

theorem Digits.head?_ne_mark (h : Digits separated 10 cs n) (rest : List Char)
    (hrest : ∀ p ∈ baseMarks, rest.head? ≠ some p.1) :
    ∀ p ∈ baseMarks, (cs ++ rest).tail.head? ≠ some p.1 := by
  have hmarks : ∀ p ∈ baseMarks, p.1 ≠ '_' ∧ p.1.isDigit = false := by decide
  obtain ⟨c, ds, v, rfl, -⟩ := h.exists_cons
  intro p hp
  cases ds with
  | nil => exact hrest p hp
  | cons x ds =>
    intro heq
    obtain rfl : x = p.1 := Option.some.inj heq
    rcases h.eq_or_isDigit le_rfl p.1 (by simp) with hx | hx
    · exact (hmarks p hp).1 hx
    · exact absurd hx (by simp [(hmarks p hp).2])

/-- Decimal digits with a zero before them are no integer unless all of them are zero. -/
theorem natural?_of_old (h : Digits separated 10 cs n) {m : Nat}
    (hm : natural? ('0' :: cs) = some m) : m = 0 ∧ n = 0 := by
  have hmark := h.zero_cons.head?_ne_mark [] (by simp)
  rw [List.append_nil] at hmark
  obtain ⟨hread, hzero⟩ := separatedDigits_of_natural? hmark hm
  obtain ⟨c, ds, v, rfl, -⟩ := h.exists_cons
  obtain rfl := hzero rfl (List.cons_ne_nil c ds)
  exact ⟨rfl, Option.some.inj (h.zero_cons.separatedDigits_eq.symm.trans hread)⟩

end Literal

/-! ### The number that a literal is read as -/

/-- The number that a value stands for, if it is a finite number. -/
def Value.number? : Value → Option ℚ
  | .int n => some n
  | .float x => if x.isFinite then some x.toRat else none
  | _ => none

/-- Which naturals below `2 ^ 53` the digits of a natural are read as. -/
theorem Value.number?_ofDecimal {m n : Nat} (hn : n < 2 ^ 53) :
    Value.number? (.float (.ofDecimal false m 0)) = some (n : ℚ) ↔ n = m := by
  rcases Nat.lt_or_ge m (2 ^ 53) with hm | hm
  · obtain ⟨hfinite, hvalue⟩ := Binary64.toRat_ofDecimal_of_lt hm
    rw [Value.number?, if_pos hfinite, hvalue, Option.some_inj, Nat.cast_inj, eq_comm]
  · refine iff_of_false (fun h => ?_) (by omega)
    rw [Value.number?] at h
    split at h
    · next hfinite =>
      have hle := Binary64.le_toRat_ofDecimal hm hfinite
      rw [Option.some.inj h] at hle
      exact absurd hn (Nat.not_lt.2 (by exact_mod_cast hle))
    · cases h

namespace Literal

variable {separated : Bool} {base n v : Nat} {c : Char} {cs : List Char} {form : Form}

theorem Writes.exists_cons (h : Writes form cs n) : ∃ c ds, cs = c :: ds ∧ c.isDigit = true := by
  cases h with
  | decimal first digits =>
    obtain ⟨c, ds, v, heq, hc⟩ := digits.exists_cons
    exact ⟨c, ds, heq, (hc.isDigit hc.1).1⟩
  | zero | marked | oldOctal | oldDecimal => exact ⟨_, _, rfl, rfl⟩

theorem isPlain_zero : IsPlain '0' := ⟨by decide, by decide⟩

theorem Writes.isPlain (h : Writes form cs n) : ∀ c ∈ cs, IsPlain c := by
  cases h with
  | zero => simpa using isPlain_zero
  | decimal first digits => exact digits.isPlain
  | marked mark_mem digits =>
    have hmarks : ∀ p ∈ baseMarks, p.1.toNat < 127 ∧ isMargin p.1 = false := by decide
    exact List.forall_mem_cons.2 ⟨isPlain_zero,
      List.forall_mem_cons.2 ⟨hmarks _ mark_mem, digits.isPlain⟩⟩
  | oldOctal digits | oldDecimal digits =>
    exact List.forall_mem_cons.2 ⟨isPlain_zero, digits.isPlain⟩

/-- A text that is an integer for the reader. -/
theorem Writes.readNumber?_of_natural? (h : Writes form cs n) (hread : natural? cs = some n) :
    readNumber? (String.ofList cs) = some (.int n) := by
  obtain ⟨c, ds, rfl, hc⟩ := h.exists_cons
  rw [readNumber?_of_isPlain hc h.isPlain, hread]

/-- Digits behind a zero are read as a decimal number. -/
theorem exists_readNumber?_old (hplain : ∀ c ∈ cs, IsPlain c) {m : Nat}
    (h : Digits false 10 cs m) :
    ∃ v, readNumber? (String.ofList ('0' :: cs)) = some v ∧
      ∀ n : Nat, n < 2 ^ 53 → (v.number? = some (n : ℚ) ↔ n = m) := by
  rw [readNumber?_of_isPlain (by decide) (List.forall_mem_cons.2 ⟨isPlain_zero, hplain⟩)]
  cases hread : natural? ('0' :: cs) with
  | some k =>
    obtain ⟨rfl, rfl⟩ := natural?_of_old h hread
    refine ⟨_, rfl, fun n _ => ?_⟩
    simp [Value.number?, eq_comm]
  | none =>
    obtain ⟨hdigits, hvalue⟩ := h.zero_cons.digitsValue_eq
    have hfilter : ('0' :: cs).filter (· != '_') = '0' :: cs := by
      refine List.filter_eq_self.2 fun x hx => bne_iff_ne.2 ?_
      rintro rfl
      exact absurd (hdigits _ hx) (by decide)
    simp only [hfilter, decimal?_of_isDigits (List.cons_ne_nil _ _) hdigits, hvalue,
      Option.map_some]
    exact ⟨_, rfl, fun n hn => Value.number?_ofDecimal hn⟩

/-- Every integer literal is read as a number, and as its own unless it is an old octal one of at
least eight. -/
theorem Writes.exists_readNumber? (h : Writes form cs n) (hn : n < 2 ^ 53) :
    ∃ v, readNumber? (String.ofList cs) = some v ∧
      (v.number? = some (n : ℚ) ↔ (form = .oldOctal → n < 8)) := by
  have hinteger (hread : natural? cs = some n) (hform : form ≠ .oldOctal) :
      ∃ v, readNumber? (String.ofList cs) = some v ∧
        (v.number? = some (n : ℚ) ↔ (form = .oldOctal → n < 8)) :=
    ⟨_, h.readNumber?_of_natural? hread,
      iff_of_true (by simp [Value.number?]) fun heq => absurd heq hform⟩
  cases h with
  | zero => exact hinteger rfl nofun
  | decimal first digits => exact hinteger (natural?_of_decimal first digits hn) nofun
  | marked mark_mem digits =>
    refine hinteger ?_ nofun
    have hread := digits.markedDigits_append []
    rw [List.append_nil] at hread
    rw [natural?_of_mark mark_mem, hread]
    rfl
  | oldOctal digits =>
    obtain ⟨m, hm, -, hiff⟩ := digits.exists_decimal
    obtain ⟨v, hread, hvalue⟩ := exists_readNumber?_old digits.isPlain hm
    exact ⟨v, hread, (hvalue n hn).trans (hiff.trans ⟨fun h _ => h, fun h => h rfl⟩)⟩
  | oldDecimal digits large =>
    obtain ⟨v, hread, hvalue⟩ := exists_readNumber?_old digits.isPlain digits
    exact ⟨v, hread, iff_of_true ((hvalue n hn).2 rfl) nofun⟩

/-! ### Literals of unbounded integers -/

theorem separatedDigits_mark (base n : Nat) : separatedDigits base n true ['n'] = none := rfl

/-- A literal that announces no base has decimal digits only. -/
theorem Writes.exists_digits (h : Writes form cs n) (hform : form ≠ .marked) :
    ∃ separated m, Digits separated 10 cs m := by
  cases h with
  | zero => exact ⟨false, 0, .single ⟨by decide, .inl rfl⟩⟩
  | decimal first digits => exact ⟨_, _, digits⟩
  | marked => exact absurd rfl hform
  | oldOctal digits =>
    obtain ⟨m, hm, -, -⟩ := digits.exists_decimal
    exact ⟨_, m, hm.zero_cons⟩
  | oldDecimal digits large => exact ⟨_, _, digits.zero_cons⟩

theorem natural?_digits_mark (h : Digits separated 10 cs n) : natural? (cs ++ ['n']) = none := by
  refine Option.eq_none_iff_forall_ne_some.2 fun m hm => ?_
  have hmark := h.head?_ne_mark ['n'] (by decide)
  have hread := h.separatedDigits_append ['n']
  obtain ⟨c, ds, v, rfl, -⟩ := h.exists_cons
  obtain ⟨hsome, -⟩ := separatedDigits_of_natural? hmark hm
  cases hsome.symm.trans (hread.trans (separatedDigits_mark 10 n))

/-- The letter that announces a base ends a decimal number. -/
theorem decimal?_of_mark {mark : Char} (mark_mem : (mark, base) ∈ baseMarks) (cs : List Char) :
    decimal? false (('0' :: mark :: cs).filter (· != '_')) = none := by
  have hmarks : ∀ p ∈ baseMarks, p.1.isDigit = false ∧ p.1 ≠ '.' ∧ p.1 ≠ 'e' ∧ p.1 ≠ 'E' ∧
    p.1 ≠ '_' := by decide
  obtain ⟨hdigit, hpoint, hlower, hupper, hunderscore⟩ := hmarks _ mark_mem
  have hfilter : ('0' :: mark :: cs).filter (· != '_') = '0' :: mark :: cs.filter (· != '_') :=
    congrArg ('0' :: ·) (List.filter_cons_of_pos (bne_iff_ne.2 hunderscore))
  have hzero : Json.IsDigits ['0'] := by simp [Json.IsDigits]
  have hends : Json.EndsNumber (mark :: cs.filter (· != '_')) :=
    ⟨by simpa [Json.EndsDigits] using hdigit, fun h => hpoint (Option.some.inj h),
      fun h => hlower (Option.some.inj h), fun h => hupper (Option.some.inj h)⟩
  rw [hfilter]
  exact decimal?_eq_none hzero hends (List.cons_ne_nil _ _)

/-- An integer literal with an `n` behind it is neither an integer nor a decimal number. -/
theorem Writes.eq_none_of_mark (h : Writes form cs n) :
    natural? (cs ++ ['n']) = none ∧ decimal? false ((cs ++ ['n']).filter (· != '_')) = none := by
  by_cases hform : form = .marked
  · subst hform
    cases h with
    | marked mark_mem digits =>
      refine ⟨?_, decimal?_of_mark mark_mem _⟩
      rw [List.cons_append, List.cons_append, natural?_of_mark mark_mem,
        digits.markedDigits_append, separatedDigits_mark]
  · obtain ⟨separated, m, hdigits⟩ := h.exists_digits hform
    refine ⟨natural?_digits_mark hdigits, ?_⟩
    rw [List.filter_append]
    exact decimal?_eq_none (hdigits.isDigits_filter le_rfl)
      ⟨by simp [Json.EndsDigits], by decide, by decide, by decide⟩ (by decide)

/-- An integer literal with an `n` behind it is no number for the reader. -/
theorem Writes.readNumber?_mark (h : Writes form cs n) :
    readNumber? (String.ofList (cs ++ ['n'])) = none := by
  have hplain : ∀ x ∈ cs ++ ['n'], IsPlain x :=
    List.forall_mem_append.2 ⟨h.isPlain, by simpa using ⟨by decide, by decide⟩⟩
  obtain ⟨hnatural, hdecimal⟩ := h.eq_none_of_mark
  obtain ⟨c, ds, rfl, hc⟩ := h.exists_cons
  rw [List.cons_append] at hplain hnatural hdecimal ⊢
  rw [readNumber?_of_isPlain hc hplain, hnatural, hdecimal]
  rfl

end Literal

namespace Model

/-! ### The model of an integer literal -/

variable {d : Document} {t : Tree} {raw : String}

theorem build_of_readNumber? (type : t.type = "number") (text : textOf d t = .ok raw) {v : Value}
    (h : Literal.readNumber? raw = some v) : build d t = .ok (.literal ⟨spanOf d t, v, raw⟩) := by
  have hnumber : numberLiteral d t = .ok (some (.literal ⟨spanOf d t, v, raw⟩)) := by
    simp only [numberLiteral, text, Outcome.ok_bind, h, Option.map_some]
    rfl
  rw [build_eq_assemble, assemble, type]
  show (numberLiteral d t >>= _) = _
  rw [hnumber]
  rfl

/-- A text that is no number does not become a literal. -/
theorem build_ne_literal (type : t.type = "number") (text : textOf d t = .ok raw)
    (h : Literal.readNumber? raw = none) (l : Literal) : build d t ≠ .ok (.literal l) := by
  have hnumber : numberLiteral d t = .ok none := by
    simp only [numberLiteral, text, Outcome.ok_bind, h, Option.map_none]
    rfl
  intro hl
  rw [build_eq_assemble, assemble, type] at hl
  change (numberLiteral d t >>= _) = _ at hl
  rw [hnumber] at hl
  change other d _ t = _ at hl
  obtain ⟨nodes, -, hl⟩ := Outcome.exists_of_bind_eq_ok hl
  cases hl

/-- An integer literal below `2 ^ 53` becomes a literal.  Its value is the number that the language
gives the text, unless the text is an old octal one of at least eight.  An integer literal with an `n`
behind it does not become a literal. -/
theorem build_integer_literal (d : Document) (t : Tree) (type : t.type = "number")
    {form : Literal.Form} {cs : List Char} {n : Nat} (writes : Literal.Writes form cs n) :
    (textOf d t = .ok (String.ofList cs) → n < 2 ^ 53 →
      ∃ v, build d t = .ok (.literal ⟨spanOf d t, v, String.ofList cs⟩) ∧
        (v.number? = some (n : ℚ) ↔ (form = .oldOctal → n < 8))) ∧
    (textOf d t = .ok (String.ofList (cs ++ ['n'])) → ∀ l, build d t ≠ .ok (.literal l)) := by
  constructor
  · intro text hn
    obtain ⟨v, hread, hvalue⟩ := writes.exists_readNumber? hn
    exact ⟨v, build_of_readNumber? type text hread, hvalue⟩
  · intro text
    exact build_ne_literal type text writes.readNumber?_mark

/-- A text that is one number, as a document and its tree. -/
def numberTree (text : String) : Document × Tree :=
  (.ofText text, .node "number" true "" 0 text.utf8ByteSize [])

theorem textOf_numberTree (text : String) :
    textOf (numberTree text).1 (numberTree text).2 = .ok text := by
  refine Document.slice_eq_ok_iff.2 ?_
  show ((Edit.bytesOf text).take text.utf8ByteSize).drop 0 = Edit.bytesOf text
  rw [List.drop_zero, ← Edit.length_bytesOf, List.take_length]

theorem writes_separated : Literal.Writes .marked ['0', 'X', 'F', '_', 'f'] 255 :=
  have first : Literal.IsDigitOf 16 'F' 15 := ⟨by decide, .inr rfl⟩
  have last : Literal.IsDigitOf 16 'f' 15 := ⟨by decide, .inl rfl⟩
  .marked (by decide : ('X', 16) ∈ Literal.baseMarks) (.behind rfl (.single first) last)

theorem build_integer_literal_separated :
    ∃ v, build (numberTree "0XF_f").1 (numberTree "0XF_f").2 =
        .ok (.literal ⟨spanOf (numberTree "0XF_f").1 (numberTree "0XF_f").2, v, "0XF_f"⟩) ∧
      v.number? = some 255 := by
  obtain ⟨v, hbuild, hvalue⟩ := (build_integer_literal (numberTree "0XF_f").1
    (numberTree "0XF_f").2 rfl writes_separated).1 (textOf_numberTree "0XF_f") (by decide)
  exact ⟨v, hbuild, hvalue.2 nofun⟩

theorem writes_octal : Literal.Writes .oldOctal ['0', '1', '7'] 15 :=
  have first : Literal.IsDigitOf 8 '1' 1 := ⟨by decide, .inl rfl⟩
  have last : Literal.IsDigitOf 8 '7' 7 := ⟨by decide, .inl rfl⟩
  .oldOctal (.more (.single first) last)

/-- The octal fifteen is read as seventeen. -/
theorem octal_literal_misread :
    ¬ ∀ (d : Document) (t : Tree), t.type = "number" →
      ∀ (form : Literal.Form) (cs : List Char) (n : Nat), Literal.Writes form cs n →
        textOf d t = .ok (String.ofList cs) → n < 2 ^ 53 →
          ∀ l, build d t = .ok (.literal l) → l.value.number? = some (n : ℚ) := by
  intro h
  have hread : Literal.readNumber? "017" = some (.float ⟨0x4031000000000000⟩) := by decide +kernel
  have htext := textOf_numberTree "017"
  have hbuild := build_of_readNumber? (t := (numberTree "017").2) rfl htext hread
  have hvalue := h _ _ rfl _ _ _ writes_octal htext (by decide) _ hbuild
  have hseventeen : Value.number? (.float ⟨0x4031000000000000⟩) = some ((17 : Nat) : ℚ) :=
    (Value.number?_ofDecimal (m := 17) (by decide)).2 rfl
  rw [hseventeen, Option.some_inj, Nat.cast_inj] at hvalue
  exact absurd hvalue (by decide)

end Model

end TsxLint
