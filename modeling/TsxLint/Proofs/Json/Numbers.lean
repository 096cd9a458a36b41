/-
Module: TsxLint.Proofs.Json.Numbers
Purpose: The text of a number reads back to the number.
Main exports: Json.EndsNumber, Json.scalar_int, Json.scalar_float
-/
import Mathlib.Data.List.Induction
import Mathlib.Data.List.TakeWhile
import TsxLint.Json.Reader
import TsxLint.Proofs.Number.Decimals

namespace TsxLint.Json

/-!
A number is read as far as it goes: its digits, a point with digits behind it and an exponent.  So
its text reads back if what is behind it does not go on with it.  Of the two layouts each moves the
point only, which the places that are counted while reading make up for.
-/

/-! ### Digits -/

theorem digitsValue_eq (cs : List Char) : digitsValue cs = Nat.ofDigitChars 10 cs 0 := by
  unfold digitsValue Nat.ofDigitChars
  simp only [Nat.mul_comm 10]
  rfl

theorem digitsValue_toDigits (n : Nat) : digitsValue (Nat.toDigits 10 n) = n := by
  rw [digitsValue_eq]
  exact Nat.ofDigitChars_toDigits (by decide) (by decide)

theorem digitsValue_concat (cs : List Char) (c : Char) :
    digitsValue (cs ++ [c]) = digitsValue cs * 10 + (c.toNat - 48) := by
  simp [digitsValue, List.foldl_append]

theorem digitsValue_append_zeros (cs : List Char) (k : Nat) :
    digitsValue (cs ++ List.replicate k '0') = digitsValue cs * 10 ^ k := by
  induction k with
  | zero => simp
  | succ k ih =>
    rw [List.replicate_succ', ← List.append_assoc, digitsValue_concat, ih, Nat.pow_succ,
      Nat.mul_assoc]
    rfl

theorem digitsValue_zeros_append (k : Nat) (cs : List Char) :
    digitsValue (List.replicate k '0' ++ cs) = digitsValue cs := by
  induction k with
  | zero => rfl
  | succ k ih =>
    rw [List.replicate_succ, List.cons_append, ← ih]
    rfl

/-- Digits, and nothing else. -/
def IsDigits (cs : List Char) : Prop := ∀ c ∈ cs, c.isDigit = true

theorem isDigits_toDigits (n : Nat) : IsDigits (Nat.toDigits 10 n) := fun _ hc =>
  Nat.isDigit_of_mem_toDigits (by decide) (by decide) hc

theorem isDigits_zeros (k : Nat) : IsDigits (List.replicate k '0') := by
  intro c hc
  obtain rfl := List.eq_of_mem_replicate hc
  rfl

theorem IsDigits.append {cs ds : List Char} (hcs : IsDigits cs) (hds : IsDigits ds) :
    IsDigits (cs ++ ds) := List.forall_mem_append.2 ⟨hcs, hds⟩

theorem digit_value_lt {c : Char} (hc : c.isDigit = true) : c.toNat - 48 < 10 := by
  simp only [Char.isDigit, Bool.and_eq_true, decide_eq_true_eq] at hc
  have hle : c.toNat ≤ 57 := hc.2
  omega

theorem digitsValue_lt {cs : List Char} (h : IsDigits cs) : digitsValue cs < 10 ^ cs.length := by
  induction cs using List.reverseRecOn with
  | nil => exact Nat.one_pos
  | append_singleton cs c ih =>
    have hcs := ih fun d hd => h d (List.mem_append_left _ hd)
    have hc := digit_value_lt (h c (List.mem_append_right _ (List.mem_singleton.2 rfl)))
    rw [digitsValue_concat, List.length_append, List.length_singleton, Nat.pow_succ]
    omega

/-- The digits of a positive number do not begin with a zero. -/
theorem head_toDigits_ne_zero {n : Nat} (hn : 0 < n) {c : Char} {ds : List Char}
    (h : Nat.toDigits 10 n = c :: ds) : c ≠ '0' := by
  rintro rfl
  have hvalue : digitsValue ds = n := by
    rw [← digitsValue_toDigits n, h]
    rfl
  have hlt : n < 10 ^ ds.length := by
    rw [← hvalue]
    exact digitsValue_lt fun c hc => isDigits_toDigits n c (h ▸ List.mem_cons_of_mem _ hc)
  rcases Nat.eq_zero_or_pos ds.length with hnone | hsome
  · rw [hnone] at hlt
    omega
  · have hlength := (Nat.length_toDigits_le_iff (by decide) hsome).2 hlt
    rw [h, List.length_cons] at hlength
    omega

/-! ### The parts of a number -/

/-- What is behind a number does not go on with its digits. -/
def EndsDigits (rest : List Char) : Prop := ∀ c ∈ rest.head?, c.isDigit = false

/-- What is behind a number does not go on with it. -/
structure EndsNumber (rest : List Char) : Prop where
  digits : EndsDigits rest
  noPoint : rest.head? ≠ some '.'
  noMark : rest.head? ≠ some 'e' ∧ rest.head? ≠ some 'E'

/-- The whole digits of a number: a zero alone, or digits that do not begin with one. -/
def IsWhole (cs : List Char) : Prop :=
  cs = ['0'] ∨ ∃ c ds, cs = c :: ds ∧ c ≠ '0' ∧ IsDigits (c :: ds)

theorem isWhole_toDigits (n : Nat) : IsWhole (Nat.toDigits 10 n) := by
  rcases Nat.eq_zero_or_pos n with rfl | hn
  · exact .inl rfl
  · obtain ⟨c, ds, h⟩ := List.exists_cons_of_ne_nil (@Nat.toDigits_ne_nil n 10)
    exact .inr ⟨c, ds, h, head_toDigits_ne_zero hn h, h ▸ isDigits_toDigits n⟩

theorem takeWhile_digits {digits rest : List Char} (hdigits : IsDigits digits)
    (hrest : EndsDigits rest) : (digits ++ rest).takeWhile Char.isDigit = digits := by
  rw [List.takeWhile_append_of_pos hdigits]
  cases rest with
  | nil => simp
  | cons c cs => simp [hrest c rfl]

theorem dropWhile_digits {digits rest : List Char} (hdigits : IsDigits digits)
    (hrest : EndsDigits rest) : (digits ++ rest).dropWhile Char.isDigit = rest := by
  rw [List.dropWhile_append_of_pos hdigits]
  cases rest with
  | nil => rfl
  | cons c cs => simp [hrest c rfl]

theorem fraction?_of_point {places rest : List Char} (hplaces : IsDigits places)
    (hsome : places ≠ []) (hrest : EndsDigits rest) :
    fraction? ('.' :: (places ++ rest)) = some (places, rest) := by
  simp only [fraction?, takeWhile_digits hplaces hrest, dropWhile_digits hplaces hrest,
    List.isEmpty_eq_false_iff.2 hsome, Bool.false_eq_true, if_false]

theorem fraction?_eq_none {rest : List Char} (h : rest.head? ≠ some '.') :
    fraction? rest = none := by
  unfold fraction?
  split
  · exact absurd rfl h
  · rfl

theorem exponent?_eq_none {rest : List Char} (h : rest.head? ≠ some 'e' ∧ rest.head? ≠ some 'E') :
    exponent? rest = none := by
  cases rest with
  | nil => rfl
  | cons c cs =>
    have hlower : (c == 'e') = false := beq_eq_false_iff_ne.2 fun hc => h.1 (congrArg some hc)
    have hupper : (c == 'E') = false := beq_eq_false_iff_ne.2 fun hc => h.2 (congrArg some hc)
    simp [exponent?, hlower, hupper]

theorem exponent?_of_mark {e : Int} {digits rest : List Char} (hdigits : IsDigits digits)
    (hsome : digits ≠ []) (hvalue : digitsValue digits = e.natAbs) (hrest : EndsDigits rest) :
    exponent? ('e' :: (if e < 0 then '-' else '+') :: (digits ++ rest)) = some (e, rest) := by
  have hempty : digits.isEmpty = false := List.isEmpty_eq_false_iff.2 hsome
  by_cases he : e < 0
  · have hint : -(digitsValue digits : Int) = e := by omega
    simp [exponent?, he, takeWhile_digits hdigits hrest, dropWhile_digits hdigits hrest, hempty,
      hint]
  · have hint : (digitsValue digits : Int) = e := by omega
    simp [exponent?, he, takeWhile_digits hdigits hrest, dropWhile_digits hdigits hrest, hempty,
      hint]

/-- The parts that follow the whole digits. -/
def partsAfter (whole after : List Char) : NumberParts :=
  let (fraction, afterFraction) :=
    match fraction? after with
    | some (digits, left) => (some digits, left)
    | none => (none, after)
  match exponent? afterFraction with
  | some (e, left) => ⟨whole, fraction, some e, left⟩
  | none => ⟨whole, fraction, none, afterFraction⟩

theorem some_partsAfter (whole after : List Char) :
    (let (fraction, afterFraction) :=
      match fraction? after with
      | some (digits, left) => (some digits, left)
      | none => (none, after)
    match exponent? afterFraction with
    | some (e, left) => some (⟨whole, fraction, some e, left⟩ : NumberParts)
    | none => some ⟨whole, fraction, none, afterFraction⟩) = some (partsAfter whole after) := by
  unfold partsAfter
  dsimp only
  split <;> split <;> simp_all

theorem numberParts?_cons {c : Char} (hzero : c ≠ '0') (hdigit : c.isDigit = true)
    (cs : List Char) :
    numberParts? (c :: cs) =
      some (partsAfter (c :: cs.takeWhile Char.isDigit) (cs.dropWhile Char.isDigit)) := by
  unfold numberParts?
  split
  · next heq =>
    cases heq
    exact absurd rfl hzero
  · next heq =>
    cases heq
    rw [if_pos hdigit]
    exact some_partsAfter _ _
  · next heq => cases heq

theorem numberParts?_of_isWhole {whole after : List Char} (hwhole : IsWhole whole)
    (hafter : EndsDigits after) :
    numberParts? (whole ++ after) = some (partsAfter whole after) := by
  rcases hwhole with rfl | ⟨c, ds, rfl, hc, hdigits⟩
  · exact some_partsAfter ['0'] after
  · obtain ⟨hdigit, hmore⟩ := List.forall_mem_cons.1 hdigits
    rw [List.cons_append, numberParts?_cons hc hdigit, takeWhile_digits hmore hafter,
      dropWhile_digits hmore hafter]

/-- A number without a point or an exponent. -/
theorem numberParts?_whole {whole rest : List Char} (hwhole : IsWhole whole)
    (hrest : EndsNumber rest) : numberParts? (whole ++ rest) = some ⟨whole, none, none, rest⟩ := by
  rw [numberParts?_of_isWhole hwhole hrest.digits, partsAfter, fraction?_eq_none hrest.noPoint]
  simp only [exponent?_eq_none hrest.noMark]

/-! ### Layouts -/

/-- The number that digits before and behind the point and an exponent denote. -/
def denoted (neg : Bool) (whole places : List Char) (exponent : Int) : Binary64 :=
  .ofDecimal neg (digitsValue (whole ++ places)) (exponent - places.length)

/-- A text at the head of which a double-precision number is read. -/
def ReadsFloat (neg : Bool) (cs rest : List Char) (x : Binary64) : Prop :=
  ∃ parts, numberParts? (cs ++ rest) = some parts ∧ parts.left = rest ∧
    numberValue neg parts = .ok (.float x)

theorem endsDigits_cons {c : Char} (hc : c.isDigit = false) (rest : List Char) :
    EndsDigits (c :: rest) := by
  intro d hd
  cases hd
  exact hc

theorem readsFloat_point (neg : Bool) {whole places rest : List Char} (hwhole : IsWhole whole)
    (hplaces : IsDigits places) (hsome : places ≠ []) (hrest : EndsNumber rest) :
    ReadsFloat neg (whole ++ '.' :: places) rest (denoted neg whole places 0) := by
  refine ⟨⟨whole, some places, none, rest⟩, ?_, rfl, rfl⟩
  rw [List.append_assoc, List.cons_append,
    numberParts?_of_isWhole hwhole (endsDigits_cons rfl _), partsAfter,
    fraction?_of_point hplaces hsome hrest.digits]
  simp only [exponent?_eq_none hrest.noMark]

/-- The exponent behind digits, or behind a point and digits. -/
theorem readsFloat_mark (neg : Bool) {e : Int} {whole places digits rest : List Char}
    (hwhole : IsWhole whole) (hplaces : IsDigits places) (hdigits : IsDigits digits)
    (hsome : digits ≠ []) (hvalue : digitsValue digits = e.natAbs) (hrest : EndsNumber rest) :
    ReadsFloat neg (whole ++ (if places.isEmpty then [] else '.' :: places) ++
        'e' :: (if e < 0 then '-' else '+') :: digits) rest (denoted neg whole places e) := by
  have hexponent := exponent?_of_mark hdigits hsome hvalue hrest.digits
  have hmark : EndsDigits ('e' :: (if e < 0 then '-' else '+') :: (digits ++ rest)) :=
    endsDigits_cons rfl _
  cases places with
  | nil =>
    refine ⟨⟨whole, none, some e, rest⟩, ?_, rfl, rfl⟩
    simp only [List.isEmpty_nil, if_true, List.append_nil, List.append_assoc, List.cons_append]
    rw [numberParts?_of_isWhole hwhole hmark, partsAfter, fraction?_eq_none (by simp)]
    simp only [hexponent]
  | cons c cs =>
    refine ⟨⟨whole, some (c :: cs), some e, rest⟩, ?_, rfl, rfl⟩
    have hfraction := fraction?_of_point hplaces (List.cons_ne_nil c cs) hmark
    simp only [List.isEmpty_cons, Bool.false_eq_true, if_false, List.append_assoc,
      List.cons_append] at hfraction ⊢
    rw [numberParts?_of_isWhole hwhole (endsDigits_cons rfl _), partsAfter, hfraction]
    simp only [hexponent]

/-! ### The digits of a number -/

/-- The digits that are left of a decimal without the zeros behind them. -/
theorem exists_zeros (cs : List Char) :
    ∃ k, cs = (cs.reverse.dropWhile (· == '0')).reverse ++ List.replicate k '0' := by
  refine ⟨(cs.reverse.takeWhile (· == '0')).length, ?_⟩
  have hzeros : cs.reverse.takeWhile (· == '0') =
      List.replicate (cs.reverse.takeWhile (· == '0')).length '0' :=
    List.eq_replicate_iff.2 ⟨rfl, fun c hc =>
      eq_of_beq (List.mem_takeWhile_imp (p := fun c => c == '0') hc)⟩
  calc cs = cs.reverse.reverse := cs.reverse_reverse.symm
    _ = (cs.reverse.takeWhile (· == '0') ++ cs.reverse.dropWhile (· == '0')).reverse := by
        rw [List.takeWhile_append_dropWhile]
    _ = (cs.reverse.dropWhile (· == '0')).reverse ++
          (cs.reverse.takeWhile (· == '0')).reverse := List.reverse_append
    _ = _ := by
        rw [hzeros, List.reverse_replicate, List.length_replicate]

/-- Digits and the place of the point, as a layout takes them for a positive decimal. -/
structure LaidOut (d : Decimal) (first : Char) (more : List Char) (point : Int) : Prop where
  first_ne : first ≠ '0'
  isDigits : IsDigits (first :: more)
  /-- They denote the decimal. -/
  denotes : ∀ neg, Binary64.ofDecimal neg (digitsValue (first :: more))
    (point - (first :: more).length) = .ofDecimal neg d.digits d.exponent

theorem exists_laidOut {d : Decimal} (hd : 0 < d.digits) :
    ∃ first more point, Binary64.digitsAndPoint d = (first :: more, point) ∧
      LaidOut d first more point := by
  obtain ⟨k, hk⟩ := exists_zeros d.chars
  obtain ⟨c, ds, hchars⟩ := List.exists_cons_of_ne_nil (@Nat.toDigits_ne_nil d.digits 10)
  have hchars : d.chars = c :: ds := hchars
  have hc : c ≠ '0' := head_toDigits_ne_zero hd hchars
  have hvalue : digitsValue d.chars = d.digits := digitsValue_toDigits d.digits
  have hdigits : IsDigits d.chars := isDigits_toDigits d.digits
  simp only [Binary64.digitsAndPoint]
  generalize (d.chars.reverse.dropWhile (· == '0')).reverse = kept at hk
  cases kept with
  | nil =>
    -- Zeros only do not write a positive number.
    rw [hchars, List.nil_append] at hk
    have hmem : c ∈ List.replicate k '0' := hk ▸ List.mem_cons_self
    exact absurd (List.eq_of_mem_replicate hmem) hc
  | cons first more =>
    refine ⟨first, more, _, rfl, ?_, ?_, fun neg => ?_⟩
    · rw [hchars, List.cons_append] at hk
      cases hk
      exact hc
    · intro x hx
      exact hdigits x (hk ▸ List.mem_append_left _ hx)
    · rw [← hvalue, hk, digitsValue_append_zeros, List.length_append, List.length_replicate,
        ← Binary64.ofDecimal_shift neg _ (((first :: more).length + k : Nat) + d.exponent -
          (first :: more).length) k]
      congr 1
      omega

/-- Zeros behind the digits are made up for by the places. -/
theorem LaidOut.denoted_eq {d : Decimal} {first : Char} {more : List Char} {point : Int}
    (h : LaidOut d first more point) (neg : Bool) {whole places : List Char} {e : Int} (k : Nat)
    (hvalue : digitsValue (whole ++ places) = digitsValue (first :: more) * 10 ^ k)
    (hplaces : e - places.length = point - (first :: more).length - k) :
    denoted neg whole places e = .ofDecimal neg d.digits d.exponent := by
  rw [denoted, hvalue, hplaces, Binary64.ofDecimal_shift, h.denotes]

theorem LaidOut.isWhole {d : Decimal} {first : Char} {more tail : List Char} {point : Int}
    (h : LaidOut d first more point) (htail : IsDigits (first :: tail)) :
    IsWhole (first :: tail) := .inr ⟨first, tail, rfl, h.first_ne, htail⟩

/-- Zeros before the digits. -/
theorem readsFloat_leading (neg : Bool) {d : Decimal} {first : Char} {more rest : List Char}
    {point : Int} (h : LaidOut d first more point) (p : Nat) (hpoint : point = -(p : Int))
    (hrest : EndsNumber rest) :
    ReadsFloat neg ('0' :: '.' :: (List.replicate p '0' ++ first :: more)) rest
      (.ofDecimal neg d.digits d.exponent) := by
  have hdenoted : denoted neg ['0'] (List.replicate p '0' ++ first :: more) 0 =
      .ofDecimal neg d.digits d.exponent := by
    refine h.denoted_eq neg 0 ?_ ?_
    · rw [Nat.pow_zero, Nat.mul_one]
      exact digitsValue_zeros_append (p + 1) (first :: more)
    · rw [List.length_append, List.length_replicate]
      omega
  have hreads := readsFloat_point neg (.inl rfl) ((isDigits_zeros p).append h.isDigits)
    (by simp) hrest
  rwa [hdenoted] at hreads

/-- Positional notation with digits before the point. -/
theorem positional_succ (first : Char) (more : List Char) (p : Nat) :
    Binary64.positional (first :: more) (.ofNat (p + 1)) =
      first :: (more.take p ++ List.replicate (p - more.length) '0') ++
        '.' :: (if (more.drop p).isEmpty then ['0'] else more.drop p) := by
  simp [Binary64.positional]

/-- The digits before the point, with zeros in the places that they do not reach. -/
theorem LaidOut.isWhole_take {d : Decimal} {first : Char} {more : List Char} {point : Int}
    (h : LaidOut d first more point) (p : Nat) :
    IsWhole (first :: (more.take p ++ List.replicate (p - more.length) '0')) := by
  obtain ⟨hfirst, hmore⟩ := List.forall_mem_cons.1 h.isDigits
  have htake : IsDigits (more.take p) := fun c hc => hmore c (List.mem_of_mem_take hc)
  exact h.isWhole (List.forall_mem_cons.2 ⟨hfirst, htake.append (isDigits_zeros _)⟩)

/-- All digits before the point. -/
theorem LaidOut.denoted_of_le {d : Decimal} {first : Char} {more : List Char} {p : Nat}
    (h : LaidOut d first more (.ofNat (p + 1))) (neg : Bool) (hp : more.length ≤ p) :
    denoted neg (first :: (more.take p ++ List.replicate (p - more.length) '0')) ['0'] 0 =
      .ofDecimal neg d.digits d.exponent := by
  refine h.denoted_eq neg (p - more.length + 1) ?_ ?_
  · rw [List.take_of_length_le hp, ← digitsValue_append_zeros, List.replicate_succ']
    simp
  · simp only [List.length_cons, List.length_nil]
    show _ = ((p + 1 : Nat) : Int) - _ - _
    omega

/-- Digits on both sides of the point. -/
theorem LaidOut.denoted_of_lt {d : Decimal} {first : Char} {more : List Char} {p : Nat}
    (h : LaidOut d first more (.ofNat (p + 1))) (neg : Bool) (hp : p < more.length) :
    denoted neg (first :: (more.take p ++ List.replicate (p - more.length) '0')) (more.drop p) 0 =
      .ofDecimal neg d.digits d.exponent := by
  have hnone : p - more.length = 0 := Nat.sub_eq_zero_of_le (Nat.le_of_lt hp)
  refine h.denoted_eq neg 0 ?_ ?_
  · simp [hnone]
  · simp only [List.length_cons, List.length_drop]
    show _ = ((p + 1 : Nat) : Int) - _ - _
    omega

theorem readsFloat_positional (neg : Bool) {d : Decimal} {first : Char} {more rest : List Char}
    {point : Int} (h : LaidOut d first more point) (hrest : EndsNumber rest) :
    ReadsFloat neg (Binary64.positional (first :: more) point) rest
      (.ofDecimal neg d.digits d.exponent) := by
  cases point with
  | negSucc p => exact readsFloat_leading neg h (p + 1) rfl hrest
  | ofNat p =>
    cases p with
    | zero => exact readsFloat_leading neg h 0 rfl hrest
    | succ p =>
      rw [positional_succ]
      by_cases hp : more.length ≤ p
      · have hnone : (more.drop p).isEmpty = true :=
          List.isEmpty_iff.2 (List.drop_eq_nil_iff.2 hp)
        rw [if_pos hnone, ← h.denoted_of_le neg hp]
        exact readsFloat_point neg (h.isWhole_take p) (isDigits_zeros 1) (by simp) hrest
      · have hsome : more.drop p ≠ [] := fun hnil => hp (List.drop_eq_nil_iff.1 hnil)
        have hdrop : IsDigits (more.drop p) := fun c hc =>
          h.isDigits c (List.mem_cons_of_mem _ (List.mem_of_mem_drop hc))
        rw [if_neg (mt List.isEmpty_iff.1 hsome), ← h.denoted_of_lt neg (Nat.lt_of_not_le hp)]
        exact readsFloat_point neg (h.isWhole_take p) hdrop hsome hrest

theorem readsFloat_scientific (neg : Bool) {d : Decimal} {first : Char} {more rest : List Char}
    {point : Int} (style : DecimalStyle) (h : LaidOut d first more point)
    (hrest : EndsNumber rest) :
    ReadsFloat neg (Binary64.scientific style (first :: more) point) rest
      (.ofDecimal neg d.digits d.exponent) := by
  obtain ⟨hfirst, hmore⟩ := List.forall_mem_cons.1 h.isDigits
  have hdenoted : denoted neg [first] more (point - 1) = .ofDecimal neg d.digits d.exponent := by
    refine h.denoted_eq neg 0 ?_ ?_
    · simp
    · rw [List.length_cons]
      omega
  have hvalue (width n : Nat) : digitsValue (padZeros width (Nat.toDigits 10 n)) = n := by
    rw [padZeros, digitsValue_zeros_append, digitsValue_toDigits]
  rw [← hdenoted]
  refine readsFloat_mark neg (h.isWhole ?_) hmore ?_ ?_ (hvalue _ _) hrest
  · intro c hc
    rw [List.mem_singleton.1 hc]
    exact hfirst
  · exact (isDigits_zeros _).append (isDigits_toDigits _)
  · exact List.append_ne_nil_of_right_ne_nil _ Nat.toDigits_ne_nil

/-! ### Numbers with their signs -/

theorem head_of_numberParts? {cs : List Char} {parts : NumberParts}
    (h : numberParts? cs = some parts) : ∃ c rest, cs = c :: rest ∧ c.isDigit = true := by
  unfold numberParts? at h
  split at h
  · exact ⟨_, _, rfl, rfl⟩
  · next c rest _ =>
    by_cases hdigit : c.isDigit = true
    · exact ⟨c, rest, rfl, hdigit⟩
    · rw [if_neg hdigit] at h
      cases h
  · cases h

/-- The sign of a negative number. -/
def signText (neg : Bool) : List Char := if neg then ['-'] else []

theorem scalar_of_numberParts? (neg : Bool) {cs : List Char} {parts : NumberParts} {v : Value}
    (hparts : numberParts? cs = some parts) (hvalue : numberValue neg parts = .ok v) :
    scalar (signText neg ++ cs) = .ok (v, parts.left) := by
  obtain ⟨c, rest, rfl, hdigit⟩ := head_of_numberParts? hparts
  cases neg with
  | true =>
    simp only [signText, if_true, List.cons_append, List.nil_append]
    unfold scalar
    split
    case h_6 heq =>
      -- The word that begins with a sign goes on with a letter.
      cases heq
      cases hdigit
    case h_7 heq =>
      cases heq
      simp only [hparts, hvalue]
      rfl
    case h_8 hnone => exact absurd rfl (hnone _)
    all_goals
      next heq => cases heq
  | false =>
    simp only [signText, Bool.false_eq_true, if_false, List.nil_append]
    unfold scalar
    split
    case h_8 =>
      simp only [hparts, hvalue]
      rfl
    all_goals
      next heq =>
        cases heq
        cases hdigit

theorem scalar_of_readsFloat {neg : Bool} {cs rest : List Char} {x : Binary64}
    (h : ReadsFloat neg cs rest x) :
    scalar (signText neg ++ cs ++ rest) = .ok (.float x, rest) := by
  obtain ⟨parts, hparts, rfl, hvalue⟩ := h
  rw [List.append_assoc]
  exact scalar_of_numberParts? neg hparts hvalue

theorem toList_toString_int (n : Int) :
    (toString n).toList = signText (decide (n < 0)) ++ Nat.toDigits 10 n.natAbs := by
  rw [Int.toString_eq_repr, Int.repr_eq_if]
  by_cases hn : 0 ≤ n
  · have hneg : ¬ n < 0 := Int.not_lt.2 hn
    have habs : n.toNat = n.natAbs := by omega
    rw [if_pos hn, decide_eq_false hneg, Nat.repr_eq_ofList_toDigits, String.toList_ofList, habs]
    rfl
  · have hneg : n < 0 := Int.not_le.1 hn
    have habs : (-n).toNat = n.natAbs := by omega
    rw [if_neg hn, decide_eq_true hneg, Nat.repr_eq_ofList_toDigits, habs]
    simp only [String.toList_append, String.toList_ofList]
    rfl

/-- An integer that is not too long reads back. -/
theorem scalar_int {n : Int} (h : (Nat.toDigits 10 n.natAbs).length ≤ JsonError.digitLimit)
    {rest : List Char} (hrest : EndsNumber rest) :
    scalar ((toString n).toList ++ rest) = .ok (.int n, rest) := by
  rw [toList_toString_int, List.append_assoc]
  refine scalar_of_numberParts? _ (numberParts?_whole (isWhole_toDigits n.natAbs) hrest) ?_
  have hsigned : (if decide (n < 0) = true then -(n.natAbs : Int) else n.natAbs) = n := by
    by_cases hn : n < 0
    · rw [decide_eq_true hn, if_pos rfl]
      omega
    · rw [decide_eq_false hn, if_neg Bool.false_ne_true]
      omega
  simp only [numberValue, if_neg (Nat.not_lt.2 h), digitsValue_toDigits, hsigned]

end TsxLint.Json

namespace TsxLint.Binary64

/-! ### Numbers that no digits write -/

theorem eq_infinity {x : Binary64} (h : x.isInfinite = true) : x = infinity x.negative := by
  have hfield : x.exponentField = 2047 ∧ x.fractionField = 0 := by
    simpa [isInfinite] using h
  have hbits := x.exponentField_add_fractionField
  rw [hfield.1, hfield.2, Nat.add_zero] at hbits
  apply ext_toNat
  rw [toNat_infinity, hbits]
  exact toNat_eq_signBits x

theorem eq_zero {x : Binary64} (h : x.isZero = true) : x = ofQuotient x.negative 0 1 := by
  have hparts : x.isFinite = true ∧ x.significand = 0 := by
    simpa [isZero] using h
  obtain ⟨n, -, -, -, hnormal, hbits⟩ := exists_atPlace hparts.1
  have hnone : x.bits.toNat % 2 ^ 63 = 0 := by
    rw [hparts.2] at hnormal hbits
    rcases hnormal with rfl | hnormal
    · rw [← hbits, Nat.zero_mul]
    · omega
  apply ext_toNat
  rw [toNat_ofQuotient, if_pos rfl, ← hnone]
  exact toNat_eq_signBits x

theorem isFinite_of_not {x : Binary64} (hnan : x.isNaN = false) (hinfinite : x.isInfinite = false) :
    x.isFinite = true := by
  unfold isFinite
  unfold isNaN at hnan
  unfold isInfinite at hinfinite
  cases hfield : x.exponentField == 2047 with
  | false => exact bne_iff_ne.2 (beq_eq_false_iff_ne.1 hfield)
  | true =>
    rw [hfield, Bool.true_and] at hnan hinfinite
    rw [bne, hinfinite] at hnan
    cases hnan

end TsxLint.Binary64

namespace TsxLint.Json

theorem toList_sign (neg : Bool) : (if neg then "-" else "").toList = signText neg := by
  cases neg <;> rfl

/-- The digits that are laid out for a number read back to it. -/
theorem scalar_digits {x : Binary64} (hfinite : x.isFinite = true) (hzero : x.isZero = false)
    (style : DecimalStyle) {rest : List Char} (hrest : EndsNumber rest) :
    scalar (signText x.negative ++
        (if style.lowest ≤ (Binary64.digitsAndPoint x.shortest).2 ∧
            (Binary64.digitsAndPoint x.shortest).2 ≤ style.highest then
          Binary64.positional (Binary64.digitsAndPoint x.shortest).1
            (Binary64.digitsAndPoint x.shortest).2
        else Binary64.scientific style (Binary64.digitsAndPoint x.shortest).1
          (Binary64.digitsAndPoint x.shortest).2) ++ rest) = .ok (.float x, rest) := by
  obtain ⟨first, more, point, hparts, hlaid⟩ :=
    exists_laidOut (Binary64.shortest_digits_pos hfinite hzero)
  have hx := Binary64.ofDecimal_shortest hfinite hzero
  rw [hparts]
  split
  · have hreads := readsFloat_positional x.negative hlaid hrest
    rw [hx] at hreads
    exact scalar_of_readsFloat hreads
  · have hreads := readsFloat_scientific x.negative style hlaid hrest
    rw [hx] at hreads
    exact scalar_of_readsFloat hreads

/-- A double-precision number reads back; of the bit patterns that are no numbers only one does. -/
theorem scalar_float {x : Binary64} (hnan : x.isNaN = true → x = .nan) {rest : List Char}
    (hrest : EndsNumber rest) :
    scalar ((x.render .object).toList ++ rest) = .ok (.float x, rest) := by
  simp only [Binary64.render]
  by_cases hn : x.isNaN = true
  · rw [if_pos hn, hnan hn]
    rfl
  rw [if_neg hn]
  have hn := Bool.eq_false_iff.2 hn
  have hsign := toList_sign x.negative
  by_cases hi : x.isInfinite = true
  · rw [if_pos hi, String.toList_append, hsign, Binary64.eq_infinity hi]
    cases x.negative <;> rfl
  rw [if_neg hi]
  have hfinite := Binary64.isFinite_of_not hn (Bool.eq_false_iff.2 hi)
  by_cases hz : x.isZero = true
  · rw [if_pos hz, String.toList_append, hsign]
    have hreads := readsFloat_point x.negative (.inl rfl) (isDigits_zeros 1) (by simp) hrest
    have hzero : denoted x.negative ['0'] (List.replicate 1 '0') 0 = x :=
      (Binary64.eq_zero hz).symm
    rw [hzero] at hreads
    exact scalar_of_readsFloat hreads
  rw [if_neg hz]
  rw [String.toList_append, String.toList_ofList, hsign]
  exact scalar_digits hfinite (Bool.eq_false_iff.2 hz) .object hrest

end TsxLint.Json
