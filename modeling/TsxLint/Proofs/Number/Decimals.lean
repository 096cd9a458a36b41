/-
Module: TsxLint.Proofs.Number.Decimals
Purpose: Reading decimals, and the fewest digits that read back to a number.
Main exports: Binary64.ofDecimal_shift, Binary64.ofDecimal_shortest
-/
import Mathlib.Order.Basic
import TsxLint.Number.Decimal
import TsxLint.Proofs.Number.Rounding

namespace TsxLint.Binary64

/-!
A decimal denotes a quotient, and zeros behind its digits only change how that quotient is written,
so the number that is read stays the same.  The digits that are chosen for a number read back to it
by the very choice, unless none of the choices does.  Then every digit of the number is taken, and
these denote the number itself.
-/

/-! ### Lengths -/

theorem decimalLength_le_iff {n k : Nat} : decimalLength n ≤ k ↔ n < 10 ^ k := by
  unfold decimalLength
  split
  · next hzero => simp [hzero]
  · next hpos =>
    rcases Nat.eq_zero_or_pos k with rfl | hk
    · have hlength := @Nat.length_toDigits_pos 10 n
      simp only [Nat.pow_zero]
      omega
    · exact Nat.length_toDigits_le_iff (by decide) hk

theorem decimalLength_mul_pow {n : Nat} (hn : 0 < n) (k : Nat) :
    decimalLength (n * 10 ^ k) = decimalLength n + k := by
  refine eq_of_forall_ge_iff fun j => ?_
  rw [decimalLength_le_iff]
  by_cases hk : k ≤ j
  · obtain ⟨i, rfl⟩ := Nat.exists_eq_add_of_le' hk
    rw [Nat.pow_add, Nat.mul_lt_mul_right (Nat.pow_pos (by decide)), ← decimalLength_le_iff]
    omega
  · have hpow : 10 ^ j ≤ 10 ^ k := Nat.pow_le_pow_right (by decide) (Nat.le_of_not_le hk)
    have hle : 10 ^ j ≤ n * 10 ^ k := hpow.trans (Nat.le_mul_of_pos_left _ hn)
    omega

/-! ### Signs -/

theorem ext_toNat {x y : Binary64} (h : x.bits.toNat = y.bits.toNat) : x = y := by
  obtain ⟨x⟩ := x
  obtain ⟨y⟩ := y
  exact congrArg Binary64.mk (UInt64.toNat_inj.1 h)

/-- What a sign adds to the bits. -/
def signBits (neg : Bool) : Nat := if neg then 2 ^ 63 else 0

theorem roundedBits_le (num den : Nat) : roundedBits num den ≤ 2047 * 2 ^ 52 := by
  rw [roundedBits_chosen]
  exact Nat.min_le_right _ _

theorem toNat_ofNat_signBits (neg : Bool) {bits : Nat} (h : bits ≤ 2047 * 2 ^ 52) :
    (UInt64.ofNat (signBits neg + bits)).toNat = signBits neg + bits := by
  have hsign : signBits neg ≤ 2 ^ 63 := by
    cases neg
    · exact Nat.zero_le _
    · exact Nat.le_refl _
  rw [UInt64.toNat_ofNat', Nat.mod_eq_of_lt]
  omega

theorem toNat_ofQuotient (neg : Bool) (num den : Nat) :
    (ofQuotient neg num den).bits.toNat =
      signBits neg + if num = 0 then 0 else roundedBits num den := by
  refine toNat_ofNat_signBits neg ?_
  split
  · exact Nat.zero_le _
  · exact roundedBits_le num den

theorem toNat_infinity (neg : Bool) :
    (infinity neg).bits.toNat = signBits neg + 2047 * 2 ^ 52 :=
  toNat_ofNat_signBits neg (Nat.le_refl _)

theorem signBits_false : signBits false = 0 := rfl

/-- A decimal is read as an infinity or as a quotient, whatever its sign. -/
theorem ofDecimal_cases (digits : Nat) (exponent : Int) :
    (∀ neg, ofDecimal neg digits exponent = infinity neg) ∨
      ∃ num den, ∀ neg, ofDecimal neg digits exponent = ofQuotient neg num den := by
  by_cases hzero : digits = 0
  · exact .inr ⟨0, 1, fun neg => by simp only [ofDecimal, if_pos hzero]⟩
  · by_cases hhigh : 400 < (decimalLength digits : Int) + exponent
    · exact .inl fun neg => by simp only [ofDecimal, if_neg hzero, if_pos hhigh]
    · by_cases hlow : (decimalLength digits : Int) + exponent < -400
      · refine .inr ⟨0, 1, fun neg => ?_⟩
        simp only [ofDecimal, if_neg hzero, if_neg hhigh, if_pos hlow]
      · refine .inr ?_
        simp only [ofDecimal, if_neg hzero, if_neg hhigh, if_neg hlow]
        cases exponent with
        | ofNat p => exact ⟨_, _, fun neg => rfl⟩
        | negSucc p => exact ⟨_, _, fun neg => rfl⟩

/-- The sign only sets its bit. -/
theorem toNat_ofDecimal (neg : Bool) (digits : Nat) (exponent : Int) :
    (ofDecimal neg digits exponent).bits.toNat =
      signBits neg + (ofDecimal false digits exponent).bits.toNat := by
  rcases ofDecimal_cases digits exponent with h | ⟨num, den, h⟩
  · rw [h, h, toNat_infinity, toNat_infinity, signBits_false, Nat.zero_add]
  · rw [h, h, toNat_ofQuotient, toNat_ofQuotient, signBits_false, Nat.zero_add]

theorem toNat_ofDecimal_le (digits : Nat) (exponent : Int) :
    (ofDecimal false digits exponent).bits.toNat ≤ 2047 * 2 ^ 52 := by
  rcases ofDecimal_cases digits exponent with h | ⟨num, den, h⟩
  · rw [h, toNat_infinity, signBits_false, Nat.zero_add]
  · rw [h, toNat_ofQuotient, signBits_false, Nat.zero_add]
    split
    · exact Nat.zero_le _
    · exact roundedBits_le num den

theorem toNat_eq_signBits (x : Binary64) :
    x.bits.toNat = signBits x.negative + x.bits.toNat % 2 ^ 63 := by
  have hbits := x.bits.toNat_lt
  by_cases h : Nat.pow 2 63 ≤ x.bits.toNat
  · have hneg : x.negative = true := decide_eq_true h
    simp only [Nat.pow_eq] at h
    rw [hneg]
    simp only [signBits, if_true]
    omega
  · have hneg : x.negative = false := decide_eq_false h
    simp only [Nat.pow_eq] at h
    rw [hneg, signBits_false]
    omega

/-! ### Decimals as quotients -/

/-- A decimal whose leading digit is in the range that is worked out is the quotient it denotes,
over any power of ten that makes it one of naturals. -/
theorem ofDecimal_of_inRange (neg : Bool) {digits : Nat} {exponent : Int} {c : Nat}
    (hdigits : digits ≠ 0) (hlow : -400 ≤ (decimalLength digits : Int) + exponent)
    (hhigh : (decimalLength digits : Int) + exponent ≤ 400) (hc : 0 ≤ exponent + c) :
    ofDecimal neg digits exponent =
      ofQuotient neg (digits * 10 ^ (exponent + c).toNat) (10 ^ c) := by
  simp only [ofDecimal, if_neg hdigits, if_neg (Int.not_lt.2 hlow), if_neg (Int.not_lt.2 hhigh)]
  cases exponent with
  | ofNat p =>
    have hsum : (Int.ofNat p + c).toNat = p + c := by
      show ((p : Int) + c).toNat = _
      omega
    have hscaled := ofQuotient_mul (Nat.pow_pos (by decide) : 0 < 10 ^ c) neg (digits * 10 ^ p)
      Nat.one_pos
    rw [Nat.one_mul, Nat.mul_assoc, ← Nat.pow_add] at hscaled
    rw [hsum, hscaled]
    rfl
  | negSucc p =>
    obtain ⟨k, rfl⟩ : ∃ k, c = p + 1 + k := ⟨c - (p + 1), by omega⟩
    have hsum : (Int.negSucc p + ((p + 1 + k : Nat) : Int)).toNat = k := by omega
    have hscaled := ofQuotient_mul (Nat.pow_pos (by decide) : 0 < 10 ^ k) neg digits
      (Nat.pow_pos (by decide) : 0 < 10 ^ (p + 1))
    rw [hsum, Nat.pow_add, hscaled]
    rfl

/-- Zeros behind the digits change nothing. -/
theorem ofDecimal_shift (neg : Bool) (digits : Nat) (exponent : Int) (k : Nat) :
    ofDecimal neg (digits * 10 ^ k) (exponent - k) = ofDecimal neg digits exponent := by
  rcases Nat.eq_zero_or_pos digits with rfl | hpos
  · simp only [ofDecimal, Nat.zero_mul, if_true]
  · have hmore : digits * 10 ^ k ≠ 0 := (Nat.mul_pos hpos (Nat.pow_pos (by decide))).ne'
    have htop : (decimalLength (digits * 10 ^ k) : Int) + (exponent - k) =
        (decimalLength digits : Int) + exponent := by
      rw [decimalLength_mul_pow hpos]
      omega
    by_cases hhigh : 400 < (decimalLength digits : Int) + exponent
    · simp only [ofDecimal, htop, if_neg hmore, if_neg hpos.ne', if_pos hhigh]
    · by_cases hlow : (decimalLength digits : Int) + exponent < -400
      · simp only [ofDecimal, htop, if_neg hmore, if_neg hpos.ne', if_neg hhigh, if_pos hlow]
      · have hlow := Int.not_lt.1 hlow
        have hhigh := Int.not_lt.1 hhigh
        obtain ⟨c, hc⟩ : ∃ c : Nat, 0 ≤ exponent - k + c := ⟨(k - exponent).toNat, by omega⟩
        have hsum : (exponent + c).toNat = k + (exponent - k + c).toNat := by omega
        rw [ofDecimal_of_inRange neg hmore (htop ▸ hlow) (htop ▸ hhigh) hc,
          ofDecimal_of_inRange neg hpos.ne' hlow hhigh (c := c) (by omega), hsum, Nat.pow_add,
          Nat.mul_assoc]

/-! ### The exact digits -/

theorem exponentField_add_fractionField (x : Binary64) :
    x.exponentField * 2 ^ 52 + x.fractionField = x.bits.toNat % 2 ^ 63 := by
  simp only [exponentField, fractionField, Nat.pow_eq]
  omega

theorem exponentField_lt (x : Binary64) : x.exponentField < 2 ^ 11 :=
  Nat.mod_lt _ (Nat.two_pow_pos 11)

theorem fractionField_lt (x : Binary64) : x.fractionField < 2 ^ 52 :=
  Nat.mod_lt _ (Nat.two_pow_pos 52)

/-- What is read from digits is a number. -/
theorem isNaN_ofDecimal (neg : Bool) (digits : Nat) (exponent : Int) :
    (ofDecimal neg digits exponent).isNaN = false := by
  have hbits := exponentField_add_fractionField (ofDecimal neg digits exponent)
  have hle := toNat_ofDecimal_le digits exponent
  have hsign : signBits neg % 2 ^ 63 = 0 := by cases neg <;> rfl
  rw [toNat_ofDecimal] at hbits
  unfold isNaN
  rw [Bool.and_eq_false_iff, beq_eq_false_iff_ne, bne_eq_false_iff_eq]
  refine or_iff_not_imp_left.2 fun hfield => ?_
  rw [Decidable.not_not.1 hfield] at hbits
  omega

/-- A number is its significand at a place, and its bits are both. -/
structure AtPlace (x : Binary64) (n : Nat) : Prop where
  le : n ≤ 2045
  power : x.power = (n : Int) - leastPower
  below : x.significand < 2 ^ 53
  normal : n = 0 ∨ 2 ^ 52 ≤ x.significand
  bits : n * 2 ^ 52 + x.significand = x.bits.toNat % 2 ^ 63

/-- The place and the significand that an exponent field and a fraction field stand for. -/
theorem exists_place_of_fields {field fraction : Nat} (hfield : field < 2 ^ 11)
    (hne : field ≠ 2047) (hfraction : fraction < 2 ^ 52) :
    ∃ n significand : Nat, significand = (if field = 0 then fraction else 2 ^ 52 + fraction) ∧
      n ≤ 2045 ∧ (if field = 0 then (-1074 : Int) else field - 1075) = n - leastPower ∧
      significand < 2 ^ 53 ∧ (n = 0 ∨ 2 ^ 52 ≤ significand) ∧
      n * 2 ^ 52 + significand = field * 2 ^ 52 + fraction := by
  unfold leastPower
  by_cases hzero : field = 0
  · rw [if_pos hzero, if_pos hzero]
    exact ⟨0, fraction, rfl, Nat.zero_le _, rfl, by omega, .inl rfl, by omega⟩
  · rw [if_neg hzero, if_neg hzero]
    exact ⟨field - 1, 2 ^ 52 + fraction, rfl, by omega, by omega, by omega, .inr (by omega),
      by omega⟩

theorem exists_atPlace {x : Binary64} (hfinite : x.isFinite = true) : ∃ n, AtPlace x n := by
  have hne : x.exponentField ≠ 2047 := by
    simpa [isFinite] using hfinite
  obtain ⟨n, significand, rfl, hn, hpower, hbelow, hnormal, hbits⟩ :=
    exists_place_of_fields x.exponentField_lt hne x.fractionField_lt
  exact ⟨n, hn, hpower, hbelow, hnormal, hbits.trans x.exponentField_add_fractionField⟩

theorem significand_pos {x : Binary64} (hfinite : x.isFinite = true) (hzero : x.isZero = false) :
    0 < x.significand := by
  refine Nat.pos_of_ne_zero fun h => ?_
  simp [isZero, hfinite, h] at hzero

theorem two_pow_le_ten_pow {n k : Nat} (h : n ≤ 3 * k) : 2 ^ n ≤ 10 ^ k :=
  calc 2 ^ n ≤ 2 ^ (3 * k) := Nat.pow_le_pow_right Nat.two_pos h
    _ = (2 ^ 3) ^ k := Nat.pow_mul 2 3 k
    _ ≤ 10 ^ k := Nat.pow_le_pow_left (by decide) k

/-- The exact digits of a number with places behind the point lead near the point. -/
theorem le_decimalLength_mul_five_pow {significand q k : Nat} (hpos : 0 < significand)
    (hq : q ≤ 3 * k) : q ≤ decimalLength (significand * 5 ^ q) + k := by
  have hlength := decimalLength_le_iff.1 (Nat.le_refl (decimalLength (significand * 5 ^ q)))
  have hpow : 10 ^ q < 10 ^ (decimalLength (significand * 5 ^ q) + k) :=
    calc 10 ^ q = 5 ^ q * 2 ^ q := Nat.mul_pow 5 2 q
      _ ≤ significand * 5 ^ q * 2 ^ q := Nat.mul_le_mul_right _ (Nat.le_mul_of_pos_left _ hpos)
      _ < 10 ^ decimalLength (significand * 5 ^ q) * 2 ^ q :=
          Nat.mul_lt_mul_of_pos_right hlength (Nat.two_pow_pos q)
      _ ≤ 10 ^ decimalLength (significand * 5 ^ q) * 10 ^ k :=
          Nat.mul_le_mul_left _ (two_pow_le_ten_pow hq)
      _ = 10 ^ (decimalLength (significand * 5 ^ q) + k) := (Nat.pow_add ..).symm
  exact Nat.le_of_lt ((Nat.pow_lt_pow_iff_right (by decide)).1 hpow)

theorem decimalLength_mul_five_pow_le {significand : Nat} (hbelow : significand < 2 ^ 53)
    (q : Nat) : decimalLength (significand * 5 ^ q) ≤ 18 + q := by
  rw [decimalLength_le_iff]
  calc significand * 5 ^ q < 2 ^ 53 * 5 ^ q :=
        Nat.mul_lt_mul_of_pos_right hbelow (Nat.pow_pos (by decide))
    _ ≤ 10 ^ 18 * 10 ^ q :=
        Nat.mul_le_mul (two_pow_le_ten_pow (by decide)) (Nat.pow_le_pow_left (by decide) q)
    _ = 10 ^ (18 + q) := (Nat.pow_add ..).symm

/-- The exact digits of a number without places behind the point. -/
theorem decimalLength_mul_two_pow {significand p : Nat} (hbelow : significand < 2 ^ 53)
    (hp : p ≤ 971) : decimalLength (significand * 2 ^ p) ≤ 400 := by
  rw [decimalLength_le_iff]
  calc significand * 2 ^ p < 2 ^ 53 * 2 ^ p :=
        Nat.mul_lt_mul_of_pos_right hbelow (Nat.two_pow_pos p)
    _ = 2 ^ (53 + p) := (Nat.pow_add ..).symm
    _ ≤ 10 ^ 400 := two_pow_le_ten_pow (by omega)

/-- A quotient that is a number is rounded to this number. -/
theorem AtPlace.toNat_ofQuotient {x : Binary64} {num den n : Nat} (h : AtPlace x n)
    (hpos : 0 < x.significand) (hden : 0 < den)
    (hunits : units num = x.significand * (den * 2 ^ n)) :
    (ofQuotient false num den).bits.toNat = x.bits.toNat % 2 ^ 63 := by
  have hproduct : 0 < units num := by
    rw [hunits]
    exact Nat.mul_pos hpos (Nat.mul_pos hden (Nat.two_pow_pos n))
  have hnum : 0 < num := Nat.pos_of_mul_pos_right hproduct
  have hle := h.le
  have hbelow := h.below
  rw [Binary64.toNat_ofQuotient, signBits_false, if_neg hnum.ne',
    roundedBits_exact hnum hden hunits h.below h.normal, ← h.bits]
  omega

/-- All digits of a number without places behind the point. -/
theorem AtPlace.toNat_ofDecimal_whole {x : Binary64} {p : Nat} (h : AtPlace x (p + leastPower))
    (hpos : 0 < x.significand) :
    (ofDecimal false (x.significand * 2 ^ p) 0).bits.toNat = x.bits.toNat % 2 ^ 63 := by
  have hp : p ≤ 971 := by
    have hle := h.le
    unfold leastPower at hle
    omega
  have hlength := decimalLength_mul_two_pow h.below hp
  have hne : x.significand * 2 ^ p ≠ 0 := (Nat.mul_pos hpos (Nat.two_pow_pos p)).ne'
  rw [ofDecimal_of_inRange (c := 0) false hne (by omega) (by omega) (by omega)]
  refine h.toNat_ofQuotient hpos Nat.one_pos ?_
  show x.significand * 2 ^ p * 1 * 2 ^ leastPower = x.significand * (1 * 2 ^ (p + leastPower))
  rw [Nat.pow_add, Nat.mul_one, Nat.one_mul, Nat.mul_assoc]

/-- All digits of a number with places behind the point: as many as the power of two has. -/
theorem AtPlace.toNat_ofDecimal_places {x : Binary64} {n p : Nat} (h : AtPlace x n)
    (hpos : 0 < x.significand) (hsum : leastPower = p + 1 + n) :
    (ofDecimal false (x.significand * 5 ^ (p + 1)) (.negSucc p)).bits.toNat =
      x.bits.toNat % 2 ^ 63 := by
  have hp : p + 1 ≤ 3 * 400 := by
    unfold leastPower at hsum
    omega
  have hlow := le_decimalLength_mul_five_pow hpos hp
  have hhigh := decimalLength_mul_five_pow_le h.below (p + 1)
  have hne : x.significand * 5 ^ (p + 1) ≠ 0 := (Nat.mul_pos hpos (Nat.pow_pos (by decide))).ne'
  have hexponent : (Int.negSucc p + ((p + 1 : Nat) : Int)).toNat = 0 := by omega
  rw [ofDecimal_of_inRange (c := p + 1) false hne (by omega) (by omega) (by omega)]
  refine h.toNat_ofQuotient hpos (Nat.pow_pos (by decide)) ?_
  rw [hexponent, Nat.pow_zero, Nat.mul_one, units, hsum, Nat.pow_add 2, Nat.mul_assoc,
    ← Nat.mul_assoc (5 ^ (p + 1)), ← Nat.mul_pow]

/-- All digits of a finite number read back to it. -/
theorem toNat_read_expansion {x : Binary64} (hfinite : x.isFinite = true)
    (hzero : x.isZero = false) :
    x.expansion.read.bits.toNat = x.bits.toNat % 2 ^ 63 := by
  have hpos := significand_pos hfinite hzero
  obtain ⟨n, hplace⟩ := exists_atPlace hfinite
  have hpower := hplace.power
  unfold expansion Decimal.read
  cases hp : x.power with
  | ofNat p =>
    rw [hp, Int.ofNat_eq_natCast] at hpower
    obtain rfl : n = p + leastPower := by omega
    exact hplace.toNat_ofDecimal_whole hpos
  | negSucc p => exact hplace.toNat_ofDecimal_places hpos (by omega)

/-! ### The digits that are chosen -/

/-- What is chosen reads back. -/
theorem toNat_read_of_candidate {x : Binary64} {lead : Int} {count : Nat} {d : Decimal}
    (h : x.candidate lead count = some d) : d.read.bits.toNat = x.bits.toNat % 2 ^ 63 := by
  unfold candidate at h
  generalize neighbours x.magnitude.1 x.magnitude.2 (lead - count) = found at h
  obtain ⟨low, high, preferLow⟩ := found
  dsimp only at h
  split at h
  · next hlow hhigh =>
    cases preferLow <;> cases h
    · exact eq_of_beq hhigh
    · exact eq_of_beq hlow
  · next hlow _ =>
    cases h
    exact eq_of_beq hlow
  · next _ hhigh =>
    cases h
    exact eq_of_beq hhigh
  · cases h

theorem toNat_read_shortest {x : Binary64} (hfinite : x.isFinite = true)
    (hzero : x.isZero = false) : x.shortest.read.bits.toNat = x.bits.toNat % 2 ^ 63 := by
  simp only [shortest]
  cases hfound : (List.range 17).findSome? fun i =>
      x.candidate (leadingPlace x.magnitude.1 x.magnitude.2) (i + 1) with
  | none => exact toNat_read_expansion hfinite hzero
  | some d =>
    obtain ⟨i, -, hi⟩ := List.exists_of_findSome?_eq_some hfound
    exact toNat_read_of_candidate hi

/-- The digits that are chosen for a number read back to it, with its sign. -/
theorem ofDecimal_shortest {x : Binary64} (hfinite : x.isFinite = true)
    (hzero : x.isZero = false) :
    ofDecimal x.negative x.shortest.digits x.shortest.exponent = x := by
  apply ext_toNat
  rw [toNat_ofDecimal, toNat_eq_signBits x]
  exact congrArg _ (toNat_read_shortest hfinite hzero)

theorem shortest_digits_pos {x : Binary64} (hfinite : x.isFinite = true)
    (hzero : x.isZero = false) : 0 < x.shortest.digits := by
  refine Nat.pos_of_ne_zero fun h => ?_
  have hread := toNat_read_shortest hfinite hzero
  have hpos := significand_pos hfinite hzero
  obtain ⟨n, hplace⟩ := exists_atPlace hfinite
  have hbits := hplace.bits
  have hnone : x.shortest.read.bits.toNat = 0 := by
    rw [Decimal.read, h]
    rfl
  omega

end TsxLint.Binary64
