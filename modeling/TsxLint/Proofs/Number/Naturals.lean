/-
Module: TsxLint.Proofs.Number.Naturals
Purpose: Which naturals are kept when their digits are read as a double-precision number.
Main exports: Binary64.toRat, Binary64.toRat_ofDecimal_of_lt, Binary64.le_toRat_ofDecimal
-/
import Mathlib.Algebra.Order.Field.Power
import Mathlib.Tactic.FieldSimp
import Mathlib.Tactic.Positivity
import TsxLint.Proofs.Number.Decimals

namespace TsxLint.Binary64

/-!
A natural below `2 ^ 53` is a significand of fifty-three bits with zeros behind it, so its digits are
read as this very natural.  From there on digits may be rounded, yet never to a number below
`2 ^ 53`.
-/

/-- The rational that a finite number stands for. -/
def toRat (x : Binary64) : ℚ :=
  (if x.negative then -1 else 1) * x.significand * 2 ^ x.power

/-- A number whose bits are a place and a significand of fifty-three bits. -/
theorem toRat_of_bits {x : Binary64} {n significand : Nat} (hn : n ≤ 2045)
    (hnormal : 2 ^ 52 ≤ significand) (hbelow : significand < 2 ^ 53)
    (hbits : x.bits.toNat = n * 2 ^ 52 + significand) :
    x.isFinite = true ∧ x.toRat = significand * 2 ^ ((n : Int) - leastPower) := by
  have hfield : x.exponentField = n + 1 := by
    simp only [exponentField, Nat.pow_eq]
    omega
  have hfraction : 2 ^ 52 + x.fractionField = significand := by
    simp only [fractionField, Nat.pow_eq]
    omega
  have hsign : x.negative = false := by
    refine decide_eq_false ?_
    simp only [Nat.pow_eq]
    omega
  have hsignificand : x.significand = significand := by
    simp only [Binary64.significand, hfield, Nat.pow_eq, if_neg (Nat.succ_ne_zero n), hfraction]
  have hpower : x.power = (n : Int) - leastPower := by
    simp only [power, hfield, if_neg (Nat.succ_ne_zero n)]
    unfold leastPower
    omega
  constructor
  · simp only [isFinite, hfield, bne_iff_ne]
    omega
  · rw [toRat, hsign, hsignificand, hpower]
    simp

theorem isFinite_eq_false_of_bits {x : Binary64} (hbits : x.bits.toNat = 2047 * 2 ^ 52) :
    x.isFinite = false := by
  have hfield : x.exponentField = 2047 := by
    simp only [exponentField, Nat.pow_eq]
    omega
  simp [isFinite, hfield]

/-- The digits of a natural within the range that is worked out. -/
theorem toNat_ofDecimal_natural {m : Nat} (hm : 0 < m) (hlength : decimalLength m ≤ 400) :
    (ofDecimal false m 0).bits.toNat = roundedBits m 1 := by
  rw [ofDecimal_of_inRange (c := 0) false hm.ne' (by omega) (by omega) (by omega),
    toNat_ofQuotient, signBits_false]
  simp [hm.ne']

/-! ### Naturals that are kept -/

theorem toRat_zero : (ofDecimal false 0 0).isFinite = true ∧ (ofDecimal false 0 0).toRat = 0 := by
  have hsignificand : (ofDecimal false 0 0).significand = 0 := by decide
  refine ⟨by decide, ?_⟩
  rw [toRat, hsignificand]
  simp

/-- The place of a natural that fits a significand. -/
theorem roundedBits_natural {m : Nat} (hm : 0 < m) (hbelow : m < 2 ^ 53) :
    ∃ j ≤ 52, 2 ^ 52 ≤ m * 2 ^ j ∧ m * 2 ^ j < 2 ^ 53 ∧
      roundedBits m 1 = (leastPower - j) * 2 ^ 52 + m * 2 ^ j := by
  have hlog : m.log2 ≤ 52 := Nat.le_of_lt_succ ((Nat.log2_lt hm.ne').2 hbelow)
  obtain ⟨j, hj⟩ := Nat.exists_eq_add_of_le hlog
  have hlow : 2 ^ 52 ≤ m * 2 ^ j := by
    rw [hj, Nat.pow_add]
    exact Nat.mul_le_mul_right _ (Nat.log2_self_le hm.ne')
  have hhigh : m * 2 ^ j < 2 ^ 53 := by
    rw [show 53 = m.log2 + 1 + j by omega, Nat.pow_add]
    exact Nat.mul_lt_mul_of_pos_right Nat.lt_log2_self (Nat.two_pow_pos j)
  have hunits : units m = m * 2 ^ j * (1 * 2 ^ (leastPower - j)) := by
    rw [Nat.one_mul, Nat.mul_assoc, ← Nat.pow_add, units]
    unfold leastPower
    congr 2
    omega
  refine ⟨j, by omega, hlow, hhigh, ?_⟩
  rw [roundedBits_exact hm Nat.one_pos hunits hhigh (.inr hlow)]
  unfold leastPower
  omega

/-- Below `2 ^ 53` every natural is kept. -/
theorem toRat_ofDecimal_of_lt {m : Nat} (h : m < 2 ^ 53) :
    (ofDecimal false m 0).isFinite = true ∧ (ofDecimal false m 0).toRat = m := by
  rcases Nat.eq_zero_or_pos m with rfl | hm
  · rw [Nat.cast_zero]
    exact toRat_zero
  · have hlength : decimalLength m ≤ 400 :=
      decimalLength_le_iff.2 (h.trans_le (two_pow_le_ten_pow (by decide)))
    obtain ⟨j, hj, hlow, hhigh, hbits⟩ := roundedBits_natural hm h
    obtain ⟨hfinite, hvalue⟩ := toRat_of_bits (by unfold leastPower; omega) hlow hhigh
      ((toNat_ofDecimal_natural hm hlength).trans hbits)
    refine ⟨hfinite, ?_⟩
    have hpower : ((leastPower - j : Nat) : Int) - leastPower = -(j : Int) := by
      unfold leastPower
      omega
    rw [hvalue, hpower, zpow_neg, zpow_natCast]
    push_cast
    field_simp

/-! ### Naturals that may be rounded -/

theorem roundHalfEven_le (num den : Nat) : roundHalfEven num den ≤ num / den + 1 := by
  simp only [roundHalfEven]
  split_ifs <;> omega

theorem le_roundHalfEven (num den : Nat) : num / den ≤ roundHalfEven num den := by
  simp only [roundHalfEven]
  split_ifs <;> omega

/-- A natural with more bits than a significand is not counted in ones. -/
theorem IsPlace.leastPower_lt {m n : Nat} (hm : 2 ^ 53 ≤ m) (h : IsPlace m 1 n) :
    leastPower < n := by
  by_contra hle
  have hdiv : m ≤ units m / (1 * 2 ^ n) := by
    rw [Nat.one_mul, Nat.le_div_iff_mul_le (Nat.two_pow_pos n)]
    exact Nat.mul_le_mul_left _ (Nat.pow_le_pow_right Nat.two_pos (Nat.le_of_not_lt hle))
  exact absurd (hm.trans hdiv) (Nat.not_le.2 h.below)

/-- A natural with more bits than a significand is rounded to a significand that counts twos at
least, or lies beyond the largest number. -/
theorem roundedBits_of_le {m : Nat} (hm : 2 ^ 53 ≤ m) :
    roundedBits m 1 = 2047 * 2 ^ 52 ∨
      ∃ n significand, leastPower < n ∧ n ≤ 2045 ∧ 2 ^ 52 ≤ significand ∧ significand < 2 ^ 53 ∧
        roundedBits m 1 = n * 2 ^ 52 + significand := by
  have hpos : 0 < m := lt_of_lt_of_le (Nat.two_pow_pos 53) hm
  obtain ⟨n, -, hplace⟩ := exists_chosen hpos Nat.one_pos
  have hn := hplace.leastPower_lt hm
  have hnormal : 2 ^ 52 ≤ units m / (1 * 2 ^ n) := hplace.normal.resolve_left (by omega)
  have hbelow := hplace.below
  have hlow := le_roundHalfEven (units m) (1 * 2 ^ n)
  have hhigh := roundHalfEven_le (units m) (1 * 2 ^ n)
  rw [roundedBits_eq hpos Nat.one_pos hplace]
  generalize roundHalfEven (units m) (1 * 2 ^ n) = rounded at hlow hhigh
  by_cases htop : 2047 * 2 ^ 52 ≤ n * 2 ^ 52 + rounded
  · exact .inl (Nat.min_eq_right htop)
  · rw [Nat.min_eq_left (by omega)]
    -- A significand that is rounded up to the next power of two carries into the place.
    rcases Nat.lt_or_ge rounded (2 ^ 53) with hfits | hcarry
    · exact .inr ⟨n, rounded, hn, by omega, by omega, hfits, rfl⟩
    · exact .inr ⟨n + 1, rounded - 2 ^ 52, by omega, by omega, by omega, by omega, by omega⟩

/-- From `2 ^ 53` on digits are read as a number that is no smaller than `2 ^ 53`. -/
theorem le_toRat_ofDecimal {m : Nat} (h : 2 ^ 53 ≤ m)
    (hfinite : (ofDecimal false m 0).isFinite = true) : 2 ^ 53 ≤ (ofDecimal false m 0).toRat := by
  have hm : 0 < m := lt_of_lt_of_le (Nat.two_pow_pos 53) h
  have hlength : decimalLength m ≤ 400 := by
    by_contra hlong
    have hinfinite : ofDecimal false m 0 = infinity false := by
      simp only [ofDecimal, if_neg hm.ne', Int.add_zero]
      rw [if_pos (by omega)]
    rw [hinfinite, isFinite_eq_false_of_bits (by rw [toNat_infinity, signBits_false, Nat.zero_add])]
      at hfinite
    cases hfinite
  have hbits := toNat_ofDecimal_natural hm hlength
  rcases roundedBits_of_le h with htop | ⟨n, significand, hn, hle, hnormal, hbelow, heq⟩
  · rw [isFinite_eq_false_of_bits (hbits.trans htop)] at hfinite
    cases hfinite
  · obtain ⟨-, hvalue⟩ := toRat_of_bits hle hnormal hbelow (hbits.trans heq)
    rw [hvalue]
    have hpower : (2 : ℚ) ^ (1 : Int) ≤ 2 ^ ((n : Int) - leastPower) :=
      zpow_le_zpow_right₀ (by norm_num) (by omega)
    have hsignificand : (2 : ℚ) ^ 52 ≤ significand := by exact_mod_cast hnormal
    calc (2 : ℚ) ^ 53 = 2 ^ 52 * 2 ^ (1 : Int) := by norm_num
      _ ≤ (significand : ℚ) * 2 ^ ((n : Int) - leastPower) := by gcongr

end TsxLint.Binary64
