/-
Module: TsxLint.Proofs.Number.Rounding
Purpose: Rounding a quotient depends on the quotient only, and keeps what has bits of its own.
Main exports: Binary64.IsPlace, Binary64.roundedBits_eq, Binary64.ofQuotient_mul_right,
  Binary64.roundedBits_exact
-/
import Mathlib.Tactic.Ring
import Mathlib.Tactic.NormNum
import TsxLint.Number.Binary64

namespace TsxLint.Binary64

/-!
Rounding picks the power of two that leaves a significand of fifty-three bits, or the least one
there is.  Counted from the least power, the place `n` stands for `2 ^ (n - 1074)`, so the
significand is the quotient of `num * 2 ^ 1074` by `den * 2 ^ n`.  There is only one such place.
That makes the bits a function of the quotient, however numerator and denominator are chosen.
-/

/-- The least power of two that a number is counted in, without its sign. -/
def leastPower : Nat := 1074

/-- A numerator in units of the least power of two. -/
def units (num : Nat) : Nat := num * 2 ^ leastPower

/-- The place that rounding chooses for a quotient: its significand has fifty-three bits, or fewer
at the least place. -/
structure IsPlace (num den n : Nat) : Prop where
  below : units num / (den * 2 ^ n) < 2 ^ 53
  normal : n = 0 ∨ 2 ^ 52 ≤ units num / (den * 2 ^ n)

/-! ### The place of a quotient -/

theorem div_place_succ (num den n : Nat) :
    units num / (den * 2 ^ (n + 1)) = units num / (den * 2 ^ n) / 2 := by
  rw [Nat.div_div_eq_div_mul, Nat.pow_succ, Nat.mul_assoc]

theorem div_place_anti {m n : Nat} (num den : Nat) (h : m ≤ n) :
    units num / (den * 2 ^ n) ≤ units num / (den * 2 ^ m) := by
  induction h with
  | refl => exact le_refl _
  | step _ ih =>
    rw [div_place_succ]
    exact (Nat.div_le_self _ _).trans ih

theorem IsPlace.not_lt {num den m n : Nat} (hm : IsPlace num den m) (hn : IsPlace num den n) :
    ¬ m < n := by
  intro hlt
  have hle := div_place_anti num den (Nat.succ_le_of_lt hlt)
  rw [Nat.succ_eq_add_one, div_place_succ] at hle
  have hbelow := hm.below
  rcases hn.normal with hzero | hnormal <;> omega

/-- A quotient has one place. -/
theorem IsPlace.unique {num den m n : Nat} (hm : IsPlace num den m) (hn : IsPlace num den n) :
    m = n :=
  Nat.le_antisymm (Nat.le_of_not_lt (hn.not_lt hm)) (Nat.le_of_not_lt (hm.not_lt hn))

theorem units_mul_div {k : Nat} (hk : 0 < k) (num den n : Nat) :
    units (num * k) / (den * k * 2 ^ n) = units num / (den * 2 ^ n) := by
  have hnum : units (num * k) = units num * k := Nat.mul_right_comm num k _
  rw [hnum, Nat.mul_right_comm den k, Nat.mul_div_mul_right _ _ hk]

theorem isPlace_mul_iff {k : Nat} (hk : 0 < k) {num den n : Nat} :
    IsPlace (num * k) (den * k) n ↔ IsPlace num den n := by
  constructor
  · rintro ⟨hbelow, hnormal⟩
    rw [units_mul_div hk] at hbelow hnormal
    exact ⟨hbelow, hnormal⟩
  · rintro ⟨hbelow, hnormal⟩
    rw [← units_mul_div hk] at hbelow hnormal
    exact ⟨hbelow, hnormal⟩

/-! ### The place that is chosen -/

/-- The numerator and denominator of a quotient in units of a power of two. -/
def inUnits (num den : Nat) (e : Int) : Nat × Nat :=
  match e with
  | .ofNat p => (num, den * Nat.pow 2 p)
  | .negSucc p => (num * Nat.pow 2 (p + 1), den)

/-- The exponent that is tried first. -/
def guess (num den : Nat) : Int := max ((num.log2 : Int) - den.log2 - 53) (-1074)

/-- The exponent that is taken. -/
def chosen (num den : Nat) : Int :=
  if Nat.pow 2 53 ≤ (inUnits num den (guess num den)).1 / (inUnits num den (guess num den)).2 then
    guess num den + 1
  else guess num den

theorem roundedBits_chosen (num den : Nat) :
    roundedBits num den =
      min ((chosen num den + 1074).toNat * Nat.pow 2 52 +
          roundHalfEven (inUnits num den (chosen num den)).1 (inUnits num den (chosen num den)).2)
        (2047 * Nat.pow 2 52) := rfl

theorem roundHalfEven_mul {k : Nat} (hk : 0 < k) (num den : Nat) :
    roundHalfEven (num * k) (den * k) = roundHalfEven num den := by
  have hdiv : num * k / (den * k) = num / den := Nat.mul_div_mul_right _ _ hk
  have hmod : num * k % (den * k) = num % den * k := Nat.mul_mod_mul_right k num den
  have hdouble : 2 * (num % den * k) = 2 * (num % den) * k := (Nat.mul_assoc 2 _ k).symm
  simp only [roundHalfEven, hdiv, hmod, hdouble, Nat.mul_lt_mul_right hk]

/-- Units of the exponent against units of the least one. -/
theorem exists_inUnits_mul (num den n : Nat) :
    ∃ k, 0 < k ∧ units num = (inUnits num den ((n : Int) - leastPower)).1 * k ∧
      den * 2 ^ n = (inUnits num den ((n : Int) - leastPower)).2 * k := by
  by_cases h : leastPower ≤ n
  · obtain ⟨p, rfl⟩ := Nat.exists_eq_add_of_le h
    have he : ((leastPower + p : Nat) : Int) - leastPower = .ofNat p := by
      show _ = (p : Int)
      omega
    refine ⟨2 ^ leastPower, Nat.two_pow_pos _, ?_, ?_⟩
    · rw [he]
      rfl
    · rw [he]
      show den * 2 ^ (leastPower + p) = den * 2 ^ p * 2 ^ leastPower
      rw [Nat.mul_assoc, ← Nat.pow_add, Nat.add_comm p]
  · obtain ⟨p, hp⟩ := Nat.exists_eq_add_of_lt (Nat.lt_of_not_le h)
    have he : (n : Int) - leastPower = .negSucc p := by omega
    refine ⟨2 ^ n, Nat.two_pow_pos _, ?_, ?_⟩
    · rw [he]
      show num * 2 ^ leastPower = num * 2 ^ (p + 1) * 2 ^ n
      rw [Nat.mul_assoc, ← Nat.pow_add, show p + 1 + n = leastPower by omega]
    · rw [he]
      rfl

theorem inUnits_div (num den n : Nat) :
    (inUnits num den ((n : Int) - leastPower)).1 / (inUnits num den ((n : Int) - leastPower)).2 =
      units num / (den * 2 ^ n) := by
  obtain ⟨k, hk, hnum, hden⟩ := exists_inUnits_mul num den n
  rw [hnum, hden, Nat.mul_div_mul_right _ _ hk]

theorem roundHalfEven_inUnits (num den n : Nat) :
    roundHalfEven (inUnits num den ((n : Int) - leastPower)).1
        (inUnits num den ((n : Int) - leastPower)).2 =
      roundHalfEven (units num) (den * 2 ^ n) := by
  obtain ⟨k, hk, hnum, hden⟩ := exists_inUnits_mul num den n
  rw [hnum, hden, roundHalfEven_mul hk]

/-- The binary lengths bound the quotient from above. -/
theorem div_lt_of_log2_le {num den n k : Nat} (hden : 0 < den)
    (h : num.log2 + 1 + leastPower ≤ den.log2 + n + k) : units num / (den * 2 ^ n) < 2 ^ k := by
  rw [Nat.div_lt_iff_lt_mul (Nat.mul_pos hden (Nat.two_pow_pos n))]
  calc units num < 2 ^ (num.log2 + 1) * 2 ^ leastPower :=
        Nat.mul_lt_mul_of_pos_right Nat.lt_log2_self (Nat.two_pow_pos _)
    _ = 2 ^ (num.log2 + 1 + leastPower) := (Nat.pow_add ..).symm
    _ ≤ 2 ^ (den.log2 + n + k) := Nat.pow_le_pow_right Nat.two_pos h
    _ = 2 ^ k * (2 ^ den.log2 * 2 ^ n) := by ring
    _ ≤ 2 ^ k * (den * 2 ^ n) :=
        Nat.mul_le_mul_left _ (Nat.mul_le_mul_right _ (Nat.log2_self_le hden.ne'))

/-- The binary lengths bound the quotient from below. -/
theorem le_div_of_le_log2 {num den n k : Nat} (hnum : 0 < num) (hden : 0 < den)
    (h : den.log2 + 1 + n + k ≤ num.log2 + leastPower) : 2 ^ k ≤ units num / (den * 2 ^ n) := by
  rw [Nat.le_div_iff_mul_le (Nat.mul_pos hden (Nat.two_pow_pos n))]
  calc 2 ^ k * (den * 2 ^ n) ≤ 2 ^ k * (2 ^ (den.log2 + 1) * 2 ^ n) :=
        Nat.mul_le_mul_left _ (Nat.mul_le_mul_right _ (Nat.le_of_lt Nat.lt_log2_self))
    _ = 2 ^ (den.log2 + 1 + n + k) := by ring
    _ ≤ 2 ^ (num.log2 + leastPower) := Nat.pow_le_pow_right Nat.two_pos h
    _ = 2 ^ num.log2 * 2 ^ leastPower := Nat.pow_add ..
    _ ≤ units num := Nat.mul_le_mul_right _ (Nat.log2_self_le hnum.ne')

/-- What is chosen is the place of the quotient. -/
theorem exists_chosen {num den : Nat} (hnum : 0 < num) (hden : 0 < den) :
    ∃ n : Nat, chosen num den = (n : Int) - leastPower ∧ IsPlace num den n := by
  obtain ⟨m, hm⟩ : ∃ m : Nat, guess num den = (m : Int) - leastPower :=
    ⟨(guess num den + 1074).toNat, by unfold guess leastPower; omega⟩
  have hlower : m = 0 ∨ 2 ^ 52 ≤ units num / (den * 2 ^ m) := by
    refine or_iff_not_imp_left.2 fun hzero => le_div_of_le_log2 hnum hden ?_
    unfold guess at hm
    unfold leastPower at hm ⊢
    omega
  have hupper : units num / (den * 2 ^ m) < 2 ^ 54 := by
    refine div_lt_of_log2_le hden ?_
    unfold guess at hm
    unfold leastPower at hm ⊢
    omega
  unfold chosen
  rw [hm, inUnits_div]
  -- A quotient of fifty-four bits goes to the next place.
  split
  · next htoo =>
    have htoo : 2 ^ 53 ≤ units num / (den * 2 ^ m) := htoo
    refine ⟨m + 1, by omega, ?_, .inr ?_⟩
    · rw [div_place_succ]
      omega
    · rw [div_place_succ]
      omega
  · next hfits => exact ⟨m, rfl, Nat.lt_of_not_le hfits, hlower⟩

theorem roundedBits_eq {num den n : Nat} (hnum : 0 < num) (hden : 0 < den)
    (h : IsPlace num den n) :
    roundedBits num den =
      min (n * 2 ^ 52 + roundHalfEven (units num) (den * 2 ^ n)) (2047 * 2 ^ 52) := by
  obtain ⟨m, hm, hplace⟩ := exists_chosen hnum hden
  obtain rfl := hplace.unique h
  rw [roundedBits_chosen, hm, roundHalfEven_inUnits]
  have hplus : ((m : Int) - leastPower + 1074).toNat = m := by
    unfold leastPower
    omega
  simp only [hplus, Nat.pow_eq]

/-! ### What the bits depend on -/

theorem roundedBits_mul {k : Nat} (hk : 0 < k) {num den : Nat} (hnum : 0 < num) (hden : 0 < den) :
    roundedBits (num * k) (den * k) = roundedBits num den := by
  obtain ⟨n, -, hplace⟩ := exists_chosen hnum hden
  have hunits : units (num * k) = units num * k := Nat.mul_right_comm num k _
  rw [roundedBits_eq hnum hden hplace, roundedBits_eq (Nat.mul_pos hnum hk) (Nat.mul_pos hden hk)
    ((isPlace_mul_iff hk).2 hplace), hunits, Nat.mul_right_comm den k, roundHalfEven_mul hk]

/-- Equal quotients are rounded to equal numbers. -/
theorem ofQuotient_mul {k : Nat} (hk : 0 < k) (neg : Bool) (num : Nat) {den : Nat}
    (hden : 0 < den) : ofQuotient neg (num * k) (den * k) = ofQuotient neg num den := by
  rcases Nat.eq_zero_or_pos num with rfl | hnum
  · simp only [ofQuotient, Nat.zero_mul, if_true]
  · have hprod : num * k ≠ 0 := (Nat.mul_pos hnum hk).ne'
    simp only [ofQuotient, hprod, hnum.ne', if_false, roundedBits_mul hk hnum hden]

/-- A number of units at its place keeps all of its bits. -/
theorem roundedBits_exact {num den n significand : Nat} (hnum : 0 < num) (hden : 0 < den)
    (hunits : units num = significand * (den * 2 ^ n)) (hbelow : significand < 2 ^ 53)
    (hnormal : n = 0 ∨ 2 ^ 52 ≤ significand) :
    roundedBits num den = min (n * 2 ^ 52 + significand) (2047 * 2 ^ 52) := by
  have hpos : 0 < den * 2 ^ n := Nat.mul_pos hden (Nat.two_pow_pos n)
  have hdiv : units num / (den * 2 ^ n) = significand := by
    rw [hunits, Nat.mul_div_cancel _ hpos]
  have hrounded : roundHalfEven (units num) (den * 2 ^ n) = significand := by
    have hrest : units num % (den * 2 ^ n) = 0 := by rw [hunits, Nat.mul_mod_left]
    simp only [roundHalfEven, hdiv, hrest, Nat.mul_zero, if_pos hpos]
  rw [roundedBits_eq hnum hden ⟨hdiv ▸ hbelow, hdiv.symm ▸ hnormal⟩, hrounded]

end TsxLint.Binary64
