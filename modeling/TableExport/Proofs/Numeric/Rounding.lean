import Mathlib
import TableExport.Numeric.Binary64

/-!
# Values of doubles and bounds of rounding

The value of a finite double is a rational, and `Binary64.truncated` is the value cut toward zero
(`truncated_eq`). Rounding a quotient does not lead past a bound that lies on the grid of the result
(`exists_ofRatio_le`); the grid gets coarser only with the quotient (`exponentOf_le`). A natural
number of at most 53 bits is a double itself (`exists_ofRatio_eq`).
-/

namespace TableExport.Binary64

/-! ## Values -/

/-- The magnitude of a finite number. -/
def magnitude (mantissa : ℕ) (exponent : ℤ) : ℚ := mantissa * 2 ^ exponent

/-- The value of a finite number, and zero for what is no number. -/
def toRat : Binary64 → ℚ
  | .finite negative mantissa exponent =>
    if negative then -magnitude mantissa exponent else magnitude mantissa exponent
  | _ => 0

/-- A rational cut toward zero. -/
def towardZero (q : ℚ) : ℤ := if q < 0 then ⌈q⌉ else ⌊q⌋

theorem magnitude_nonneg (mantissa : ℕ) (exponent : ℤ) : 0 ≤ magnitude mantissa exponent := by
  unfold magnitude
  positivity

theorem ratio_snd_pos (mantissa : ℕ) (exponent : ℤ) : 0 < (ratio mantissa exponent).2 := by
  rw [ratio]
  split
  · exact Nat.pow_pos (by decide)
  · exact Nat.one_pos

/-- A magnitude is the quotient of its two naturals. -/
theorem ratio_eq (mantissa : ℕ) (exponent : ℤ) :
    ((ratio mantissa exponent).1 : ℚ) / (ratio mantissa exponent).2 =
      magnitude mantissa exponent := by
  rw [ratio, magnitude]
  split
  · rename_i hneg
    obtain ⟨k, rfl⟩ := Int.exists_eq_neg_ofNat hneg.le
    simp [zpow_neg, div_eq_mul_inv]
  · rename_i hpos
    obtain ⟨k, rfl⟩ := Int.eq_ofNat_of_zero_le (not_lt.1 hpos)
    simp

theorem fraction_finite (negative : Bool) (mantissa : ℕ) (exponent : ℤ) :
    (finite negative mantissa exponent).fraction =
      ofRatio negative ((ratio mantissa exponent).1 % (ratio mantissa exponent).2)
        (ratio mantissa exponent).2 := rfl

theorem mul_finite (s t : Bool) (m n : ℕ) (e f : ℤ) :
    (finite s m e).mul (finite t n f) =
      ofRatio (s != t) ((ratio m e).1 * (ratio n f).1) ((ratio m e).2 * (ratio n f).2) := rfl

theorem rounded_finite (negative : Bool) (mantissa : ℕ) (exponent : ℤ) :
    (finite negative mantissa exponent).rounded =
      some (withSign negative ((2 * (ratio mantissa exponent).1 + (ratio mantissa exponent).2) /
        (2 * (ratio mantissa exponent).2))) := rfl

theorem floor_magnitude (mantissa : ℕ) (exponent : ℤ) :
    ⌊magnitude mantissa exponent⌋ =
      ((ratio mantissa exponent).1 / (ratio mantissa exponent).2 : ℕ) := by
  rw [← ratio_eq, Int.natCast_div]
  exact Rat.floor_intCast_div_natCast ..

/-- The integer part of a finite number is its value cut toward zero. -/
theorem truncated_eq {number : Binary64} (h : number.isFinite = true) :
    number.truncated = some (towardZero number.toRat) := by
  cases number with
  | infinite => cases h
  | nan => cases h
  | finite negative mantissa exponent =>
    have hnonneg := magnitude_nonneg mantissa exponent
    simp only [truncated, Option.some.injEq, withSign, toRat, towardZero, ← floor_magnitude]
    cases negative with
    | false => simp [not_lt.2 hnonneg]
    | true =>
      rcases hnonneg.eq_or_lt with hzero | hpos
      · simp [← hzero]
      · simp [hpos, Int.ceil_neg]

/-! ## Rounding -/

/-- A quotient that is at most an integer is not rounded past it. -/
theorem divNearestEven_le {num den bound : ℕ} (hden : 0 < den) (h : num ≤ bound * den) :
    divNearestEven num den ≤ bound := by
  have hdiv : num / den * den + num % den = num := Nat.div_add_mod' num den
  have hle : num / den ≤ bound := Nat.div_le_of_le_mul (by rwa [Nat.mul_comm] at h)
  rcases hle.eq_or_lt with heq | hlt
  · have hmod : num % den = 0 := by
      rw [heq] at hdiv
      omega
    rw [divNearestEven, hmod]
    simp [hden, hle]
  · have := Nat.mod_lt (num / den) (show 2 > 0 by decide)
    simp only [divNearestEven]
    split_ifs <;> omega

theorem scaledNearestEven_le {num den bound : ℕ} {exponent : ℤ} (hden : 0 < den)
    (h : (num : ℚ) ≤ magnitude bound exponent * den) :
    scaledNearestEven num den exponent ≤ bound := by
  rw [scaledNearestEven]
  split
  · rename_i hneg
    obtain ⟨k, rfl⟩ := Int.exists_eq_neg_ofNat hneg.le
    refine divNearestEven_le hden ?_
    have hpow : (0 : ℚ) < 2 ^ k := by positivity
    rw [magnitude, zpow_neg, zpow_natCast, mul_assoc, mul_comm _ (den : ℚ), ← mul_assoc,
      ← div_eq_mul_inv, le_div_iff₀ hpow] at h
    rw [neg_neg, Int.toNat_natCast]
    exact_mod_cast h
  · rename_i hpos
    obtain ⟨k, rfl⟩ := Int.eq_ofNat_of_zero_le (not_lt.1 hpos)
    refine divNearestEven_le (Nat.mul_pos hden (Nat.pow_pos (by decide))) ?_
    rw [magnitude, zpow_natCast, mul_assoc, mul_comm _ (den : ℚ)] at h
    rw [Int.toNat_natCast, Nat.pow_eq]
    exact_mod_cast h

/-- A quotient below `2 ^ k` is rounded to a multiple of `2 ^ (k - 53)` or of a smaller power. -/
theorem exponentOf_le {num den k : ℕ} (hnum : num ≠ 0) (h : num < 2 ^ k * den) :
    exponentOf num den ≤ max ((k : ℤ) - 53) minExponent := by
  have hlog : num.log2 ≤ k + den.log2 := by
    have hlt : num < 2 ^ (k + (den.log2 + 1)) := by
      refine h.trans ?_
      rw [Nat.pow_add]
      exact Nat.mul_lt_mul_of_pos_left Nat.lt_log2_self (Nat.pow_pos (by decide))
    have := (Nat.log2_lt hnum).2 hlt
    omega
  rw [exponentOf]
  refine max_le_max ?_ le_rfl
  by_cases hguess : (num.log2 : ℤ) - den.log2 = k
  · -- the guess is one too high
    have hreach : ¬ den * 2 ^ k ≤ num := by
      rw [Nat.mul_comm]
      exact not_le.2 h
    simp only [hguess, Int.toNat_natCast, not_lt.2 (Int.natCast_nonneg k), if_false]
    simp only [Nat.pow_eq, hreach, decide_false, Bool.false_eq_true, if_false]
    omega
  · split_ifs <;> omega

/-- A whole number on the grid of an exponent is a number of its units. -/
theorem exists_eq_magnitude {bound : ℕ} {exponent : ℤ} (h : 2 ^ exponent.toNat ∣ bound) :
    ∃ units : ℕ, (bound : ℚ) = magnitude units exponent := by
  rcases le_or_gt 0 exponent with hpos | hneg
  · obtain ⟨units, hunits⟩ := h
    obtain ⟨k, rfl⟩ := Int.eq_ofNat_of_zero_le hpos
    refine ⟨units, ?_⟩
    rw [Int.toNat_natCast] at hunits
    rw [hunits, magnitude, zpow_natCast]
    push_cast
    ring
  · obtain ⟨k, rfl⟩ := Int.exists_eq_neg_ofNat hneg.le
    refine ⟨bound * 2 ^ k, ?_⟩
    rw [magnitude, zpow_neg, zpow_natCast]
    push_cast
    rw [mul_assoc, mul_inv_cancel₀ (by positivity), mul_one]

/-- A mantissa that has one bit too many is a power of two, with the next exponent. -/
theorem magnitude_carry (exponent : ℤ) :
    magnitude (2 ^ 52) (exponent + 1) = magnitude (2 ^ 53) exponent := by
  rw [magnitude, magnitude, zpow_add_one₀ two_ne_zero]
  norm_num
  ring

/-- **Rounding does not lead past a bound on the grid of the result.** -/
theorem exists_ofRatio_le (negative : Bool) {num den : ℕ} (bound k : ℕ) (hden : 0 < den)
    (h : num ≤ bound * den) (hnum : num < 2 ^ k * den) (hk : k ≤ 1000)
    (hgrid : 2 ^ (k - 53) ∣ bound) :
    ∃ mantissa exponent, ofRatio negative num den = .finite negative mantissa exponent ∧
      magnitude mantissa exponent ≤ bound := by
  by_cases hzero : num = 0
  · refine ⟨0, minExponent, by rw [ofRatio, if_pos hzero, zero], ?_⟩
    simp [magnitude]
  have hexponent : exponentOf num den ≤ max ((k : ℤ) - 53) minExponent := exponentOf_le hzero hnum
  have hsmall : exponentOf num den < maxExponent := by
    simp only [minExponent, maxExponent] at hexponent ⊢
    omega
  replace hgrid : 2 ^ (exponentOf num den).toNat ∣ bound := by
    refine (pow_dvd_pow 2 ?_).trans hgrid
    simp only [minExponent] at hexponent
    omega
  obtain ⟨units, hunits⟩ := exists_eq_magnitude hgrid
  have hmantissa : scaledNearestEven num den (exponentOf num den) ≤ units := by
    refine scaledNearestEven_le hden ?_
    rw [← hunits]
    exact_mod_cast h
  have hle : magnitude (scaledNearestEven num den (exponentOf num den)) (exponentOf num den) ≤
      bound := by
    rw [hunits]
    exact mul_le_mul_of_nonneg_right (by exact_mod_cast hmantissa) (by positivity)
  simp only [ofRatio, if_neg hzero]
  split_ifs with hcarry hinf hinf
  · simp only at hinf
    omega
  · refine ⟨2 ^ 52, exponentOf num den + 1, rfl, ?_⟩
    rwa [magnitude_carry, ← Nat.pow_eq, ← hcarry]
  · simp only at hinf
    omega
  · exact ⟨_, _, rfl, hle⟩

/-! ## Whole numbers -/

theorem divNearestEven_one (n : ℕ) : divNearestEven n 1 = n := by
  simp [divNearestEven, Nat.mod_one]

/-- A number of at most 53 bits is held in units that are no whole numbers, or just those. -/
theorem exponentOf_one {n : ℕ} (hn : n ≠ 0) : exponentOf n 1 = (n.log2 : ℤ) - 52 := by
  have hreach : 1 * 2 ^ n.log2 ≤ n := by
    rw [Nat.one_mul]
    exact Nat.log2_self_le hn
  have hone : Nat.log2 1 = 0 := by decide
  simp only [exponentOf, hone, Nat.cast_zero, sub_zero, not_lt.2 (Int.natCast_nonneg _), if_false,
    Int.toNat_natCast, Nat.pow_eq, hreach, decide_true, if_true, minExponent]
  omega

/-- **A natural number below `2 ^ 53` is a double without rounding.** -/
theorem exists_ofRatio_eq (negative : Bool) {n : ℕ} (h : n < 2 ^ 53) :
    ∃ mantissa exponent, ofRatio negative n 1 = .finite negative mantissa exponent ∧
      magnitude mantissa exponent = n := by
  by_cases hzero : n = 0
  · exact ⟨0, minExponent, by rw [ofRatio, if_pos hzero, zero], by simp [magnitude, hzero]⟩
  obtain ⟨k, hk⟩ : ∃ k : ℕ, n.log2 + k = 52 :=
    ⟨52 - n.log2, by have := (Nat.log2_lt hzero).2 h; omega⟩
  have hexponent : exponentOf n 1 = -(k : ℤ) := by
    rw [exponentOf_one hzero]
    omega
  have hmantissa : scaledNearestEven n 1 (-(k : ℤ)) = n * 2 ^ k := by
    rw [scaledNearestEven]
    split
    · rw [neg_neg, Int.toNat_natCast, divNearestEven_one, Nat.pow_eq]
    · have hk : k = 0 := by omega
      rw [hk]
      exact (divNearestEven_one n).trans (Nat.mul_one n).symm
  have hlt : n * 2 ^ k < 2 ^ 53 := by
    calc n * 2 ^ k < 2 ^ (n.log2 + 1) * 2 ^ k :=
          Nat.mul_lt_mul_of_pos_right Nat.lt_log2_self (Nat.pow_pos (by decide))
      _ = 2 ^ 53 := by rw [← Nat.pow_add]; congr 1; omega
  refine ⟨n * 2 ^ k, -(k : ℤ), ?_, ?_⟩
  · simp only [ofRatio, if_neg hzero, hexponent, hmantissa, Nat.pow_eq, if_neg hlt.ne]
    rw [if_neg (by simp only [maxExponent]; omega)]
  · rw [magnitude, zpow_neg, zpow_natCast]
    push_cast
    rw [mul_assoc, mul_inv_cancel₀ (by positivity), mul_one]

end TableExport.Binary64
