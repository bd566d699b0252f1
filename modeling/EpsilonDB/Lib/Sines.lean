import Mathlib.Analysis.Complex.Trigonometric
import Mathlib.Analysis.SpecialFunctions.Complex.Circle
import Mathlib.NumberTheory.Zsqrtd.GaussianInt

/-!
# Digits of sines

The sine of a natural number, enclosed between rational numbers: the exponential series at `i` is
a quotient of Gaussian integers, whose powers come near the powers of `exp i`.

- `series`: the terms up to `i ^ m / m!`, as a numerator over `m!`.
- `abs_sin_sub_le`: how far the imaginary part of a power is from the sine.
- `floor_abs_sin`: the leading digits of a sine, by integer comparisons.
-/

namespace Sines

open Complex Finset

/-- The imaginary unit. -/
def unit : GaussianInt := ⟨0, 1⟩

/-- `m! * ∑ j ≤ m, i ^ j / j!`. -/
def series : Nat → GaussianInt
  | 0 => 1
  | m + 1 => (m + 1 : Nat) * series m + unit ^ (m + 1)

theorem toComplex_unit : (unit : ℂ) = I := by
  rw [unit, GaussianInt.toComplex_def₂, Int.cast_zero, Int.cast_one]
  rfl

theorem toComplex_series (m : Nat) :
    (series m : ℂ) = m.factorial * ∑ j ∈ range (m + 1), I ^ j / j.factorial := by
  induction m with
  | zero => simp [series]
  | succ m ih =>
    have hne : ((m + 1).factorial : ℂ) ≠ 0 := Nat.cast_ne_zero.mpr (Nat.factorial_ne_zero _)
    rw [series, map_add, map_mul, map_pow, map_natCast, ih, toComplex_unit, sum_range_succ _ (m + 1),
      mul_add, mul_div_cancel₀ _ hne, Nat.factorial_succ, Nat.cast_mul, mul_assoc]

/-- The series over its denominator is near `exp i`. -/
theorem norm_exp_sub_le (m : Nat) :
    ‖exp I - (series m : ℂ) / m.factorial‖ ≤ (m + 2) / ((m + 1).factorial * (m + 1)) := by
  have hne : (m.factorial : ℂ) ≠ 0 := Nat.cast_ne_zero.mpr (Nat.factorial_ne_zero _)
  have hbound := exp_bound (x := I) (by rw [norm_I]) (n := m + 1) m.succ_pos
  rw [toComplex_series, mul_div_cancel_left₀ _ hne]
  refine hbound.trans (le_of_eq ?_)
  rw [norm_I, one_pow, one_mul, div_eq_mul_inv]
  push_cast
  ring

/-- Powers of numbers that are near to each other. -/
theorem norm_pow_sub_pow_le {x y : ℂ} (hx : ‖x‖ ≤ 1) (hy : ‖y‖ ≤ 2) (n : Nat) :
    ‖x ^ n - y ^ n‖ ≤ 2 ^ n * ‖x - y‖ := by
  induction n with
  | zero => simp
  | succ n ih =>
    have hsplit : x ^ (n + 1) - y ^ (n + 1) = x * (x ^ n - y ^ n) + (x - y) * y ^ n := by ring
    have hpow : ‖y ^ n‖ ≤ 2 ^ n := by
      rw [norm_pow]
      exact pow_le_pow_left₀ (norm_nonneg y) hy n
    calc ‖x ^ (n + 1) - y ^ (n + 1)‖ ≤ ‖x * (x ^ n - y ^ n)‖ + ‖(x - y) * y ^ n‖ := by
          rw [hsplit]
          exact norm_add_le _ _
      _ ≤ 1 * (2 ^ n * ‖x - y‖) + ‖x - y‖ * 2 ^ n := by
          rw [norm_mul, norm_mul]
          gcongr
      _ = 2 ^ (n + 1) * ‖x - y‖ := by ring

variable {m n : Nat}

/-- How far a power of the series is from the sine, at most. -/
theorem abs_sin_sub_le (hm : ((m : ℝ) + 2) / ((m + 1).factorial * (m + 1)) ≤ 1) (n : Nat) :
    |Real.sin n - ((series m ^ n).im : ℝ) / (m.factorial : ℝ) ^ n| ≤
      2 ^ n * ((m + 2) / ((m + 1).factorial * (m + 1))) := by
  have hnear := norm_exp_sub_le m
  have hexp : ‖exp I‖ ≤ 1 := by
    have h := norm_exp_ofReal_mul_I 1
    rw [ofReal_one, one_mul] at h
    exact h.le
  have hy : ‖(series m : ℂ) / m.factorial‖ ≤ 2 := by
    have htri := norm_sub_norm_le ((series m : ℂ) / m.factorial) (exp I)
    rw [norm_sub_rev] at htri
    linarith
  have hpow := norm_pow_sub_pow_le hexp hy n
  have hsin : (exp I ^ n).im = Real.sin n := by
    rw [← exp_nat_mul, ← ofReal_natCast, exp_ofReal_mul_I_im]
  have hseries : (((series m : ℂ) / m.factorial) ^ n).im =
      ((series m ^ n).im : ℝ) / (m.factorial : ℝ) ^ n := by
    rw [div_pow, ← map_pow, ← Nat.cast_pow, div_natCast_im, ← GaussianInt.intCast_im, Nat.cast_pow]
  rw [← hsin, ← hseries, ← sub_im]
  exact (abs_im_le_norm _).trans (hpow.trans (by gcongr))

/-- **The leading digits of a sine**, where the power of the series is clear of the next number. -/
theorem floor_abs_sin (hm : ((m : ℝ) + 2) / ((m + 1).factorial * (m + 1)) ≤ 1) {s k : Nat}
    (hlow : k * (m.factorial ^ n * ((m + 1).factorial * (m + 1))) +
      2 ^ s * (2 ^ n * (m + 2) * m.factorial ^ n) ≤
        2 ^ s * ((series m ^ n).im.natAbs * ((m + 1).factorial * (m + 1))))
    (hhigh : 2 ^ s * ((series m ^ n).im.natAbs * ((m + 1).factorial * (m + 1)) +
      2 ^ n * (m + 2) * m.factorial ^ n) <
        (k + 1) * (m.factorial ^ n * ((m + 1).factorial * (m + 1)))) :
    ⌊(2 : ℝ) ^ s * |Real.sin n|⌋₊ = k := by
  have hdist := abs_sin_sub_le hm n
  generalize hb : (series m ^ n).im = b at hdist hlow hhigh
  have hD : (0 : ℝ) < (m.factorial : ℝ) ^ n := by positivity
  have hE : (0 : ℝ) < ((m + 1).factorial : ℝ) * (m + 1) := by positivity
  have hs : (0 : ℝ) < 2 ^ s := by positivity
  have habs : |((b : ℝ) / (m.factorial : ℝ) ^ n)| = (b.natAbs : ℝ) / (m.factorial : ℝ) ^ n := by
    rw [abs_div, abs_of_pos hD, Nat.cast_natAbs, Int.cast_abs]
  have hdiff := abs_abs_sub_abs_le_abs_sub (Real.sin n) ((b : ℝ) / (m.factorial : ℝ) ^ n)
  rw [habs] at hdiff
  obtain ⟨hleft, hright⟩ := abs_le.mp (hdiff.trans hdist)
  -- the two bounds on integers, divided by what they were multiplied with
  have hlow' : (k : ℝ) * ((m.factorial : ℝ) ^ n * (((m + 1).factorial : ℝ) * (m + 1))) +
      2 ^ s * (2 ^ n * (m + 2) * (m.factorial : ℝ) ^ n) ≤
        2 ^ s * (b.natAbs * (((m + 1).factorial : ℝ) * (m + 1))) := by exact_mod_cast hlow
  have hhigh' : (2 : ℝ) ^ s * (b.natAbs * (((m + 1).factorial : ℝ) * (m + 1)) +
      2 ^ n * (m + 2) * (m.factorial : ℝ) ^ n) <
        (k + 1) * ((m.factorial : ℝ) ^ n * (((m + 1).factorial : ℝ) * (m + 1))) := by
    exact_mod_cast hhigh
  generalize (m.factorial : ℝ) ^ n = Dn at *
  generalize ((m + 1).factorial : ℝ) * (m + 1) = E at *
  -- the sine is as near to its series as the remainder says, on either side
  rw [Nat.floor_eq_iff (by positivity)]
  constructor
  · calc (k : ℝ) ≤ 2 ^ s * (b.natAbs / Dn - 2 ^ n * ((m + 2) / E)) := by
          have hsplit : (2 : ℝ) ^ s * (b.natAbs / Dn - 2 ^ n * ((m + 2) / E)) =
              (2 ^ s * (b.natAbs * E) - 2 ^ s * (2 ^ n * (m + 2) * Dn)) / (Dn * E) := by
            field_simp
          rw [hsplit, le_div_iff₀ (mul_pos hD hE)]
          linarith
      _ ≤ 2 ^ s * |Real.sin n| := by
          gcongr
          linarith
  · calc (2 : ℝ) ^ s * |Real.sin n| ≤ 2 ^ s * (b.natAbs / Dn + 2 ^ n * ((m + 2) / E)) := by
          gcongr
          linarith
      _ < k + 1 := by
          have hsplit : (2 : ℝ) ^ s * (b.natAbs / Dn + 2 ^ n * ((m + 2) / E)) =
              (2 ^ s * (b.natAbs * E + 2 ^ n * (m + 2) * Dn)) / (Dn * E) := by
            field_simp
          rw [hsplit, div_lt_iff₀ (mul_pos hD hE)]
          exact hhigh'

end Sines
