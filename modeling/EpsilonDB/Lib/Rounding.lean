import Mathlib.Algebra.Order.Ring.Nat
import Mathlib.Data.Nat.Log
import Mathlib.Tactic.Linarith
import Mathlib.Tactic.Ring

/-!
# Rounding to significant digits

Natural numbers rounded to a number of significant digits of a base, ties to even. Base two
with 53 digits are the integral doubles.

- `nearest u n`: the multiple of `u` nearest to `n`.
- `toDigits b p n`: `n` rounded to `p` digits of base `b`; `Fits b p n`: it has no more.
- `fits_toDigits`: what is rounded fits.
- `toDigits_toDigits`: a number that fits in `p` digits of one base is read back from `q`
  digits of another one when `b ^ p < c ^ (q - 1)`.
-/

namespace Rounding

/-! ## Multiples -/

/-- The multiple of `u` nearest to `n`, the even one of two. -/
def nearest (u n : ℕ) : ℕ :=
  if 2 * (n % u) < u ∨ (2 * (n % u) = u ∧ n / u % 2 = 0) then u * (n / u)
  else u * (n / u + 1)

theorem dvd_nearest (u n : ℕ) : u ∣ nearest u n := by
  unfold nearest
  split
  · exact Dvd.intro _ rfl
  · exact Dvd.intro _ rfl

/-- It is at most half a unit away. -/
theorem nearest_bounds {u : ℕ} (hu : 0 < u) (n : ℕ) :
    2 * nearest u n ≤ 2 * n + u ∧ 2 * n ≤ 2 * nearest u n + u := by
  have hdiv : u * (n / u) + n % u = n := Nat.div_add_mod n u
  have hmod : n % u < u := Nat.mod_lt n hu
  unfold nearest
  split
  · next h => omega
  · next h =>
    rw [Nat.mul_add, Nat.mul_one]
    omega

/-- Multiples that are less than one unit apart are equal. -/
theorem eq_of_dvd_of_close {u m m' : ℕ} (hm : u ∣ m) (hm' : u ∣ m') (h : m < m' + u)
    (h' : m' < m + u) : m = m' := by
  obtain ⟨k, rfl⟩ := hm
  obtain ⟨k', rfl⟩ := hm'
  have hle : k < k' + 1 := Nat.lt_of_mul_lt_mul_left (a := u) (by rw [Nat.mul_add]; omega)
  have hge : k' < k + 1 := Nat.lt_of_mul_lt_mul_left (a := u) (by rw [Nat.mul_add]; omega)
  rw [show k = k' by omega]

/-- A multiple that is less than half a unit away is the nearest. -/
theorem nearest_of_close {u m n : ℕ} (hu : 0 < u) (hm : u ∣ m) (h : 2 * m < 2 * n + u)
    (h' : 2 * n < 2 * m + u) : nearest u n = m := by
  obtain ⟨hle, hge⟩ := nearest_bounds hu n
  exact eq_of_dvd_of_close (dvd_nearest u n) hm (by omega) (by omega)

theorem nearest_of_dvd {u n : ℕ} (hu : 0 < u) (h : u ∣ n) : nearest u n = n :=
  nearest_of_close hu h (by omega) (by omega)

/-- Rounding does not pass a multiple. -/
theorem nearest_le {u m n : ℕ} (hu : 0 < u) (hm : u ∣ m) (h : n ≤ m) : nearest u n ≤ m := by
  obtain ⟨hle, -⟩ := nearest_bounds hu n
  by_contra hlt
  have heq : nearest u n = m := eq_of_dvd_of_close (dvd_nearest u n) hm (by omega) (by omega)
  omega

theorem le_nearest {u m n : ℕ} (hu : 0 < u) (hm : u ∣ m) (h : m ≤ n) : m ≤ nearest u n := by
  obtain ⟨-, hge⟩ := nearest_bounds hu n
  by_contra hlt
  have heq : nearest u n = m := eq_of_dvd_of_close (dvd_nearest u n) hm (by omega) (by omega)
  omega

/-! ## Significant digits -/

/-- The weight of the last of `p` digits of `n` in base `b`. -/
def ulp (b p n : ℕ) : ℕ := b ^ (Nat.log b n + 1 - p)

/-- `n` to `p` significant digits. -/
def toDigits (b p n : ℕ) : ℕ := nearest (ulp b p n) n

/-- `n` has at most `p` significant digits. -/
def Fits (b p n : ℕ) : Prop := ulp b p n ∣ n

instance (b p n : ℕ) : Decidable (Fits b p n) := inferInstanceAs (Decidable (_ ∣ _))

variable {b c p q n : ℕ}

theorem ulp_pos (hb : 1 < b) (p n : ℕ) : 0 < ulp b p n := Nat.pow_pos (by omega)

theorem toDigits_of_fits (hb : 1 < b) (h : Fits b p n) : toDigits b p n = n :=
  nearest_of_dvd (ulp_pos hb p n) h

theorem fits_of_lt (h : n < b ^ p) : Fits b p n := by
  rcases eq_or_ne n 0 with rfl | hn
  · exact Dvd.intro 0 rfl
  · have hlog : Nat.log b n < p := Nat.log_lt_of_lt_pow hn h
    rw [Fits, ulp, show Nat.log b n + 1 - p = 0 by omega, Nat.pow_zero]
    exact Nat.one_dvd n

theorem toDigits_zero (hb : 1 < b) (p : ℕ) : toDigits b p 0 = 0 :=
  toDigits_of_fits hb (Dvd.intro 0 rfl)

/-- The digits of numbers between two powers have one weight. -/
theorem ulp_of_log {k : ℕ} (hlow : b ^ k ≤ n) (hhigh : n < b ^ (k + 1)) :
    ulp b p n = b ^ (k + 1 - p) := by
  rw [ulp, Nat.log_eq_of_pow_le_of_lt_pow hlow hhigh]

/-- **Rounding gives no more digits**, a carry into a new one included. -/
theorem fits_toDigits (hb : 1 < b) (hp : 0 < p) (n : ℕ) : Fits b p (toDigits b p n) := by
  rcases eq_or_ne n 0 with rfl | hn
  · rw [toDigits_zero hb]
    exact Dvd.intro 0 rfl
  · have hlow : b ^ Nat.log b n ≤ n := Nat.pow_log_le_self b hn
    have hhigh : n < b ^ (Nat.log b n + 1) := Nat.lt_pow_succ_log_self hb n
    have hu := ulp_pos hb p n
    have hdvd : ulp b p n ∣ toDigits b p n := dvd_nearest _ n
    have hlow' : b ^ Nat.log b n ≤ toDigits b p n :=
      le_nearest hu (Nat.pow_dvd_pow b (by omega)) hlow
    have hhigh' : toDigits b p n ≤ b ^ (Nat.log b n + 1) :=
      nearest_le hu (Nat.pow_dvd_pow b (by omega)) hhigh.le
    rcases hhigh'.lt_or_eq with hlt | hcarry
    · rw [Fits, ulp_of_log hlow' hlt]
      exact hdvd
    · rw [Fits, hcarry, ulp, Nat.log_pow hb]
      exact Nat.pow_dvd_pow b (by omega)

/-- Between two powers a number is rounded to the multiple it is closest to. -/
theorem toDigits_of_close {k m : ℕ} (hb : 1 < b) (hlow : b ^ k ≤ m) (hhigh : m < b ^ (k + 1))
    (hdvd : b ^ (k + 1 - p) ∣ n) (h : 2 * n < 2 * m + b ^ (k + 1 - p))
    (h' : 2 * m < 2 * n + b ^ (k + 1 - p)) : toDigits b p m = n := by
  rw [toDigits, ulp_of_log hlow hhigh]
  exact nearest_of_close (Nat.pow_pos (by omega)) hdvd h h'

/-- A number that fits is found again from another one that is nearer than one part in
`2 * b ^ p`. Below a power of the base the digits weigh less, but so does that part. -/
theorem toDigits_of_near (hb : 1 < b) (hp : 0 < p) {m w : ℕ} (hfits : Fits b p n)
    (hw : w * b ^ p < n) (hm : 2 * m ≤ 2 * n + w) (hm' : 2 * n ≤ 2 * m + w) :
    toDigits b p m = n := by
  have hn : n ≠ 0 := by omega
  have hlow : b ^ Nat.log b n ≤ n := Nat.pow_log_le_self b hn
  have hhigh : n < b ^ (Nat.log b n + 1) := Nat.lt_pow_succ_log_self hb n
  rw [Fits, ulp] at hfits
  generalize Nat.log b n = k at hlow hhigh hfits
  rcases Nat.eq_zero_or_pos w with rfl | hpos
  · obtain rfl : m = n := by omega
    have hunit : 0 < b ^ (k + 1 - p) := Nat.pow_pos (by omega)
    exact toDigits_of_close hb hlow hhigh hfits (by omega) (by omega)
  · have hbp : 0 < b ^ p := Nat.pow_pos (by omega)
    have hpk : p ≤ k := by
      have hlt : b ^ p < b ^ (k + 1) := (Nat.le_mul_of_pos_left _ hpos).trans_lt (hw.trans hhigh)
      exact Nat.lt_succ_iff.mp ((Nat.pow_lt_pow_iff_right hb).mp hlt)
    have hunit : w < b ^ (k + 1 - p) := by
      refine Nat.lt_of_mul_lt_mul_right (a := b ^ p) (hw.trans (hhigh.trans_eq ?_))
      rw [← Nat.pow_add, Nat.sub_add_cancel (by omega)]
    rcases Nat.lt_or_ge m (b ^ k) with hbelow | habove
    · -- `n` is the power itself and `m` lies under it, where the digits weigh less
      have hpower : n = b ^ k :=
        eq_of_dvd_of_close hfits (Nat.pow_dvd_pow b (by omega)) (by omega) (by omega)
      have hfine : w < b ^ (k - p) := by
        refine Nat.lt_of_mul_lt_mul_right (a := b ^ p) ((hw.trans_eq hpower).trans_eq ?_)
        rw [← Nat.pow_add, Nat.sub_add_cancel hpk]
      have hstep : 2 * b ^ (k - 1) ≤ b ^ k := by
        calc 2 * b ^ (k - 1) ≤ b * b ^ (k - 1) := Nat.mul_le_mul_right _ hb
          _ = b ^ k := by rw [← Nat.pow_succ', Nat.succ_eq_add_one, Nat.sub_add_cancel (by omega)]
      have hfine' : b ^ (k - p) ≤ b ^ (k - 1) := Nat.pow_le_pow_right (by omega) (by omega)
      have hk : k - 1 + 1 = k := Nat.sub_add_cancel (by omega)
      refine toDigits_of_close (k := k - 1) hb (by omega) (by rwa [hk]) ?_ ?_ ?_
      · rw [hk, hpower]
        exact Nat.pow_dvd_pow b (Nat.sub_le k p)
      · rw [hk]
        omega
      · rw [hk]
        omega
    · have hroom : n + b ^ (k + 1 - p) ≤ b ^ (k + 1) := by
        by_contra hlt
        have heq : n = b ^ (k + 1) :=
          eq_of_dvd_of_close hfits (Nat.pow_dvd_pow b (Nat.sub_le _ _)) (by omega) (by omega)
        omega
      exact toDigits_of_close hb habove (by omega) hfits (by omega) (by omega)

/-- **Read back from another base**: `q` of its digits suffice for `p` when they are more
numbers. -/
theorem toDigits_toDigits (hb : 1 < b) (hc : 1 < c) (hp : 0 < p) (h : b ^ p < c ^ (q - 1))
    (hfits : Fits b p n) : toDigits b p (toDigits c q n) = n := by
  rcases eq_or_ne n 0 with rfl | hn
  · rw [toDigits_zero hc, toDigits_zero hb]
  rcases Nat.lt_or_ge (Nat.log c n) q with hfew | hmany
  · have hsame : toDigits c q n = n :=
      toDigits_of_fits hc (fits_of_lt (Nat.lt_pow_of_log_lt hc hfew))
    rw [hsame, toDigits_of_fits hb hfits]
  · obtain ⟨hle, hge⟩ := nearest_bounds (ulp_pos hc q n) n
    have hq : q ≠ 0 := by
      rintro rfl
      exact absurd h (not_lt.mpr (Nat.pow_pos (by omega)))
    refine toDigits_of_near hb hp hfits ?_ hle hge
    calc ulp c q n * b ^ p < ulp c q n * c ^ (q - 1) := Nat.mul_lt_mul_of_pos_left h (ulp_pos hc q n)
      _ ≤ c ^ Nat.log c n := by
        rw [ulp, ← Nat.pow_add]
        exact Nat.pow_le_pow_right (by omega) (by omega)
      _ ≤ n := Nat.pow_log_le_self c hn

/-- A number above zero is not rounded to zero. -/
theorem toDigits_pos (hb : 1 < b) (hp : 0 < p) (hn : 0 < n) : 0 < toDigits b p n := by
  have hlow : b ^ Nat.log b n ≤ n := Nat.pow_log_le_self b hn.ne'
  have hle : b ^ Nat.log b n ≤ toDigits b p n :=
    le_nearest (ulp_pos hb p n) (Nat.pow_dvd_pow b (by omega)) hlow
  exact (Nat.pow_pos (by omega)).trans_le hle

/-! ## Signed numbers -/

/-- The magnitude is rounded. -/
def toDigitsInt (b p : ℕ) (i : ℤ) : ℤ := i.sign * toDigits b p i.natAbs

theorem toDigitsInt_natCast (b p n : ℕ) (hb : 1 < b) :
    toDigitsInt b p (n : ℤ) = (toDigits b p n : ℤ) := by
  rcases eq_or_ne n 0 with rfl | hn
  · rw [toDigits_zero hb, toDigitsInt, Int.natCast_zero, Int.sign_zero, zero_mul]
  · rw [toDigitsInt, Int.natAbs_natCast, Int.sign_natCast_of_ne_zero hn, one_mul]

theorem natAbs_toDigitsInt (hb : 1 < b) (p : ℕ) (i : ℤ) :
    (toDigitsInt b p i).natAbs = toDigits b p i.natAbs := by
  rcases eq_or_ne i 0 with rfl | hi
  · rw [toDigitsInt, Int.sign_zero, zero_mul, Int.natAbs_zero, toDigits_zero hb]
  · rw [toDigitsInt, Int.natAbs_mul, Int.natAbs_sign_of_ne_zero hi, one_mul, Int.natAbs_natCast]

theorem sign_toDigitsInt (hb : 1 < b) (hp : 0 < p) (i : ℤ) :
    (toDigitsInt b p i).sign = i.sign := by
  rcases eq_or_ne i 0 with rfl | hi
  · simp [toDigitsInt]
  · have hpos : 0 < toDigits b p i.natAbs := toDigits_pos hb hp (Int.natAbs_pos.mpr hi)
    rw [toDigitsInt, Int.sign_mul, Int.sign_sign, Int.sign_natCast_of_ne_zero hpos.ne', mul_one]

theorem toDigitsInt_nonneg (b p : ℕ) {i : ℤ} (h : 0 ≤ i) : 0 ≤ toDigitsInt b p i :=
  mul_nonneg (Int.sign_nonneg_iff.mpr h) (Int.natCast_nonneg _)

theorem toDigitsInt_of_fits (hb : 1 < b) {i : ℤ} (h : Fits b p i.natAbs) :
    toDigitsInt b p i = i := by
  rw [toDigitsInt, toDigits_of_fits hb h, Int.sign_mul_natAbs]

theorem fits_toDigitsInt (hb : 1 < b) (hp : 0 < p) (i : ℤ) :
    Fits b p (toDigitsInt b p i).natAbs := by
  rw [natAbs_toDigitsInt hb]
  exact fits_toDigits hb hp i.natAbs

theorem toDigitsInt_toDigitsInt (hb : 1 < b) (hc : 1 < c) (hp : 0 < p) (hq : 0 < q)
    (h : b ^ p < c ^ (q - 1)) {i : ℤ} (hfits : Fits b p i.natAbs) :
    toDigitsInt b p (toDigitsInt c q i) = i := by
  rw [toDigitsInt, natAbs_toDigitsInt hc, sign_toDigitsInt hc hq,
    toDigits_toDigits hb hc hp h hfits, Int.sign_mul_natAbs]

end Rounding
