import Mathlib.Algebra.Order.Field.Rat
import Mathlib.Algebra.Order.Field.Power
import Mathlib.Algebra.Order.Ring.Rat
import Mathlib.Data.Rat.Cast.Order
import Mathlib.Tactic.Linarith
import Mathlib.Tactic.Positivity
import Mathlib.Tactic.Ring

/-!
# Decimal numbers for binary numbers

A binary number of `p` bits is an integer below `2 ^ p` times a power of 2.  It is written in
scientific notation with `n + 1` decimal digits, and read back as the nearest binary number.

* `IsBinary.gap` : two binary numbers are far apart.
* `Prints.eq_of_nearest` : with enough digits a number is read back as it was written.
-/

namespace FortAI

/-- A binary number with a significand of `p` bits. -/
def IsBinary (p : ℕ) (x : ℚ) : Prop := ∃ m e : ℤ, |m| < 2 ^ p ∧ x = m * 2 ^ e

/-- A number in scientific notation: `digits` are `n + 1` digits, the first of them before the
point. -/
structure Scientific (n : ℕ) where
  minus : Bool
  digits : ℕ
  exponent : ℤ
  digits_lt : digits < 10 ^ (n + 1)

namespace Scientific

variable {n : ℕ} (d : Scientific n)

/-- The weight of the last digit. -/
def ulp : ℚ := 10 ^ (d.exponent - n)

def value : ℚ := (if d.minus then -1 else 1) * (d.digits * d.ulp)

theorem ulp_pos : 0 < d.ulp := zpow_pos (by norm_num) _

theorem abs_value : |d.value| = d.digits * d.ulp := by
  have hsign : |(if d.minus then -1 else 1 : ℚ)| = 1 := by
    split_ifs <;> norm_num
  rw [value, abs_mul, hsign, one_mul, abs_of_nonneg]
  exact mul_nonneg (Nat.cast_nonneg _) d.ulp_pos.le

end Scientific

/-- `d` is what is printed for `x`: a nearest number with that many digits, the first of which is 0
for 0 only. -/
structure Prints {n : ℕ} (d : Scientific n) (x : ℚ) : Prop where
  near : |d.value - x| ≤ d.ulp / 2
  normal : x ≠ 0 → 10 ^ n ≤ d.digits
  zero : x = 0 → d.digits = 0

/-- The distance of two binary numbers is not much smaller than they are. -/
theorem IsBinary.gap {p : ℕ} {x y : ℚ} (hx : IsBinary p x) (hy : IsBinary p y) (hne : x ≠ y) :
    |x| < (2 ^ p + 1) * |x - y| := by
  obtain ⟨m, e, hm, rfl⟩ := hx
  obtain ⟨k, f, hk, rfl⟩ := hy
  have hm' : |(m : ℚ)| < 2 ^ p := by exact_mod_cast hm
  have hk' : |(k : ℚ)| < 2 ^ p := by exact_mod_cast hk
  -- the numbers are multiples of the smaller one of the two powers
  have hgap (a b : ℤ) (g : ℤ) (h : (a : ℚ) * 2 ^ g ≠ b * 2 ^ g) :
      (2 : ℚ) ^ g ≤ |(a : ℚ) * 2 ^ g - b * 2 ^ g| := by
    have hpos : (0 : ℚ) < 2 ^ g := zpow_pos (by norm_num) _
    have hab : a ≠ b := fun hab => h (by rw [hab])
    have hone : (1 : ℚ) ≤ |(a : ℚ) - b| := by
      have : (1 : ℤ) ≤ |a - b| := Int.one_le_abs (sub_ne_zero.mpr hab)
      exact_mod_cast this
    rw [← sub_mul, abs_mul, abs_of_pos hpos]
    exact le_mul_of_one_le_left hpos.le hone
  have hshift (a g h : ℤ) (hle : h ≤ g) : (a : ℚ) * 2 ^ g = ((a * 2 ^ (g - h).toNat : ℤ) : ℚ) * 2 ^ h := by
    have hexp : (2 : ℚ) ^ g = 2 ^ (g - h).toNat * 2 ^ h := by
      rw [← zpow_natCast, Int.toNat_of_nonneg (by omega), ← zpow_add₀ (by norm_num)]
      congr 1
      omega
    rw [hexp]
    push_cast
    ring
  have hpe : (0 : ℚ) < 2 ^ e := zpow_pos (by norm_num) _
  have hpf : (0 : ℚ) < 2 ^ f := zpow_pos (by norm_num) _
  have hxabs : |(m : ℚ) * 2 ^ e| < 2 ^ p * 2 ^ e := by
    rw [abs_mul, abs_of_pos hpe]
    exact mul_lt_mul_of_pos_right hm' hpe
  have hyabs : |(k : ℚ) * 2 ^ f| < 2 ^ p * 2 ^ f := by
    rw [abs_mul, abs_of_pos hpf]
    exact mul_lt_mul_of_pos_right hk' hpf
  have htwo : (0 : ℚ) < 2 ^ p := by positivity
  rcases le_total e f with hle | hle
  · have hdist : (2 : ℚ) ^ e ≤ |(m : ℚ) * 2 ^ e - k * 2 ^ f| := by
      rw [hshift k f e hle] at hne ⊢
      exact hgap _ _ _ hne
    calc |(m : ℚ) * 2 ^ e| < 2 ^ p * 2 ^ e := hxabs
      _ ≤ 2 ^ p * |(m : ℚ) * 2 ^ e - k * 2 ^ f| := mul_le_mul_of_nonneg_left hdist htwo.le
      _ ≤ (2 ^ p + 1) * |(m : ℚ) * 2 ^ e - k * 2 ^ f| :=
        mul_le_mul_of_nonneg_right (by linarith) (abs_nonneg _)
  · have hdist : (2 : ℚ) ^ f ≤ |(m : ℚ) * 2 ^ e - k * 2 ^ f| := by
      rw [hshift m e f hle] at hne ⊢
      exact hgap _ _ _ hne
    have htriangle : |(m : ℚ) * 2 ^ e| ≤ |(k : ℚ) * 2 ^ f| + |(m : ℚ) * 2 ^ e - k * 2 ^ f| := by
      have := abs_add_le ((k : ℚ) * 2 ^ f) ((m : ℚ) * 2 ^ e - k * 2 ^ f)
      rwa [add_sub_cancel] at this
    have hscaled := mul_le_mul_of_nonneg_left hdist htwo.le
    linarith

/-- A number that is printed with enough digits is the only binary number as near as itself to what
is printed. -/
theorem Prints.eq_of_nearest {p n : ℕ} (hp : 2 ^ p + 2 ≤ 10 ^ n) {d : Scientific n} {x y : ℚ}
    (hd : Prints d x) (hx : IsBinary p x) (hy : IsBinary p y)
    (hnearest : |d.value - y| ≤ |d.value - x|) : y = x := by
  have hulp := d.ulp_pos
  by_contra hne
  have hdist : |x - y| ≤ d.ulp := by
    have := abs_sub_le x d.value y
    rw [abs_sub_comm x d.value] at this
    linarith [hd.near]
  by_cases hzero : x = 0
  · -- 0 is printed as it is
    have hvalue : d.value = 0 := by
      rw [← abs_eq_zero, d.abs_value, hd.zero hzero, Nat.cast_zero, zero_mul]
    rw [hvalue, hzero, sub_zero, abs_zero, zero_sub, abs_neg] at hnearest
    exact hne ((abs_nonpos_iff.mp hnearest).trans hzero.symm)
  · have hgap := hx.gap hy (Ne.symm hne)
    have hdigits : (10 ^ n : ℚ) ≤ d.digits := by exact_mod_cast hd.normal hzero
    have hp' : (2 ^ p + 2 : ℚ) ≤ 10 ^ n := by exact_mod_cast hp
    have hvalue : (2 ^ p + 2) * d.ulp ≤ |d.value| := by
      rw [d.abs_value]
      exact mul_le_mul_of_nonneg_right (hp'.trans hdigits) hulp.le
    have htriangle := abs_add_le (d.value - x) x
    rw [sub_add_cancel] at htriangle
    have hscaled : (2 ^ p + 1) * |x - y| ≤ (2 ^ p + 1) * d.ulp :=
      mul_le_mul_of_nonneg_left hdist (by positivity)
    linarith [hd.near]

/-- No binary number is nearer to what is printed for a number than the number itself. -/
theorem Prints.nearest {p n : ℕ} (hp : 2 ^ p + 2 ≤ 10 ^ n) {d : Scientific n} {x y : ℚ}
    (hd : Prints d x) (hx : IsBinary p x) (hy : IsBinary p y) : |d.value - x| ≤ |d.value - y| := by
  by_contra hlt
  have hnearest : |d.value - y| ≤ |d.value - x| := (not_le.mp hlt).le
  rw [hd.eq_of_nearest hp hx hy hnearest] at hlt
  exact hlt le_rfl

end FortAI
