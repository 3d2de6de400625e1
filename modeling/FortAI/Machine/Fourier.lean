import Mathlib.Algebra.BigOperators.Intervals
import Mathlib.Algebra.BigOperators.Ring.Finset
import Mathlib.Analysis.SpecialFunctions.Trigonometric.Basic
import Mathlib.Tactic.Ring

/-!
# Discrete Fourier transforms

The transform with respect to a root `ω` of one, in any commutative ring, and how it is made of the
transforms of the even and of the odd half.

* `transform_double` : the first half of the values.
* `transform_double_add` : the second half.
* `root_pow` : a root in the complex numbers, by its sine and cosine.
* `direct_double`, `direct_double_add` : the transform with exponentials.
-/

namespace FortAI

namespace Fourier

open Finset

section

variable {R : Type*} [CommRing R]

def transform (ω : R) (n : ℕ) (x : ℕ → R) (k : ℕ) : R := ∑ i ∈ range n, x i * ω ^ (k * i)

theorem sum_range_double (f : ℕ → R) (n : ℕ) :
    ∑ i ∈ range (2 * n), f i = ∑ i ∈ range n, f (2 * i) + ∑ i ∈ range n, f (2 * i + 1) := by
  induction n with
  | zero => exact (add_zero 0).symm
  | succ n ih =>
    rw [Nat.mul_succ, sum_range_succ, sum_range_succ, ih, sum_range_succ, sum_range_succ]
    ring

/-- The two halves of a transform. -/
theorem transform_double (ω : R) (n : ℕ) (x : ℕ → R) (k : ℕ) :
    transform ω (2 * n) x k = transform (ω ^ 2) n (fun i => x (2 * i)) k +
      ω ^ k * transform (ω ^ 2) n (fun i => x (2 * i + 1)) k := by
  rw [transform, sum_range_double, transform, transform, mul_sum]
  congr 1
  · refine sum_congr rfl fun i _ => ?_
    rw [← pow_mul, Nat.mul_left_comm]
  · refine sum_congr rfl fun i _ => ?_
    rw [← pow_mul, Nat.mul_succ, pow_add, Nat.mul_left_comm]
    ring

/-- The values repeat after a whole turn. -/
theorem transform_add {ω : R} {n : ℕ} (hω : ω ^ n = 1) (m : ℕ) (x : ℕ → R) (k : ℕ) :
    transform ω m x (k + n) = transform ω m x k := by
  refine sum_congr rfl fun i _ => ?_
  rw [Nat.add_mul, pow_add, pow_mul ω n, hω, one_pow, mul_one]

theorem transform_double_add {ω : R} {n : ℕ} (hω : ω ^ n = -1) (x : ℕ → R) (k : ℕ) :
    transform ω (2 * n) x (k + n) = transform (ω ^ 2) n (fun i => x (2 * i)) k -
      ω ^ k * transform (ω ^ 2) n (fun i => x (2 * i + 1)) k := by
  have hone : (ω ^ 2) ^ n = 1 := by
    rw [← pow_mul, Nat.mul_comm, pow_mul, hω, neg_one_sq]
  rw [transform_double, transform_add hone, transform_add hone, pow_add, hω]
  ring

end

/-! ### In the complex numbers -/

/-- The `n`-th root of one that the transform takes. -/
noncomputable def root (n : ℕ) : ℂ := Complex.exp (-((2 : ℕ) * Real.pi * Complex.I / n))

theorem root_pow (n k : ℕ) : root n ^ k = Complex.exp (-(2 * Real.pi * Complex.I * k / n)) := by
  rw [root, ← Complex.exp_nat_mul, Nat.cast_ofNat]
  congr 1
  ring

/-- Its powers by their parts. -/
theorem root_pow_eq (n k : ℕ) :
    root n ^ k = ⟨Real.cos (2 * Real.pi * k / n), -Real.sin (2 * Real.pi * k / n)⟩ := by
  have hangle : -(2 * Real.pi * Complex.I * k / n) = ((-(2 * Real.pi * k / n) : ℝ) : ℂ) * Complex.I := by
    push_cast
    ring
  rw [root_pow, hangle, Complex.exp_mul_I, ← Complex.ofReal_cos, ← Complex.ofReal_sin, Real.cos_neg, Real.sin_neg]
  exact (Complex.mk_eq_add_mul_I _ _).symm

theorem root_pow_self {n : ℕ} (hn : 0 < n) : root n ^ n = 1 := by
  have hne : (n : ℂ) ≠ 0 := Nat.cast_ne_zero.mpr hn.ne'
  rw [root_pow, mul_div_assoc, div_self hne, mul_one, Complex.exp_neg, Complex.exp_two_pi_mul_I, inv_one]

theorem root_pow_half {n : ℕ} (hn : 0 < n) : root (2 * n) ^ n = -1 := by
  have hne : (n : ℂ) ≠ 0 := Nat.cast_ne_zero.mpr hn.ne'
  have hangle : -(2 * Real.pi * Complex.I * n / (2 * n : ℕ)) = -(Real.pi * Complex.I) := by
    push_cast
    field_simp
  rw [root_pow, hangle, Complex.exp_neg, Complex.exp_pi_mul_I, inv_neg, inv_one]

theorem root_mul_pow {n m : ℕ} (hm : 0 < m) : root (n * m) ^ m = root n := by
  have hne : (m : ℂ) ≠ 0 := Nat.cast_ne_zero.mpr hm.ne'
  rw [root_pow, root, Nat.cast_ofNat]
  congr 2
  push_cast
  rw [mul_div_mul_right _ _ hne]

/-- The values of the direct transform. -/
noncomputable def direct (n : ℕ) (x : ℕ → ℝ) (k : ℕ) : ℂ :=
  ∑ i ∈ range n, x i * Complex.exp (-((2 : ℕ) * Real.pi * Complex.I * k * i / n))

theorem direct_eq (n : ℕ) (x : ℕ → ℝ) (k : ℕ) : direct n x k = transform (root n) n (fun i => (x i : ℂ)) k := by
  refine sum_congr rfl fun i _ => ?_
  rw [root_pow, Nat.cast_mul, Nat.cast_ofNat, ← mul_assoc]

theorem direct_congr {n : ℕ} {x y : ℕ → ℝ} (h : ∀ i < n, x i = y i) (k : ℕ) : direct n x k = direct n y k :=
  sum_congr rfl fun i hi => by rw [h i (mem_range.mp hi)]

theorem root_two_mul_sq (n : ℕ) : root (2 * n) ^ 2 = root n := by
  rw [Nat.mul_comm, root_mul_pow Nat.two_pos]

theorem direct_double (n : ℕ) (x : ℕ → ℝ) (k : ℕ) : direct (2 * n) x k =
    direct n (fun i => x (2 * i)) k + root (2 * n) ^ k * direct n (fun i => x (2 * i + 1)) k := by
  rw [direct_eq, direct_eq, direct_eq, transform_double, root_two_mul_sq]

theorem direct_double_add {n : ℕ} (hn : 0 < n) (x : ℕ → ℝ) (k : ℕ) : direct (2 * n) x (k + n) =
    direct n (fun i => x (2 * i)) k - root (2 * n) ^ k * direct n (fun i => x (2 * i + 1)) k := by
  rw [direct_eq, direct_eq, direct_eq, transform_double_add (root_pow_half hn), root_two_mul_sq]

end Fourier

end FortAI
