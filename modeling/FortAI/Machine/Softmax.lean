import Mathlib.Algebra.BigOperators.Field
import Mathlib.Analysis.SpecialFunctions.Exp

/-!
# Weights from scores

The weight of a row is the exponential of its score, and the mean is taken with these weights.  A loop that
goes through the rows once keeps the largest score so far and its sums relative to it.

* `mean_sub` : the scores may be taken relative to any number.
* `Partial` : what a sum of the loop is worth.
* `Partial.raise`, `Partial.keep` : one more row, with a larger score and without.
* `Partial.mean` : what is left at the end.
-/

namespace FortAI

namespace Softmax

open Finset

/-- The factor for sums that were relative to the old maximum; there is none in front of the first row. -/
def rescale {R : Type*} [Sub R] [Zero R] (exp : R → R) (old : Option R) (new : R) : R :=
  match old with
  | none => 0
  | some m => exp (m - new)

variable (score : ℕ → ℝ) (value : ℕ → ℝ) (n : ℕ)

/-- The weighted sum of the first rows, with scores relative to `m`. -/
noncomputable def total (m : ℝ) : ℝ := ∑ c ∈ range n, Real.exp (score c - m) * value c

/-- The weighted mean of the first rows. -/
noncomputable def mean : ℝ :=
  (∑ c ∈ range n, Real.exp (score c) * value c) / ∑ c ∈ range n, Real.exp (score c)

variable {score value n}

theorem total_eq (m : ℝ) : total score value n m = Real.exp (-m) * ∑ c ∈ range n, Real.exp (score c) * value c := by
  rw [total, mul_sum]
  refine sum_congr rfl fun c _ => ?_
  rw [sub_eq_add_neg, add_comm, Real.exp_add, mul_assoc]

theorem total_one_eq (m : ℝ) : total score 1 n m = Real.exp (-m) * ∑ c ∈ range n, Real.exp (score c) := by
  rw [total_eq]
  simp only [Pi.one_apply, mul_one]

theorem mean_congr {score' value' : ℕ → ℝ} (hscore : ∀ c < n, score c = score' c) (hvalue : ∀ c < n, value c = value' c) :
    mean score value n = mean score' value' n := by
  have htop : ∑ c ∈ range n, Real.exp (score c) * value c = ∑ c ∈ range n, Real.exp (score' c) * value' c :=
    sum_congr rfl fun c hc => by rw [hscore c (mem_range.mp hc), hvalue c (mem_range.mp hc)]
  have hbottom : ∑ c ∈ range n, Real.exp (score c) = ∑ c ∈ range n, Real.exp (score' c) :=
    sum_congr rfl fun c hc => by rw [hscore c (mem_range.mp hc)]
  rw [mean, mean, htop, hbottom]

theorem total_one_pos (hn : 0 < n) (m : ℝ) : 0 < total score 1 n m := by
  refine sum_pos (fun c _ => ?_) (nonempty_range_iff.mpr hn.ne')
  rw [Pi.one_apply, mul_one]
  exact Real.exp_pos _

/-- The number that the scores are relative to cancels. -/
theorem mean_sub (m : ℝ) : total score value n m / total score 1 n m = mean score value n := by
  rw [total_eq, total_one_eq, mul_div_mul_left _ _ (Real.exp_ne_zero _)]
  rfl

/-- The weights may be divided by their sum first. -/
theorem total_div (m normalizer : ℝ) : total score value n m / normalizer =
    ∑ c ∈ range n, Real.exp (score c - m) / normalizer * value c := by
  rw [total, sum_div]
  exact sum_congr rfl fun c _ => (div_mul_eq_mul_div _ _ _).symm

/-! ### One row after the other -/

/-- A sum over the first rows that is relative to the maximum so far. -/
def Partial (score value : ℕ → ℝ) (n : ℕ) (maximum : Option ℝ) (x : ℝ) : Prop :=
  ∀ m, rescale Real.exp maximum m * x = total score value n m

theorem exp_mul_rescale (old : Option ℝ) (new m : ℝ) :
    Real.exp (new - m) * rescale Real.exp old new = rescale Real.exp old m := by
  cases old with
  | none => exact mul_zero _
  | some old =>
    have hsum : new - m + (old - new) = old - m := by abel
    rw [rescale, rescale, ← Real.exp_add, hsum]

theorem Partial.zero (score value : ℕ → ℝ) : Partial score value 0 none 0 := fun _ => mul_zero _

theorem total_succ (m : ℝ) :
    total score value (n + 1) m = total score value n m + Real.exp (score n - m) * value n := sum_range_succ _ n

variable {maximum : Option ℝ} {x : ℝ}

/-- A row whose score becomes the maximum. -/
theorem Partial.raise (h : Partial score value n maximum x) :
    Partial score value (n + 1) (some (score n)) (x * rescale Real.exp maximum (score n) + value n) := by
  intro m
  have hx : Real.exp (score n - m) * (x * rescale Real.exp maximum (score n)) = total score value n m := by
    rw [mul_comm x, ← mul_assoc, exp_mul_rescale, h m]
  rw [rescale, mul_add, hx, total_succ]

/-- A row whose score does not. -/
theorem Partial.keep {m : ℝ} (h : Partial score value n (some m) x) :
    Partial score value (n + 1) (some m) (x + value n * Real.exp (score n - m)) := by
  intro m'
  have hexp : Real.exp (m - m') * Real.exp (score n - m) = Real.exp (score n - m') := exp_mul_rescale (some _) m m'
  have hx : Real.exp (m - m') * x = total score value n m' := h m'
  rw [rescale, mul_add, hx, total_succ, mul_left_comm, hexp, mul_comm (value n)]

theorem Partial.eq_total {m : ℝ} (h : Partial score value n (some m) x) : x = total score value n m := by
  have hone : rescale Real.exp (some m) m = 1 := by
    rw [rescale, sub_self, Real.exp_zero]
  rw [← h m, hone, one_mul]

/-- The quotient of two such sums is the mean. -/
theorem Partial.mean {m sum : ℝ} (h : Partial score value n (some m) x) (hsum : Partial score 1 n (some m) sum) :
    x / sum = mean score value n := by
  rw [h.eq_total, hsum.eq_total, mean_sub]

end Softmax

end FortAI
