import FortAI.Machine.Lanes
import Mathlib.Analysis.SpecialFunctions.Pow.Real
import Mathlib.Analysis.SpecialFunctions.Trigonometric.Basic

/-!
# Rotary positions

`apply_rope` rotates pairs of cells in every head, by angles that grow with the position.  Arithmetic is exact,
and cells are counted from zero.

* `applyRope_head` : what it leaves in a head.
* `dot_applyRope` : the product of two heads sees the distance of their positions only.
-/

namespace FortAI

namespace Qwen35

namespace Rope

/-! ### The code -/

section

variable {R : Type} [Field R] (cos sin : R → R) (pow : R → R → R)

/-- One turn of the inner loop. -/
def turnPair (angle : R) (i j : ℕ) (values : ℕ → R) : ℕ → R :=
  let cosine := cos angle
  let sine := sin angle
  let first := values i
  let second := values j
  Function.update (Function.update values i (first * cosine - second * sine)) j (first * sine + second * cosine)

def angleOf (position dimension : ℕ) (base : R) (i : ℕ) : R :=
  position / pow base ((2 * i : ℕ) / dimension)

/-- The inner loop, on the head that starts there. -/
def ropeHead (position dimension : ℕ) (base : R) (start : ℕ) (values : ℕ → R) : ℕ → R :=
  let halfDimension := dimension / 2
  (List.range halfDimension).foldl (fun values i =>
    turnPair cos sin (angleOf pow position dimension base i) (start + i) (start + i + halfDimension) values) values

def applyRope (heads stride position dimension : ℕ) (base : R) (values : ℕ → R) : ℕ → R :=
  (List.range heads).foldl (fun values head =>
    ropeHead cos sin pow position dimension base (head * stride) values) values

end

/-! ### Rotations -/

section

variable {R : Type} [Field R] (cos sin : R → R)

/-- The pairs of a head, each rotated by its own angle. -/
def rotate (half : ℕ) (angle : ℕ → R) (v : ℕ → R) (i : ℕ) : R :=
  if i < half then v i * cos (angle i) - v (i + half) * sin (angle i)
  else if i < 2 * half then v (i - half) * sin (angle (i - half)) + v i * cos (angle (i - half))
  else v i

variable {cos sin} {half : ℕ} {angle : ℕ → R}

theorem rotate_congr {v v' : ℕ → R} {n i : ℕ} (hn : 2 * half ≤ n) (hi : i < n) (h : ∀ j < n, v j = v' j) :
    rotate cos sin half angle v i = rotate cos sin half angle v' i := by
  rw [rotate, rotate]
  split_ifs
  · rw [h i hi, h (i + half) (by omega)]
  · rw [h i hi, h (i - half) (by omega)]
  · exact h i hi

/-- What the first turns leave: pairs that have been rotated, and cells that have not been reached. -/
theorem foldl_turnPair (start n : ℕ) (hn : n ≤ half) (values : ℕ → R) (x : ℕ) :
    (List.range n).foldl (fun values i => turnPair cos sin (angle i) (start + i) (start + i + half) values) values x =
      if start ≤ x ∧ x < start + n ∨ start + half ≤ x ∧ x < start + half + n
      then rotate cos sin half angle (fun i => values (start + i)) (x - start) else values x := by
  induction n generalizing x with
  | zero => rw [if_neg (by omega)]; rfl
  | succ n ih =>
    have hfirst := ih (Nat.le_of_succ_le hn) (start + n)
    have hsecond := ih (Nat.le_of_succ_le hn) (start + n + half)
    rw [if_neg (by omega)] at hfirst hsecond
    rw [List.range_succ, List.foldl_append, List.foldl_cons, List.foldl_nil, turnPair, hfirst, hsecond]
    by_cases hx : x = start + n + half
    · subst hx
      have hindex : start + n + half - start = n + half := by omega
      rw [Function.update_self, if_pos (by omega), hindex, rotate, if_neg (by omega), if_pos (by omega),
        Nat.add_sub_cancel, Nat.add_assoc]
    · rw [Function.update_of_ne hx]
      by_cases hx' : x = start + n
      · subst hx'
        rw [Function.update_self, if_pos (by omega), Nat.add_sub_cancel_left, rotate,
          if_pos (Nat.lt_of_succ_le hn), Nat.add_assoc]
      · rw [Function.update_of_ne hx', ih (Nat.le_of_succ_le hn)]
        exact if_congr (by omega) rfl rfl

variable (cos sin) (pow : R → R → R)

theorem ropeHead_eq (position dimension : ℕ) (base : R) (start : ℕ) (values : ℕ → R) (x : ℕ) :
    ropeHead cos sin pow position dimension base start values x =
      if start ≤ x ∧ x < start + 2 * (dimension / 2)
      then rotate cos sin (dimension / 2) (angleOf pow position dimension base) (fun i => values (start + i)) (x - start)
      else values x := by
  rw [ropeHead, foldl_turnPair start (dimension / 2) le_rfl]
  exact if_congr (by omega) rfl rfl

/-- A head after the loops; the cells behind its pairs are left as they are. -/
theorem applyRope_head {heads stride position dimension : ℕ} (base : R) (hdimension : dimension ≤ stride)
    (values : ℕ → R) {head : ℕ} (hhead : head < heads) {i : ℕ} (hi : i < stride) :
    applyRope cos sin pow heads stride position dimension base values (head * stride + i) =
      rotate cos sin (dimension / 2) (angleOf pow position dimension base) (fun i => values (head * stride + i)) i := by
  have hloop : ∀ n head i, i < stride →
      (List.range n).foldl (fun values head => ropeHead cos sin pow position dimension base (head * stride) values)
        values (head * stride + i) =
      -- the heads from `n` on are as they were
      if head < n then
        rotate cos sin (dimension / 2) (angleOf pow position dimension base) (fun i => values (head * stride + i)) i
      else values (head * stride + i) := by
    intro n
    induction n with
    | zero => exact fun _ _ _ => rfl
    | succ n ih =>
      intro head i hi
      rw [List.range_succ, List.foldl_append, List.foldl_cons, List.foldl_nil, ropeHead_eq]
      obtain hlt | rfl | hlt := Nat.lt_trichotomy head n
      · have hbelow : (head + 1) * stride ≤ n * stride := Nat.mul_le_mul_right stride hlt
        rw [Nat.succ_mul] at hbelow
        rw [if_neg (by omega), ih head i hi]
        exact if_congr (by omega) rfl rfl
      · -- this head has not been reached before
        rw [if_pos head.lt_succ_self, Nat.add_sub_cancel_left]
        have hcell : ∀ j < stride, (List.range head).foldl
            (fun values head => ropeHead cos sin pow position dimension base (head * stride) values) values
              (head * stride + j) = values (head * stride + j) := fun j hj => by
          rw [ih head j hj, if_neg (Nat.lt_irrefl head)]
        by_cases hpair : i < 2 * (dimension / 2)
        · rw [if_pos (by omega)]
          exact rotate_congr (by omega) hi hcell
        · rw [if_neg (by omega), hcell i hi, rotate, if_neg (by omega), if_neg hpair]
      · have habove : (n + 1) * stride ≤ head * stride := Nat.mul_le_mul_right stride hlt
        rw [Nat.succ_mul] at habove
        rw [if_neg (by omega), ih head i hi, if_neg (by omega), if_neg (by omega)]
  rw [applyRope, hloop heads head i hi, if_pos hhead]

end

/-! ### Distances -/

section

open Finset

variable {half r : ℕ}

/-- The product of two heads whose pairs have been rotated. -/
theorem sum_rotate (θ θ' : ℕ → ℝ) (v w : ℕ → ℝ) :
    ∑ i ∈ range (half + half + r), rotate Real.cos Real.sin half θ v i * rotate Real.cos Real.sin half θ' w i =
      ∑ i ∈ range half, ((v i * w i + v (i + half) * w (i + half)) * Real.cos (θ i - θ' i) +
        (v i * w (i + half) - v (i + half) * w i) * Real.sin (θ i - θ' i)) +
      ∑ i ∈ range r, v (half + half + i) * w (half + half + i) := by
  have hpair : ∀ i ∈ range half,
      rotate Real.cos Real.sin half θ v i * rotate Real.cos Real.sin half θ' w i +
        rotate Real.cos Real.sin half θ v (half + i) * rotate Real.cos Real.sin half θ' w (half + i) =
      (v i * w i + v (i + half) * w (i + half)) * Real.cos (θ i - θ' i) +
        (v i * w (i + half) - v (i + half) * w i) * Real.sin (θ i - θ' i) := by
    intro i hi
    have hlt : i < half := mem_range.mp hi
    have hfirst : ∀ (θ v : ℕ → ℝ), rotate Real.cos Real.sin half θ v i =
        v i * Real.cos (θ i) - v (i + half) * Real.sin (θ i) := fun θ v => if_pos hlt
    have hsecond : ∀ (θ v : ℕ → ℝ), rotate Real.cos Real.sin half θ v (half + i) =
        v i * Real.sin (θ i) + v (i + half) * Real.cos (θ i) := fun θ v => by
      rw [rotate, if_neg (by omega), if_pos (by omega), Nat.add_sub_cancel_left, Nat.add_comm half i]
    rw [hfirst, hfirst, hsecond, hsecond, Real.cos_sub, Real.sin_sub]
    ring
  have hrest : ∀ i ∈ range r, rotate Real.cos Real.sin half θ v (half + half + i) *
      rotate Real.cos Real.sin half θ' w (half + half + i) = v (half + half + i) * w (half + half + i) := by
    intro i _
    rw [rotate, rotate, if_neg (by omega), if_neg (by omega), if_neg (by omega), if_neg (by omega)]
  rw [sum_range_add, sum_range_add, ← sum_add_distrib, sum_congr rfl hpair, sum_congr rfl hrest]

/-- The product of two heads sees the distance of their positions only. -/
theorem dot_applyRope {heads headsKv stride headSize dimension : ℕ} (base : ℝ) (hstride : headSize ≤ stride)
    (hdimension : dimension ≤ headSize) (q k : ℕ → ℝ) {head kvHead : ℕ} (hhead : head < heads) (hkv : kvHead < headsKv)
    (position current distance : ℕ) :
    let dot (p c : ℕ) := ∑ i ∈ range headSize,
      applyRope Real.cos Real.sin Real.rpow heads stride p dimension base q (head * stride + i) *
        applyRope Real.cos Real.sin Real.rpow headsKv headSize c dimension base k (kvHead * headSize + i)
    dot (position + distance) (current + distance) = dot position current := by
  intro dot
  have hdot : ∀ p c : ℕ, dot p c = ∑ i ∈ range headSize,
      rotate Real.cos Real.sin (dimension / 2) (angleOf Real.rpow p dimension base) (fun i => q (head * stride + i)) i *
        rotate Real.cos Real.sin (dimension / 2) (angleOf Real.rpow c dimension base)
          (fun i => k (kvHead * headSize + i)) i := by
    intro p c
    refine sum_congr rfl fun i hi => ?_
    have hlt : i < headSize := mem_range.mp hi
    rw [applyRope_head _ _ _ base (hdimension.trans hstride) q hhead (hlt.trans_le hstride),
      applyRope_head _ _ _ base hdimension k hkv hlt]
  obtain ⟨r, rfl⟩ : ∃ r, headSize = dimension / 2 + dimension / 2 + r :=
    ⟨headSize - (dimension / 2 + dimension / 2), by omega⟩
  -- the angles of both positions grow by the same
  have hangle : ∀ i, angleOf Real.rpow (position + distance) dimension base i -
      angleOf Real.rpow (current + distance) dimension base i =
      angleOf Real.rpow position dimension base i - angleOf Real.rpow current dimension base i := by
    intro i
    simp only [angleOf, Nat.cast_add]
    ring
  simp only [hdot, sum_rotate, hangle]

/-- The second query head of two, whose gate is not rotated. -/
theorem dot_applyRope_small :
    let dot (p c : ℕ) := ∑ i ∈ range 3,
      applyRope Real.cos Real.sin Real.rpow 2 6 p 2 10000 (fun i => i) (1 * 6 + i) *
        applyRope Real.cos Real.sin Real.rpow 1 3 c 2 10000 (fun i => i + 1) (0 * 3 + i)
    dot (5 + 100) (2 + 100) = dot 5 2 :=
  dot_applyRope 10000 (by decide) (by decide) (fun i => i) (fun i => i + 1) (by decide) (by decide) 5 2 100

end

end Rope

end Qwen35

end FortAI
