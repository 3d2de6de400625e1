import FortAI.Cpu.Half
import Mathlib.Data.Fin.VecNotation
import Mathlib.Data.Rat.Floor
import Mathlib.Tactic.FinCases

/-!
# Quantized blocks

A block of 32 numbers becomes a scale and 32 signed bytes.  `q8_quantize_scalar` goes through the
numbers one by one, `q8_quantize_avx2` has them in registers; which of them runs depends on the
processor.  Here the numbers are exact.

* `quantize_eq_iff` : the two give the same block except where a number lies half way.
-/

namespace FortAI

namespace Cpu

open Rounding Format

/-- What is written for a block of numbers. -/
@[ext]
structure Quantized where
  scaleBits : UInt16
  scale : Option UInt32
  values : Fin 32 → Int8
deriving DecidableEq

/-- The factor that the numbers of a block are multiplied by. -/
def inverse (maximum : ℚ) : ℚ := if maximum ≠ 0 then 127 / maximum else 0

/-! ### One by one -/

/-- `float_to_half` of an exact number. -/
def exactToHalf (x : ℚ) : UInt16 :=
  UInt16.ofNat ((if x < 0 then half.signBit else 0) + Nat.min (half.nearest x) half.infinity)

/-- `roundf` -/
def roundf (x : ℚ) : ℤ := nearestAway x

/-- The loop over the absolute values. -/
def maximumScalar (block : Fin 32 → ℚ) : ℚ :=
  (List.ofFn block).foldl (fun maximum x => if maximum < |x| then |x| else maximum) 0

/-- `q8_quantize_scalar` -/
def quantizeScalar (block : Fin 32 → ℚ) : Quantized :=
  let maximum := maximumScalar block
  let scaleBits := exactToHalf (maximum / 127)
  { scaleBits
    scale := halfToFloat scaleBits
    values := fun i => Int8.ofInt (roundf (block i * inverse maximum)) }

/-! ### Registers -/

/-- The instructions for half precision. -/
structure F16c where
  cvtssSh : ℚ → UInt16
  cvtshSs : UInt16 → UInt32
  negative : ∀ x, half.Negative (cvtssSh x).toNat ↔ x < 0
  nearest : ∀ x, ∃ m, IsNearestEven half.size |x| m ∧
    half.magnitude (cvtssSh x).toNat = Nat.min m half.infinity
  widens : ∀ value, Widens half single value.toNat (cvtshSs value).toNat

section
variable {α : Type*}

/-- `_mm256_loadu_ps` of a quarter of the block. -/
def load (block : Fin 32 → α) (part : Fin 4) : Fin 8 → α := fun i => block ⟨8 * part + i, by omega⟩

/-- `_mm_max_ps` in one lane. -/
def maxPs (a b : ℚ) : ℚ := if b < a then a else b

/-- `_mm256_extractf128_ps` -/
def extractf128 (v : Fin 8 → α) (part : Fin 2) : Fin 4 → α := fun i => v ⟨4 * part + i, by omega⟩

/-- `_mm_movehl_ps` -/
def movehl (a b : Fin 4 → α) : Fin 4 → α := ![b 2, b 3, a 2, a 3]

/-- `_mm_movehdup_ps` -/
def movehdup (a : Fin 4 → α) : Fin 4 → α := ![a 1, a 1, a 3, a 3]

/-- `_mm_max_ss` -/
def maxSs (a b : Fin 4 → ℚ) : Fin 4 → ℚ := Function.update a 0 (maxPs (a 0) (b 0))

/-- `_mm256_cvtps_epi32` of a rounded number in one lane. -/
def cvtpsEpi32 (x : ℤ) : Int32 := if -2 ^ 31 ≤ x ∧ x < 2 ^ 31 then Int32.ofInt x else Int32.minValue

/-- `_mm256_packs_epi32`; either half of the register has its own four lanes of both. -/
def packsEpi32 (a b : Fin 8 → Int32) : Fin 16 → Int16 := fun i =>
  if h : i.val % 8 < 4 then Int16.ofIntClamp (a ⟨4 * (i / 8) + i % 8, by omega⟩).toInt
  else Int16.ofIntClamp (b ⟨4 * (i / 8) + (i % 8 - 4), by omega⟩).toInt

/-- `_mm256_packs_epi16` -/
def packsEpi16 (a b : Fin 16 → Int16) : Fin 32 → Int8 := fun i =>
  if h : i.val % 16 < 8 then Int8.ofIntClamp (a ⟨8 * (i / 16) + i % 16, by omega⟩).toInt
  else Int8.ofIntClamp (b ⟨8 * (i / 16) + (i % 16 - 8), by omega⟩).toInt

/-- `_mm256_permutevar8x32_epi32` -/
def permutevar8x32 (a : Fin 32 → α) (index : Fin 8 → Fin 8) : Fin 32 → α := fun i =>
  a ⟨4 * index ⟨i / 4, by omega⟩ + i % 4, by omega⟩

/-- `permutation` -/
def permutation : Fin 8 → Fin 8 := ![0, 4, 1, 5, 2, 6, 3, 7]

end

/-- The largest absolute value, lane by lane and then across the lanes. -/
def maximumAvx2 (block : Fin 32 → ℚ) : ℚ :=
  let maximum : Fin 8 → ℚ := fun i => |load block 0 i|
  let maximum := fun i => maxPs (maximum i) |load block 1 i|
  let maximum := fun i => maxPs (maximum i) |load block 2 i|
  let maximum := fun i => maxPs (maximum i) |load block 3 i|
  let max4 := fun i => maxPs (extractf128 maximum 1 i) (extractf128 maximum 0 i)
  let max4 := fun i => maxPs (max4 i) (movehl max4 max4 i)
  maxSs max4 (movehdup max4) 0

/-- `q8_quantize_avx2` -/
def quantizeAvx2 (f16c : F16c) (block : Fin 32 → ℚ) : Quantized :=
  let maximum := maximumAvx2 block
  let scaleBits := f16c.cvtssSh (maximum / 127)
  let q (part : Fin 4) : Fin 8 → Int32 := fun i =>
    cvtpsEpi32 (nearestEven (load block part i * inverse maximum))
  let packed := packsEpi16 (packsEpi32 (q 0) (q 1)) (packsEpi32 (q 2) (q 3))
  { scaleBits
    scale := some (f16c.cvtshSs scaleBits)
    values := permutevar8x32 packed permutation }

/-! ### The maximum -/

section
variable {block : Fin 32 → ℚ}

/-- The largest absolute value of a block. -/
structure IsMaximum (block : Fin 32 → ℚ) (maximum : ℚ) : Prop where
  mem : ∃ i, maximum = |block i|
  le : ∀ i, |block i| ≤ maximum

theorem IsMaximum.unique {m n : ℚ} (hm : IsMaximum block m) (hn : IsMaximum block n) : m = n := by
  obtain ⟨i, hi⟩ := hm.mem
  obtain ⟨j, hj⟩ := hn.mem
  refine le_antisymm ?_ ?_
  · rw [hi]
    exact hn.le i
  · rw [hj]
    exact hm.le j

theorem IsMaximum.nonneg {m : ℚ} (hm : IsMaximum block m) : 0 ≤ m := (abs_nonneg _).trans (hm.le 0)

/-- What the loop holds is at least as large as all that it has seen, and one of them or where it began. -/
theorem foldl_maximum (l : List ℚ) (start : ℚ) :
    let result := l.foldl (fun maximum x => if maximum < |x| then |x| else maximum) start
    (result = start ∨ ∃ x ∈ l, result = |x|) ∧ start ≤ result ∧ ∀ x ∈ l, |x| ≤ result := by
  induction l generalizing start with
  | nil => exact ⟨.inl rfl, le_rfl, by simp⟩
  | cons y l ih =>
    obtain ⟨hmem, hstart, hle⟩ := ih (if start < |y| then |y| else start)
    have hturn : start ≤ (if start < |y| then |y| else start) ∧
        |y| ≤ (if start < |y| then |y| else start) := by
      split_ifs with h
      · exact ⟨h.le, le_rfl⟩
      · exact ⟨le_rfl, not_lt.mp h⟩
    rw [List.foldl_cons]
    refine ⟨?_, hturn.1.trans hstart, List.forall_mem_cons.mpr ⟨hturn.2.trans hstart, hle⟩⟩
    rcases hmem with heq | ⟨x, hx, heq⟩
    · rw [heq]
      split_ifs
      · exact .inr ⟨y, List.mem_cons_self, rfl⟩
      · exact .inl rfl
    · exact .inr ⟨x, List.mem_cons_of_mem y hx, heq⟩

theorem isMaximum_maximumScalar (block : Fin 32 → ℚ) : IsMaximum block (maximumScalar block) := by
  obtain ⟨hmem, -, hle⟩ := foldl_maximum (List.ofFn block) 0
  have hle' (i : Fin 32) : |block i| ≤ maximumScalar block := hle _ (List.mem_ofFn.mpr ⟨i, rfl⟩)
  refine ⟨?_, hle'⟩
  rcases hmem with heq | ⟨x, hx, heq⟩
  · -- no number is larger than where the loop began
    have hzero : maximumScalar block = 0 := heq
    refine ⟨0, le_antisymm ?_ (hle' 0)⟩
    rw [hzero]
    exact abs_nonneg _
  · obtain ⟨i, rfl⟩ := List.mem_ofFn.mp hx
    exact ⟨i, heq⟩

theorem le_maxPs_left (a b : ℚ) : a ≤ maxPs a b := by
  rw [maxPs]
  split_ifs with h
  · exact le_rfl
  · exact not_lt.mp h

theorem le_maxPs_right (a b : ℚ) : b ≤ maxPs a b := by
  rw [maxPs]
  split_ifs with h
  · exact h.le
  · exact le_rfl

theorem maxPs_cases {P : ℚ → Prop} {a b : ℚ} (ha : P a) (hb : P b) : P (maxPs a b) := by
  rw [maxPs]
  split_ifs
  · exact ha
  · exact hb

/-- Every number lies in one lane of one register. -/
theorem eq_load {α : Type*} (block : Fin 32 → α) (i : Fin 32) :
    block i = load block ⟨i / 8, by omega⟩ ⟨i % 8, by omega⟩ := by
  rw [load]
  congr 1
  exact Fin.ext (Nat.div_add_mod i.val 8).symm

/-- The largest of the eight lanes comes out at the front. -/
theorem acrossLanes_le (maximum : Fin 8 → ℚ) (i : Fin 8) :
    let max4 := fun i => maxPs (extractf128 maximum 1 i) (extractf128 maximum 0 i)
    let max4 := fun i => maxPs (max4 i) (movehl max4 max4 i)
    maximum i ≤ maxSs max4 (movehdup max4) 0 := by
  intro first second
  have hfront : maxSs second (movehdup second) 0 = maxPs (second 0) (second 1) := Function.update_self ..
  have hfirst (l : Fin 4) : first l ≤ maxPs (second 0) (second 1) := by
    fin_cases l
    · exact (le_maxPs_left _ _).trans (le_maxPs_left _ _)
    · exact (le_maxPs_left (first 1) _).trans (le_maxPs_right _ _)
    · exact (le_maxPs_right (first 0) (first 2)).trans (le_maxPs_left (second 0) _)
    · exact (le_maxPs_right (first 1) (first 3)).trans (le_maxPs_right _ (second 1))
  rw [hfront]
  have hhalf : i.val % 4 < 4 := Nat.mod_lt _ (by decide)
  refine le_trans ?_ (hfirst ⟨i % 4, hhalf⟩)
  rcases Nat.lt_or_ge i 4 with hlow | hhigh
  · have hlane : extractf128 maximum 0 ⟨i % 4, hhalf⟩ = maximum i := by
      rw [extractf128]
      congr 1
      exact Fin.ext (by show 4 * 0 + i.val % 4 = i.val; omega)
    rw [← hlane]
    exact le_maxPs_right _ _
  · have hlane : extractf128 maximum 1 ⟨i % 4, hhalf⟩ = maximum i := by
      rw [extractf128]
      congr 1
      exact Fin.ext (by show 4 * 1 + i.val % 4 = i.val; omega)
    rw [← hlane]
    exact le_maxPs_left _ _

theorem acrossLanes_cases {P : ℚ → Prop} {maximum : Fin 8 → ℚ} (h : ∀ i, P (maximum i)) :
    let max4 := fun i => maxPs (extractf128 maximum 1 i) (extractf128 maximum 0 i)
    let max4 := fun i => maxPs (max4 i) (movehl max4 max4 i)
    P (maxSs max4 (movehdup max4) 0) := by
  intro first second
  have hfirst (l : Fin 4) : P (first l) := maxPs_cases (h _) (h _)
  have hfront : maxSs second (movehdup second) 0 = maxPs (second 0) (second 1) := Function.update_self ..
  rw [hfront]
  exact maxPs_cases (maxPs_cases (hfirst 0) (hfirst 2)) (maxPs_cases (hfirst 1) (hfirst 3))

theorem isMaximum_maximumAvx2 (block : Fin 32 → ℚ) : IsMaximum block (maximumAvx2 block) := by
  obtain ⟨lanes, hlanes⟩ : ∃ lanes : Fin 8 → ℚ, lanes = fun i =>
      maxPs (maxPs (maxPs |load block 0 i| |load block 1 i|) |load block 2 i|) |load block 3 i| := ⟨_, rfl⟩
  have hle (part : Fin 4) (i : Fin 8) : |load block part i| ≤ lanes i := by
    rw [hlanes]
    fin_cases part
    · exact ((le_maxPs_left _ _).trans (le_maxPs_left _ _)).trans (le_maxPs_left _ _)
    · exact ((le_maxPs_right _ _).trans (le_maxPs_left _ _)).trans (le_maxPs_left _ _)
    · exact (le_maxPs_right _ _).trans (le_maxPs_left _ _)
    · exact le_maxPs_right _ _
  have hmem (i : Fin 8) : ∃ j, lanes i = |block j| := by
    rw [hlanes]
    exact maxPs_cases (P := fun x => ∃ j, x = |block j|)
      (maxPs_cases (P := fun x => ∃ j, x = |block j|)
        (maxPs_cases (P := fun x => ∃ j, x = |block j|) ⟨_, rfl⟩ ⟨_, rfl⟩) ⟨_, rfl⟩) ⟨_, rfl⟩
  rw [maximumAvx2, ← hlanes]
  refine ⟨acrossLanes_cases (P := fun x => ∃ j, x = |block j|) hmem, fun i => ?_⟩
  rw [eq_load block i]
  exact (hle _ _).trans (acrossLanes_le lanes _)

theorem maximumAvx2_eq (block : Fin 32 → ℚ) : maximumAvx2 block = maximumScalar block :=
  (isMaximum_maximumAvx2 block).unique (isMaximum_maximumScalar block)

end

/-! ### The scale -/

/-- A conversion that keeps every number gives one pattern. -/
theorem Widens.unique {a b b' : ℕ} (hb : b < 2 ^ 32) (hb' : b' < 2 ^ 32) (h : Widens half single a b)
    (h' : Widens half single a b') (hnan : ¬ half.IsNaN a) : b = b' := by
  have hnegative : 2147483648 ≤ b ↔ 2147483648 ≤ b' := h.negative.trans h'.negative.symm
  have hmagnitude : single.magnitude b = single.magnitude b' := by
    by_cases hfinite : half.IsFinite a
    · have habs := congrArg (|·|) ((h.finite hfinite).2.trans (h'.finite hfinite).2.symm)
      simp only [single.abs_value] at habs
      exact single.strictMono_size.injective habs
    · have hinfinite : half.IsInfinite a := Nat.le_antisymm (Nat.not_lt.mp hnan) (Nat.not_lt.mp hfinite)
      exact (h.infinite hinfinite).trans (h'.infinite hinfinite).symm
  have hmod : b % 2147483648 = b' % 2147483648 := hmagnitude
  omega

theorem magnitude_exactToHalf (x : ℚ) :
    (exactToHalf x).toNat = (if x < 0 then 32768 else 0) + Nat.min (half.nearest x) 31744 := by
  have hmin : Nat.min (half.nearest x) 31744 ≤ 31744 := Nat.min_le_right _ _
  rw [exactToHalf, show half.signBit = 32768 from rfl, show half.infinity = 31744 from rfl]
  refine UInt16.toNat_ofNat_of_lt' ?_
  split_ifs
  · show 32768 + _ < 65536
    omega
  · show 0 + _ < 65536
    omega

/-- For the numbers of single precision it is `float_to_half`. -/
theorem exactToHalf_value {bits : UInt32} (h : single.IsFinite bits.toNat)
    (hpos : single.Negative bits.toNat → single.value bits.toNat < 0) :
    exactToHalf (single.value bits.toNat) = floatToHalf bits := by
  have hlt := bits.toNat_lt
  obtain ⟨m, hm, hr⟩ := toNat_floatToHalf h
  have hnear := isNearestEven_nearest half (single.value bits.toNat)
  rw [single.abs_value] at hnear
  have hsame := hnear.unique half.strictMono_size hm
  have hsign : single.value bits.toNat < 0 ↔ 2147483648 ≤ bits.toNat := by
    refine ⟨fun hneg => ?_, hpos⟩
    by_contra hge
    have hsign : single.sign bits.toNat = 1 := if_neg hge
    rw [Format.value, hsign, one_mul] at hneg
    exact absurd hneg (single.size_nonneg _).not_gt
  rw [← UInt16.toNat_inj, magnitude_exactToHalf, hr, hsame]
  simp only [hsign]
  split_ifs <;> omega

/-- Instructions that follow the two functions. -/
def F16c.exact : F16c where
  cvtssSh := exactToHalf
  cvtshSs value := (halfToFloat value).getD 0
  negative x := by
    have hmin : Nat.min (half.nearest x) 31744 ≤ 31744 := Nat.min_le_right _ _
    show 32768 ≤ _ ↔ _
    rw [magnitude_exactToHalf]
    split_ifs with h
    · exact iff_of_true (by omega) h
    · exact iff_of_false (by omega) h
  nearest x := by
    have hmin : Nat.min (half.nearest x) 31744 ≤ 31744 := Nat.min_le_right _ _
    refine ⟨half.nearest x, isNearestEven_nearest half x, ?_⟩
    show _ % 32768 = Nat.min _ 31744
    rw [magnitude_exactToHalf]
    split_ifs <;> omega
  widens value := by
    obtain ⟨bits, heq, hwidens⟩ := widens_halfToFloat value
    rw [heq]
    exact hwidens

/-- The instruction gives the same scale. -/
theorem cvtssSh_eq (f16c : F16c) {x : ℚ} (hx : 0 ≤ x) : f16c.cvtssSh x = exactToHalf x := by
  have hlt := (f16c.cvtssSh x).toNat_lt
  obtain ⟨m, hm, hr⟩ := f16c.nearest x
  have hsame := hm.unique half.strictMono_size (isNearestEven_nearest half x)
  have hneg : ¬ 32768 ≤ (f16c.cvtssSh x).toNat := (f16c.negative x).not.mpr hx.not_gt
  have hr' : (f16c.cvtssSh x).toNat % 32768 = Nat.min m 31744 := hr
  rw [← UInt16.toNat_inj, magnitude_exactToHalf, if_neg hx.not_gt, ← hsame, ← hr']
  omega

theorem not_isNaN_exactToHalf (x : ℚ) : ¬ half.IsNaN (exactToHalf x).toNat := by
  have hmin : Nat.min (half.nearest x) 31744 ≤ 31744 := Nat.min_le_right _ _
  rw [magnitude_exactToHalf]
  show ¬ 31744 < _ % 32768
  split_ifs <;> omega

theorem halfToFloat_exactToHalf (f16c : F16c) (x : ℚ) :
    halfToFloat (exactToHalf x) = some (f16c.cvtshSs (exactToHalf x)) := by
  obtain ⟨bits, heq, hwidens⟩ := widens_halfToFloat (exactToHalf x)
  have hsame : bits.toNat = (f16c.cvtshSs (exactToHalf x)).toNat :=
    hwidens.unique bits.toNat_lt (UInt32.toNat_lt _) (f16c.widens _) (not_isNaN_exactToHalf x)
  rw [heq, UInt32.toNat_inj.mp hsame]

/-! ### The numbers -/

section
variable {block : Fin 32 → ℚ} {maximum : ℚ}

/-- No multiple is beyond the range of a byte. -/
theorem IsMaximum.abs_mul_inverse_le (h : IsMaximum block maximum) (i : Fin 32) :
    |block i * inverse maximum| ≤ (127 : ℤ) := by
  have hle := h.le i
  rw [inverse]
  split_ifs with hzero
  · have hpos : 0 < maximum := lt_of_le_of_ne h.nonneg (Ne.symm hzero)
    rw [abs_mul, abs_div, abs_of_pos hpos, ← mul_div_assoc, div_le_iff₀ hpos]
    push_cast
    rw [abs_of_pos (by norm_num : (0 : ℚ) < 127), mul_comm]
    exact mul_le_mul_of_nonneg_left hle (by norm_num)
  · rw [mul_zero, abs_zero]
    norm_num

/-- The byte of a number that fits. -/
theorem saturate_cvtpsEpi32 {x : ℤ} (h : |x| ≤ 127) :
    Int8.ofIntClamp (Int16.ofIntClamp (cvtpsEpi32 x).toInt).toInt = Int8.ofInt x := by
  obtain ⟨hlow, hhigh⟩ := abs_le.mp h
  have hword : (cvtpsEpi32 x).toInt = x := by
    rw [cvtpsEpi32, if_pos (by omega), Int32.toInt_ofInt_of_le (by omega) (by omega)]
  have hhalf : (Int16.ofIntClamp x).toInt = x := Int16.toInt_ofIntClamp
    (hlow.trans' (by decide)) (hhigh.trans (by decide))
  have hbyte : (Int8.ofIntClamp x).toInt = x := Int8.toInt_ofIntClamp
    (hlow.trans' (by decide)) (hhigh.trans (by decide))
  rw [hword, hhalf, ← Int8.toInt_inj, hbyte, Int8.toInt_ofInt_of_le (by omega) (by omega)]

/-- The permutation puts the numbers back in the order of the block. -/
theorem permutevar8x32_packs (q : Fin 4 → Fin 8 → Int32) (i : Fin 32) :
    permutevar8x32 (packsEpi16 (packsEpi32 (q 0) (q 1)) (packsEpi32 (q 2) (q 3))) permutation i =
      Int8.ofIntClamp (Int16.ofIntClamp (q ⟨i / 8, by omega⟩ ⟨i % 8, by omega⟩).toInt).toInt := by
  fin_cases i <;> rfl

theorem quantizeAvx2_values (f16c : F16c) (block : Fin 32 → ℚ) (i : Fin 32) :
    (quantizeAvx2 f16c block).values i =
      Int8.ofInt (nearestEven (block i * inverse (maximumScalar block))) := by
  have hle := (isMaximum_maximumScalar block).abs_mul_inverse_le i
  rw [quantizeAvx2, maximumAvx2_eq]
  refine (permutevar8x32_packs (fun part i =>
    cvtpsEpi32 (nearestEven (load block part i * inverse (maximumScalar block)))) i).trans ?_
  rw [← eq_load, saturate_cvtpsEpi32 (abs_nearestEven_le hle)]

/-- The two scales are the same. -/
theorem quantizeAvx2_scale (f16c : F16c) (block : Fin 32 → ℚ) :
    (quantizeAvx2 f16c block).scaleBits = (quantizeScalar block).scaleBits ∧
      (quantizeAvx2 f16c block).scale = (quantizeScalar block).scale := by
  have hnonneg := (isMaximum_maximumScalar block).nonneg
  have hbits : f16c.cvtssSh (maximumScalar block / 127) = exactToHalf (maximumScalar block / 127) :=
    cvtssSh_eq f16c (div_nonneg hnonneg (by norm_num))
  rw [quantizeAvx2, quantizeScalar, maximumAvx2_eq, hbits]
  exact ⟨rfl, (halfToFloat_exactToHalf f16c _).symm⟩

theorem ofInt_eq_iff {x y : ℤ} (hx : |x| ≤ 127) (hy : |y| ≤ 127) : Int8.ofInt x = Int8.ofInt y ↔ x = y := by
  rw [abs_le] at hx hy
  rw [← Int8.toInt_inj, Int8.toInt_ofInt_of_le (by omega) (by omega),
    Int8.toInt_ofInt_of_le (by omega) (by omega)]

/-- Two bytes differ when the multiple is half way from an even integer to the next. -/
theorem values_eq_iff (f16c : F16c) (block : Fin 32 → ℚ) (i : Fin 32) :
    (quantizeScalar block).values i = (quantizeAvx2 f16c block).values i ↔
      ∀ j : ℕ, |block i * inverse (maximumScalar block)| ≠ 2 * j + 1 / 2 := by
  have hle := (isMaximum_maximumScalar block).abs_mul_inverse_le i
  rw [quantizeAvx2_values, ← nearestAway_eq_nearestEven_iff]
  exact ofInt_eq_iff (abs_nearestAway_le hle) (abs_nearestEven_le hle)

/-- The same in terms of the numbers of the block. -/
theorem abs_mul_inverse_eq_iff (h : IsMaximum block maximum) (i : Fin 32) (j : ℕ) :
    |block i * inverse maximum| = 2 * j + 1 / 2 ↔
      maximum ≠ 0 ∧ 254 * |block i| = (4 * j + 1) * maximum := by
  rw [inverse]
  split_ifs with hzero
  · have hpos : 0 < maximum := lt_of_le_of_ne h.nonneg (Ne.symm hzero)
    rw [abs_mul, abs_div, abs_of_pos hpos, abs_of_pos (by norm_num : (0 : ℚ) < 127), ← mul_div_assoc,
      div_eq_iff hpos.ne']
    constructor
    · intro heq
      exact ⟨hzero, by linarith⟩
    · rintro ⟨-, heq⟩
      linarith
  · rw [mul_zero, abs_zero]
    refine iff_of_false ?_ fun h => h.1 (not_not.mp hzero)
    have hj : (0 : ℚ) ≤ j := Nat.cast_nonneg j
    linarith

/-- A block whose second number is half way from 0 to 1. -/
def halfway : Fin 32 → ℚ := fun i => if i = 0 then 127 else if i = 1 then 1 / 2 else 0

theorem isMaximum_halfway : IsMaximum halfway 127 where
  mem := ⟨0, by norm_num [halfway]⟩
  le i := by
    rw [halfway]
    split_ifs <;> norm_num

theorem quantize_halfway :
    (quantizeScalar halfway).values 1 = 1 ∧ (quantizeAvx2 F16c.exact halfway).values 1 = 0 := by
  have hmaximum : maximumScalar halfway = 127 := (isMaximum_maximumScalar halfway).unique isMaximum_halfway
  have hsecond : halfway 1 * inverse 127 = 1 / 2 := by norm_num [halfway, inverse]
  have hfloor : ⌊(1 / 2 : ℚ)⌋ = 0 := by norm_num
  have hfract : 2 * Int.fract (1 / 2 : ℚ) = 1 := by
    rw [Int.fract, hfloor]
    norm_num
  constructor
  · show Int8.ofInt (nearestAway (halfway 1 * inverse (maximumScalar halfway))) = 1
    rw [hmaximum, hsecond, nearestAway_of_nonneg (by norm_num), if_neg hfract.not_lt, hfloor]
    rfl
  · rw [quantizeAvx2_values, hmaximum, hsecond, nearestEven, if_neg hfract.not_lt,
      if_neg hfract.symm.not_lt, hfloor]
    rfl

/-- The two give the same block where no number lies half way from an even integer to the next. -/
theorem quantize_eq_iff (f16c : F16c) (block : Fin 32 → ℚ) :
    quantizeScalar block = quantizeAvx2 f16c block ↔
      ∀ i m, (∀ n, |block n| ≤ |block m|) → block m ≠ 0 →
        ∀ j : ℕ, 254 * |block i| ≠ (4 * j + 1) * |block m| := by
  have hmax := isMaximum_maximumScalar block
  have hlargest {m : Fin 32} (hm : ∀ n, |block n| ≤ |block m|) : |block m| = maximumScalar block :=
    IsMaximum.unique ⟨⟨m, rfl⟩, hm⟩ hmax
  have hvalues : quantizeScalar block = quantizeAvx2 f16c block ↔
      ∀ i, (quantizeScalar block).values i = (quantizeAvx2 f16c block).values i := by
    refine ⟨fun heq i => by rw [heq], fun h => ?_⟩
    obtain ⟨hbits, hscale⟩ := quantizeAvx2_scale f16c block
    exact Quantized.ext hbits.symm hscale.symm (funext h)
  rw [hvalues]
  refine forall_congr' fun i => ?_
  rw [values_eq_iff]
  constructor
  · intro h m hm hne j heq
    rw [hlargest hm] at heq
    exact h j ((abs_mul_inverse_eq_iff hmax i j).mpr
      ⟨by rw [← hlargest hm]; exact abs_ne_zero.mpr hne, heq⟩)
  · intro h j heq
    obtain ⟨hne, heq⟩ := (abs_mul_inverse_eq_iff hmax i j).mp heq
    obtain ⟨m, hm⟩ := hmax.mem
    rw [hm] at hne heq
    exact h m (fun n => by rw [← hm]; exact hmax.le n) (abs_ne_zero.mp hne) j heq

end

end Cpu

end FortAI
