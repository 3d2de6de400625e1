import FortAI.Cpu.Quantize
import Mathlib.Algebra.BigOperators.Fin

/-!
# The dot product of quantized blocks

Both operands are 32 signed bytes.  `q8_dot_scalar` adds the products one by one; `q8_dot_avx2` moves the
sign of a weight to the other operand, because the instruction for pairs of products takes unsigned bytes
on its left, and the instruction holds a pair in a 16-bit integer and saturates.

* `dot_eq` : no pair saturates, and the lanes add up to what the loop has.
* `rowAvx2_eq` : so it is for every block of every row.
-/

namespace FortAI

namespace Cpu

/-! ### The two routines -/

/-- The loop over a block in `q8_dot_scalar`. -/
def dotScalar (weights quantized : Fin 32 → Int8) : Int32 :=
  (List.ofFn fun i => (weights i, quantized i)).foldl
    (fun dot (pair : Int8 × Int8) => dot + pair.1.toInt32 * pair.2.toInt32) 0

/-- `_mm256_sign_epi8` -/
def signEpi8 (a b : Fin 32 → Int8) : Fin 32 → Int8 := fun i =>
  if b i < 0 then -(a i) else if b i = 0 then 0 else a i

/-- `_mm256_maddubs_epi16`; the bytes on the left count as unsigned. -/
def maddubsEpi16 (a b : Fin 32 → Int8) : Fin 16 → Int16 := fun i =>
  let product (j : Fin 32) : ℤ := (a j).toUInt8.toNat * (b j).toInt
  Int16.ofIntClamp (product ⟨2 * i, by omega⟩ + product ⟨2 * i + 1, by omega⟩)

/-- `_mm256_madd_epi16` -/
def maddEpi16 (a b : Fin 16 → Int16) : Fin 8 → Int32 := fun i =>
  let product (j : Fin 16) : Int32 := (a j).toInt32 * (b j).toInt32
  product ⟨2 * i, by omega⟩ + product ⟨2 * i + 1, by omega⟩

/-- `products` in `q8_dot_avx2` -/
def products (weight activation : Fin 32 → Int8) : Fin 16 → Int16 :=
  maddubsEpi16 (signEpi8 weight weight) (signEpi8 activation weight)

/-- `pairs` in `q8_dot_avx2` -/
def pairs (weight activation : Fin 32 → Int8) : Fin 8 → Int32 :=
  maddEpi16 (products weight activation) fun _ => 1

/-- The values of the block of 34 bytes at an offset, behind its scale. -/
def blockAt (bytes : ℕ → Int8) (offset : ℕ) : Fin 32 → Int8 := fun i => bytes (offset + 2 + i)

/-- `dot` in every block of a row, in `q8_dot_scalar`. -/
def rowScalar (weights quantized : ℕ → Int8) (row blockCount : ℕ) : List Int32 :=
  (List.range blockCount).map fun block =>
    dotScalar (blockAt weights ((row * blockCount + block) * 34)) (blockAt quantized (block * 34))

/-- One turn of the loop in `q8_dot_avx2`, which counts its offset up. -/
def turnAvx2 (rowStart activationStart : ℕ → Int8) (state : ℕ × List (Fin 8 → Int32)) :
    ℕ × List (Fin 8 → Int32) :=
  (state.1 + 34, state.2 ++ [pairs (blockAt rowStart state.1) (blockAt activationStart state.1)])

/-- `pairs` in every block of a row, in `q8_dot_avx2`. -/
def rowAvx2 (weights quantized : ℕ → Int8) (row blockCount : ℕ) : List (Fin 8 → Int32) :=
  ((turnAvx2 (fun i => weights (row * blockCount * 34 + i)) quantized)^[blockCount] (0, [])).2

/-! ### The scalar loop -/

/-- No 32-bit sum of so few products of bytes overflows. -/
theorem toInt_foldl (l : List (Int8 × Int8)) (start : Int32)
    (h : |start.toInt| + 16384 * l.length < 2 ^ 31) :
    (l.foldl (fun dot (pair : Int8 × Int8) => dot + pair.1.toInt32 * pair.2.toInt32) start).toInt =
      start.toInt + (l.map fun pair => pair.1.toInt * pair.2.toInt).sum := by
  induction l generalizing start with
  | nil => simp
  | cons pair l ih =>
    have hbound : |pair.1.toInt * pair.2.toInt| ≤ 16384 := by
      have ha : |pair.1.toInt| ≤ 128 := abs_le.mpr ⟨pair.1.le_toInt, pair.1.toInt_lt.le⟩
      have hb : |pair.2.toInt| ≤ 128 := abs_le.mpr ⟨pair.2.le_toInt, pair.2.toInt_lt.le⟩
      rw [abs_mul]
      exact mul_le_mul ha hb (abs_nonneg _) (by norm_num)
    have hsum := abs_add_le start.toInt (pair.1.toInt * pair.2.toInt)
    rw [List.length_cons] at h
    push_cast at h
    have hlength : (0 : ℤ) ≤ l.length := Int.natCast_nonneg _
    have hproduct : (pair.1.toInt32 * pair.2.toInt32).toInt = pair.1.toInt * pair.2.toInt := by
      obtain ⟨hlow, hhigh⟩ := abs_le.mp hbound
      rw [Int32.toInt_mul, Int8.toInt_toInt32, Int8.toInt_toInt32]
      exact Int.bmod_eq_of_le (by omega) (by omega)
    have hturn : (start + pair.1.toInt32 * pair.2.toInt32).toInt =
        start.toInt + pair.1.toInt * pair.2.toInt := by
      obtain ⟨hlow, hhigh⟩ := abs_le.mp (hsum.trans (by omega : _ ≤ (2 : ℤ) ^ 31 - 1))
      rw [Int32.toInt_add, hproduct]
      exact Int.bmod_eq_of_le (by omega) (by omega)
    rw [List.foldl_cons, ih _ (by rw [hturn]; omega), hturn, List.map_cons, List.sum_cons, add_assoc]

theorem toInt_dotScalar (weights quantized : Fin 32 → Int8) :
    (dotScalar weights quantized).toInt = ∑ i, (weights i).toInt * (quantized i).toInt := by
  have hzero : |(0 : Int32).toInt| = 0 := by decide
  rw [dotScalar, toInt_foldl _ _ (by rw [hzero, List.length_ofFn]; norm_num), List.map_ofFn, List.sum_ofFn]
  exact zero_add _

/-! ### The lanes -/

theorem toNat_toUInt8 (w : Int8) :
    (w.toUInt8.toNat : ℤ) = if w.toInt < 0 then w.toInt + 256 else w.toInt := by
  have htoInt : w.toInt = w.toBitVec.toInt := rfl
  have htoNat : w.toUInt8.toNat = w.toBitVec.toNat := rfl
  have hlt := w.toBitVec.isLt
  rw [htoInt, htoNat, BitVec.toInt]
  split_ifs <;> omega

/-- The byte that stands for an absolute value; the opposite of -128 is read back as 128. -/
theorem toNat_sign_self (weight : Fin 32 → Int8) (i : Fin 32) :
    ((signEpi8 weight weight i).toUInt8.toNat : ℤ) = |(weight i).toInt| := by
  have hlow := (weight i).le_toInt
  rw [signEpi8, toNat_toUInt8]
  split_ifs with hneg hlt hzero hlt hlt
  · -- the byte is negative again: only -128 is its own opposite
    have hneg' : (weight i).toInt < 0 := Int8.lt_iff_toInt_lt.mp hneg
    rw [Int8.toInt_neg, Int.bmod_def] at hlt ⊢
    rw [abs_of_neg hneg']
    split_ifs at hlt ⊢ <;> omega
  · have hneg' : (weight i).toInt < 0 := Int8.lt_iff_toInt_lt.mp hneg
    rw [Int8.toInt_neg, Int.bmod_def] at hlt ⊢
    rw [abs_of_neg hneg']
    split_ifs at hlt ⊢ <;> omega
  · exact absurd hlt (by decide)
  · rw [hzero]
    decide
  · exact absurd (Int8.lt_iff_toInt_lt.mpr hlt) hneg
  · exact (abs_of_nonneg (not_lt.mp hlt)).symm

/-- The activation with the sign of the weight; -128 has no opposite. -/
theorem toInt_sign (weight activation : Fin 32 → Int8) (i : Fin 32) (h : -127 ≤ (activation i).toInt) :
    (signEpi8 activation weight i).toInt = (weight i).toInt.sign * (activation i).toInt := by
  have hhigh := (activation i).toInt_lt
  rw [signEpi8]
  split_ifs with hneg hzero
  · have hneg' : (weight i).toInt < 0 := Int8.lt_iff_toInt_lt.mp hneg
    rw [Int8.toInt_neg, Int.sign_eq_neg_one_of_neg hneg', neg_one_mul]
    exact Int.bmod_eq_of_le (by omega) (by omega)
  · rw [hzero]
    simp
  · have hpos : 0 < (weight i).toInt := by
      refine lt_of_le_of_ne (not_lt.mp fun hlt => hneg (Int8.lt_iff_toInt_lt.mpr hlt)) fun heq => hzero ?_
      exact Int8.toInt_inj.mp heq.symm
    rw [Int.sign_eq_one_of_pos hpos, one_mul]

/-- The signs cancel. -/
theorem sign_products (weight activation : Fin 32 → Int8) (i : Fin 32) (h : -127 ≤ (activation i).toInt) :
    ((signEpi8 weight weight i).toUInt8.toNat : ℤ) * (signEpi8 activation weight i).toInt =
      (weight i).toInt * (activation i).toInt := by
  rw [toNat_sign_self, toInt_sign _ _ _ h, ← mul_assoc, mul_comm |_|, Int.sign_mul_abs]

theorem abs_product_le (w q : Int8) (h : -127 ≤ q.toInt) : |w.toInt * q.toInt| ≤ 16256 := by
  have hw : |w.toInt| ≤ 128 := abs_le.mpr ⟨w.le_toInt, w.toInt_lt.le⟩
  have hq : |q.toInt| ≤ 127 := abs_le.mpr ⟨h, Int.lt_add_one_iff.mp q.toInt_lt⟩
  rw [abs_mul]
  exact mul_le_mul hw hq (abs_nonneg _) (by norm_num)

/-- Two 16-bit integers add up in 32 bits. -/
theorem toInt_maddEpi16_one (a : Fin 16 → Int16) (i : Fin 8) :
    (maddEpi16 a (fun _ => 1) i).toInt = (a ⟨2 * i, by omega⟩).toInt + (a ⟨2 * i + 1, by omega⟩).toInt := by
  have hone (x : Int32) : x * (1 : Int16).toInt32 = x := Int32.mul_one x
  have hlow (j : Fin 16) := (a j).le_toInt
  have hhigh (j : Fin 16) := (a j).toInt_lt
  show ((a _).toInt32 * (1 : Int16).toInt32 + (a _).toInt32 * (1 : Int16).toInt32).toInt = _
  rw [hone, hone, Int32.toInt_add, Int16.toInt_toInt32, Int16.toInt_toInt32]
  refine Int.bmod_eq_of_le ?_ ?_
  · exact (add_le_add (hlow _) (hlow _)).trans' (by norm_num)
  · exact (add_lt_add (hhigh _) (hhigh _)).trans (by norm_num)

/-- A sum taken in pairs. -/
theorem sum_pairs (n : ℕ) (f : Fin (n * 2) → ℤ) :
    ∑ i, f i = ∑ i : Fin n, (f ⟨2 * i, by omega⟩ + f ⟨2 * i + 1, by omega⟩) := by
  rw [← finProdFinEquiv.sum_comp f, Fintype.sum_prod_type]
  refine Finset.sum_congr rfl fun i _ => ?_
  rw [Fin.sum_univ_two]
  congr 2
  · exact Fin.ext (zero_add _)
  · exact Fin.ext (add_comm _ _)

section
variable {weight activation : Fin 32 → Int8} (h : ∀ i, -127 ≤ (activation i).toInt)
include h

/-- A pair of products fits into 16 bits. -/
theorem toInt_products (i : Fin 16) :
    (products weight activation i).toInt =
      (weight ⟨2 * i, by omega⟩).toInt * (activation ⟨2 * i, by omega⟩).toInt +
        (weight ⟨2 * i + 1, by omega⟩).toInt * (activation ⟨2 * i + 1, by omega⟩).toInt := by
  obtain ⟨hlow, hhigh⟩ := abs_le.mp (abs_product_le (weight ⟨2 * i, by omega⟩) _ (h ⟨2 * i, by omega⟩))
  obtain ⟨hlow', hhigh'⟩ :=
    abs_le.mp (abs_product_le (weight ⟨2 * i + 1, by omega⟩) _ (h ⟨2 * i + 1, by omega⟩))
  rw [products, maddubsEpi16]
  simp only [sign_products _ _ _ (h _)]
  refine Int16.toInt_ofIntClamp ?_ ?_
  · show -32768 ≤ _
    linarith
  · show _ ≤ 32767
    linarith

/-- The lanes add up to the products of all the bytes. -/
theorem sum_toInt_pairs :
    ∑ lane, (pairs weight activation lane).toInt = ∑ i, (weight i).toInt * (activation i).toInt := by
  calc ∑ lane, (pairs weight activation lane).toInt
      = ∑ lane : Fin 8, ((products weight activation ⟨2 * lane, by omega⟩).toInt +
          (products weight activation ⟨2 * lane + 1, by omega⟩).toInt) :=
        Finset.sum_congr rfl fun lane _ => toInt_maddEpi16_one _ lane
    _ = ∑ i : Fin 16, (products weight activation i).toInt :=
        (sum_pairs 8 fun i => (products weight activation i).toInt).symm
    _ = ∑ i : Fin 16, ((weight ⟨2 * i, by omega⟩).toInt * (activation ⟨2 * i, by omega⟩).toInt +
          (weight ⟨2 * i + 1, by omega⟩).toInt * (activation ⟨2 * i + 1, by omega⟩).toInt) :=
        Finset.sum_congr rfl fun i _ => toInt_products h i
    _ = ∑ i, (weight i).toInt * (activation i).toInt :=
        (sum_pairs 16 fun i => (weight i).toInt * (activation i).toInt).symm

end

/-! ### The two routines -/

/-- No pair of products saturates, and the lanes add up to what the loop has. -/
theorem dot_eq (weight activation : Fin 32 → Int8) (h : ∀ i, -127 ≤ (activation i).toInt) :
    (∀ i : Fin 16, (products weight activation i).toInt =
      (weight ⟨2 * i, by omega⟩).toInt * (activation ⟨2 * i, by omega⟩).toInt +
        (weight ⟨2 * i + 1, by omega⟩).toInt * (activation ⟨2 * i + 1, by omega⟩).toInt) ∧
    ∑ lane, (pairs weight activation lane).toInt = (dotScalar weight activation).toInt ∧
    (dotScalar weight activation).toInt = ∑ i, (weight i).toInt * (activation i).toInt := by
  have hscalar := toInt_dotScalar weight activation
  exact ⟨toInt_products h, (sum_toInt_pairs h).trans hscalar.symm, hscalar⟩

/-- The smallest weights against the smallest activations of a pair. -/
theorem dot_eq_extreme :
    ∑ lane, (pairs (fun _ => -128) (fun _ => -127) lane).toInt =
      (dotScalar (fun _ => -128) fun _ => -127).toInt :=
  (dot_eq (fun _ => -128) (fun _ => -127) fun _ => by decide).2.1

/-- After so many turns the offset is that of the next block. -/
theorem iterate_turnAvx2 (rowStart activationStart : ℕ → Int8) (n : ℕ) :
    (turnAvx2 rowStart activationStart)^[n] (0, []) =
      (n * 34, (List.range n).map fun block =>
        pairs (blockAt rowStart (block * 34)) (blockAt activationStart (block * 34))) := by
  induction n with
  | zero => rfl
  | succ n ih =>
    rw [Function.iterate_succ_apply', ih, turnAvx2, List.range_succ, List.map_append, Nat.succ_mul]
    rfl

/-- Block by block, the lanes for a row add up to what the loops have. -/
theorem rowAvx2_eq (weights quantized : ℕ → Int8) (row blockCount : ℕ)
    (h : ∀ block i, -127 ≤ (blockAt quantized (block * 34) i).toInt) :
    (rowAvx2 weights quantized row blockCount).map (fun lanes => ∑ lane, (lanes lane).toInt) =
      (rowScalar weights quantized row blockCount).map Int32.toInt := by
  rw [rowAvx2, iterate_turnAvx2, rowScalar, List.map_map, List.map_map]
  refine List.map_congr_left fun block _ => ?_
  have hstart : blockAt (fun i => weights (row * blockCount * 34 + i)) (block * 34) =
      blockAt weights ((row * blockCount + block) * 34) := by
    funext i
    simp only [blockAt]
    congr 1
    ring
  show ∑ lane, (pairs _ _ lane).toInt = (dotScalar _ _).toInt
  rw [hstart, sum_toInt_pairs (h block), toInt_dotScalar]

/-- The quantizers write no byte -128. -/
theorem neg_le_quantize (f16c : F16c) (block : Fin 32 → ℚ) (i : Fin 32) :
    -127 ≤ ((quantizeScalar block).values i).toInt ∧ -127 ≤ ((quantizeAvx2 f16c block).values i).toInt := by
  have hle := (isMaximum_maximumScalar block).abs_mul_inverse_le i
  have hbyte {x : ℤ} (hx : |x| ≤ 127) : -127 ≤ (Int8.ofInt x).toInt := by
    obtain ⟨hlow, hhigh⟩ := abs_le.mp hx
    rw [Int8.toInt_ofInt_of_le (by omega) (by omega)]
    exact hlow
  constructor
  · exact hbyte (Rounding.abs_nearestAway_le hle)
  · rw [quantizeAvx2_values]
    exact hbyte (Rounding.abs_nearestEven_le hle)

/-- So any weights can be multiplied with what they wrote. -/
theorem sum_toInt_pairs_quantize (f16c : F16c) (weight : Fin 32 → Int8) (block : Fin 32 → ℚ) :
    ∑ lane, (pairs weight (quantizeScalar block).values lane).toInt =
        (dotScalar weight (quantizeScalar block).values).toInt ∧
      ∑ lane, (pairs weight (quantizeAvx2 f16c block).values lane).toInt =
        (dotScalar weight (quantizeAvx2 f16c block).values).toInt := by
  rw [toInt_dotScalar, toInt_dotScalar]
  exact ⟨sum_toInt_pairs fun i => (neg_le_quantize f16c block i).1,
    sum_toInt_pairs fun i => (neg_le_quantize f16c block i).2⟩

end Cpu

end FortAI
