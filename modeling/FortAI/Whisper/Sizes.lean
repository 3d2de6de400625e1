import FortAI.Gguf.Format
import FortAI.Whisper.Format
import Mathlib.Algebra.Order.Group.Unbundled.Int
import Mathlib.Algebra.Order.Ring.Abs
import Mathlib.Tactic.Ring

/-!
# The sizes of tensors in the two readers

Both readers compute how many bytes a tensor takes.  The reader of GGUF files wants rows of whole
blocks; the reader of Whisper files wants a number of elements that makes up whole blocks.  Their
tables differ in the type 20: 32 elements in 18 bytes there, 256 elements in 36 bytes here.

* `sizesAgree_iff` : when the two readers agree.
* `sizesAgree_iff_of_lt` : the same where the product of the dimensions is in range.
-/

namespace FortAI

namespace Whisper

open Binary

/-! ### Types of tensors -/

/-- Both readers know this type. -/
def BothAccept (valueType : ℤ) : Prop :=
  (∀ shape elements, Gguf.tensorBytes valueType shape elements ≠ .error .unsupportedQuantization) ∧
    0 < blockSize valueType ∧ 0 < typeSize valueType

/-- The same number of bytes, or no tensor for either reader: the one answers with an error, the other
with no bytes. -/
def SizesAgree (valueType : ℤ) (shape : List ℤ) : Prop :=
  match Gguf.tensorBytes valueType shape (Gguf.tensorElements shape) with
  | .ok byteCount => tensorBytes valueType (elementCount shape) = byteCount
  | .error _ => tensorBytes valueType (elementCount shape) = 0

instance (valueType : ℤ) (shape : List ℤ) : Decidable (SizesAgree valueType shape) := by
  unfold SizesAgree
  split <;> infer_instance

theorem blockBytes_ne_unsupported (shape : List ℤ) (elements width size : ℤ) {e : Gguf.OpenError}
    (h : e ≠ .unsupportedQuantization) :
    Gguf.blockBytes shape elements width size e ≠ .error .unsupportedQuantization := by
  rw [Gguf.blockBytes]
  split_ifs
  · exact fun heq => h (Except.error.inj heq)
  · exact fun heq => by cases heq

/-- The types of tensors that both readers know. -/
theorem bothAccept_iff {valueType : ℤ} :
    BothAccept valueType ↔ valueType ∈ [0, 1, 8, 11, 12, 13, 14, 20, 21, 23] := by
  constructor
  · intro h
    by_contra hmem
    simp only [List.mem_cons, List.not_mem_nil, or_false, not_or] at hmem
    obtain ⟨h0, h1, h8, hquant⟩ := hmem
    refine h.1 [] 0 ?_
    rw [Gguf.tensorBytes, if_neg h0, if_neg h1, if_neg h8, if_neg (by simpa using hquant)]
  · intro hmem
    refine ⟨fun shape elements => ?_, ?_⟩
    · rw [Gguf.tensorBytes]
      split_ifs with h0 h1 h8 hquant
      · exact fun heq => by cases heq
      · exact fun heq => by cases heq
      · exact blockBytes_ne_unsupported _ _ _ _ (by decide)
      · exact blockBytes_ne_unsupported _ _ _ _ (by decide)
      · simp only [List.mem_cons, List.not_mem_nil, or_false] at hmem hquant
        exact absurd (((hmem.resolve_left h0).resolve_left h1).resolve_left h8) hquant
    · simp only [List.mem_cons, List.not_mem_nil, or_false] at hmem
      rcases hmem with rfl | rfl | rfl | rfl | rfl | rfl | rfl | rfl | rfl | rfl <;> decide

/-! ### Whole blocks -/

section
variable {first width size elements x : ℤ}

/-- So few blocks take less than a whole turn of the register. -/
theorem eq_zero_of_dvd_mul (width : ℤ) (hx : |x * width| ≤ 9223372036854775808) (hsize : 0 < size)
    (hlt : size < 2 * width) (h : (18446744073709551616 : ℤ) ∣ x * size) : x = 0 := by
  by_contra hne
  have hpos : 0 < |x| := abs_pos.mpr hne
  have hwidth : 0 < width := by omega
  rw [abs_mul, abs_of_pos hwidth] at hx
  have hsmall : |x * size| < 18446744073709551616 := by
    rw [abs_mul, abs_of_pos hsize]
    calc |x| * size < |x| * (2 * width) := mul_lt_mul_of_pos_left hlt hpos
      _ = 2 * (|x| * width) := by ring
      _ ≤ 18446744073709551616 := by omega
  rcases mul_eq_zero.mp (Int.eq_zero_of_abs_lt_dvd h hsmall) with hzero | hzero
  · exact hne hzero
  · exact hsize.ne' hzero

theorem abs_tdiv_mul_le (elements first : ℤ) : |elements.tdiv first * first| ≤ |elements| := by
  rw [Int.abs_eq_natAbs, Int.abs_eq_natAbs, Int.natAbs_mul, Int.natAbs_tdiv]
  exact Int.ofNat_le.mpr (Nat.div_mul_le_self _ _)

theorem abs_tmod_le (elements first : ℤ) : |elements.tmod first| ≤ |elements| := by
  rw [Int.abs_eq_natAbs, Int.abs_eq_natAbs, Int.natAbs_tmod]
  exact Int.ofNat_le.mpr (Nat.mod_le _ _)

theorem abs_tmod_lt (elements : ℤ) (hfirst : 0 < first) : |elements.tmod first| < first := by
  have := Int.natAbs_tmod elements first
  have := Nat.mod_lt elements.natAbs (Int.natAbs_pos.mpr hfirst.ne')
  rw [Int.abs_eq_natAbs]
  omega

/-- A number of elements for this reader. -/
def wholeBlocks (width size elements : ℤ) : ℤ :=
  if elements.tmod width ≠ 0 then 0 else wrap .int64 (elements.tdiv width * size)

theorem wholeBlocks_of_dvd (h : width ∣ elements) :
    wholeBlocks width size elements = wrap .int64 (elements / width * size) := by
  rw [wholeBlocks, if_neg (not_not.mpr (Int.tmod_eq_zero_of_dvd h)), Int.tdiv_eq_ediv_of_dvd h]

theorem wholeBlocks_of_not_dvd (h : ¬ width ∣ elements) : wholeBlocks width size elements = 0 :=
  if_pos fun hzero => h (Int.dvd_of_tmod_eq_zero hzero)

theorem wrap_eq_zero_iff (width : ℤ) (hx : |x * width| ≤ 9223372036854775808) (hsize : 0 < size)
    (hlt : size < 2 * width) : wrap .int64 (x * size) = 0 ↔ x = 0 := by
  have hzero : wrap .int64 0 = 0 := rfl
  constructor
  · intro h
    rw [← hzero, wrap_eq_wrap_iff, sub_zero] at h
    exact eq_zero_of_dvd_mul width hx hsize hlt h
  · rintro rfl
    rw [zero_mul, hzero]

theorem wholeBlocks_eq_zero_iff (helements : |elements| ≤ 9223372036854775808) (hsize : 0 < size)
    (hlt : size < 2 * width) : wholeBlocks width size elements = 0 ↔ elements = 0 ∨ ¬ width ∣ elements := by
  by_cases hdvd : width ∣ elements
  · rw [wholeBlocks_of_dvd hdvd, wrap_eq_zero_iff width (by rwa [Int.ediv_mul_cancel hdvd]) hsize hlt,
      or_iff_left (not_not.mpr hdvd)]
    constructor
    · intro h
      rw [← Int.ediv_mul_cancel hdvd, h, zero_mul]
    · rintro rfl
      exact Int.zero_ediv width
  · exact iff_of_true (wholeBlocks_of_not_dvd hdvd) (.inr hdvd)

/-- The blocks of the whole rows that the elements make up. -/
def rowBlocks (first width elements : ℤ) : ℤ := elements.tdiv first * (first / width)

theorem rowBlocks_mul (h : width ∣ first) (elements : ℤ) :
    rowBlocks first width elements * width = elements.tdiv first * first := by
  rw [rowBlocks, mul_assoc, Int.ediv_mul_cancel h]

theorem rowBlocks_eq_zero_iff (hfirst : 0 < first) (hwidth : 0 < width) (h : width ∣ first) :
    rowBlocks first width elements = 0 ↔ |elements| < first := by
  have hpos : 0 < first / width := Int.ediv_pos_of_pos_of_dvd hfirst hwidth.le h
  have hdiv : (elements.tdiv first).natAbs = elements.natAbs / first.natAbs :=
    Int.natAbs_tdiv elements first
  rw [rowBlocks, mul_eq_zero, or_iff_left hpos.ne', Int.abs_eq_natAbs, ← Int.natAbs_eq_zero, hdiv,
    Nat.div_eq_zero_iff_lt (Int.natAbs_pos.mpr hfirst.ne')]
  omega

/-- What the reader of GGUF files computes for rows of whole blocks. -/
theorem blockBytes_of_dvd {rest : List ℤ} {e : Gguf.OpenError} (hfirst : 0 < first) (hwidth : 1 < width)
    (h : width ∣ first) (helements : |elements| ≤ 9223372036854775808) :
    Gguf.blockBytes (first :: rest) elements width size e =
      .ok (wrap .int64 (rowBlocks first width elements * size)) := by
  have hrows := abs_tdiv_mul_le elements first
  have hrange : |rowBlocks first width elements| * 2 ≤ 9223372036854775808 := by
    rw [← rowBlocks_mul h, abs_mul, abs_of_pos (by omega : 0 < width)] at hrows
    have := mul_le_mul_of_nonneg_left (by omega : 2 ≤ width)
      (abs_nonneg (rowBlocks first width elements))
    omega
  have hlow := neg_abs_le (rowBlocks first width elements)
  have hhigh := le_abs_self (rowBlocks first width elements)
  have hwrap : wrap .int64 (rowBlocks first width elements) = rowBlocks first width elements :=
    wrap_eq_self (w := .int64) (by show (-9223372036854775808 : ℤ) ≤ _; omega)
      (by show _ < (9223372036854775808 : ℤ); omega)
  rw [Gguf.blockBytes, List.headD_cons, Int.tdiv_eq_ediv_of_dvd h, ← rowBlocks, hwrap, if_neg]
  rintro (hneg | hrest)
  · omega
  · exact hrest (Int.tmod_eq_zero_of_dvd h)

theorem blockBytes_of_not_dvd {rest : List ℤ} {e : Gguf.OpenError} (h : ¬ width ∣ first) :
    Gguf.blockBytes (first :: rest) elements width size e = .error e :=
  if_pos (.inr fun hzero => h (Int.dvd_of_tmod_eq_zero hzero))

/-! ### The same rows -/

/-- With the same blocks, whole rows take the same bytes. -/
theorem wholeBlocks_eq_rowBlocks_iff (hwidth : 1 < width) (hfirst : width ∣ first)
    (hdvd : width ∣ elements) (helements : |elements| ≤ 9223372036854775808) (hsize : 0 < size)
    (hlt : size < 2 * width) :
    wholeBlocks width size elements = wrap .int64 (rowBlocks first width elements * size) ↔
      first ∣ elements := by
  have hrest : (elements / width - rowBlocks first width elements) * width = elements.tmod first := by
    rw [sub_mul, Int.ediv_mul_cancel hdvd, rowBlocks_mul hfirst, Int.tmod_def, mul_comm first]
  rw [wholeBlocks_of_dvd hdvd, wrap_eq_wrap_iff, ← sub_mul]
  constructor
  · intro h
    have hzero := eq_zero_of_dvd_mul width
      (by rw [hrest]; exact (abs_tmod_le elements first).trans helements) hsize hlt h
    rw [hzero, zero_mul] at hrest
    exact Int.dvd_of_tmod_eq_zero hrest.symm
  · intro h
    rw [Int.tmod_eq_zero_of_dvd h] at hrest
    rw [(mul_eq_zero.mp hrest).resolve_right (by omega), zero_mul]
    exact dvd_zero _

/-- The blocks of type 20 are not the same: 32 elements in 18 bytes against 256 in 36. -/
theorem wholeBlocks_eq_rowBlocks_iq4 (hfirst : 0 < first) (hrow : 32 ∣ first)
    (helements : |elements| ≤ 9223372036854775808) :
    wholeBlocks 256 36 elements = wrap .int64 (rowBlocks first 32 elements * 18) ↔
      elements = 0 ∨ ¬ 256 ∣ elements ∧ |elements| < first := by
  have hrows := rowBlocks_mul hrow elements
  have hle := abs_tdiv_mul_le elements first
  have hzero_iff : rowBlocks first 32 elements = 0 ↔ |elements| < first :=
    rowBlocks_eq_zero_iff hfirst (by decide) hrow
  by_cases hdvd : 256 ∣ elements
  · rw [wholeBlocks_of_dvd hdvd, wrap_eq_wrap_iff, or_iff_left fun h => h.1 hdvd]
    obtain ⟨blocks, rfl⟩ := hdvd
    rw [Int.mul_ediv_cancel_left _ (by decide)]
    have hrange := abs_le.mp helements
    have hrows_range := abs_le.mp (hle.trans helements)
    constructor
    · intro h
      have hsplit : blocks * 36 - rowBlocks first 32 (256 * blocks) * 18 =
          (2 * blocks - rowBlocks first 32 (256 * blocks)) * 18 := by
        ring
      rw [hsplit] at h
      have hsame := eq_zero_of_dvd_mul 16 (abs_le.mpr ⟨by omega, by omega⟩) (by decide)
        (by decide) h
      -- whole rows of a quarter of the elements would leave three quarters over
      by_contra hne
      have hlt := abs_tmod_lt (256 * blocks) hfirst
      rw [Int.tmod_def, mul_comm first, abs_lt] at hlt
      have hrow_le : first ≤ |(256 * blocks).tdiv first * first| :=
        Int.le_of_dvd (abs_pos.mpr (by omega)) ((dvd_abs _ _).mpr (dvd_mul_left _ _))
      rcases le_abs.mp hrow_le with hrow_le | hrow_le <;> omega
    · intro h
      have hzero := hzero_iff.mpr (by rw [h, abs_zero]; exact hfirst)
      rw [hzero, show blocks = 0 by omega]
      decide
  · have hne : elements ≠ 0 := fun h => hdvd (h ▸ dvd_zero _)
    rw [wholeBlocks_of_not_dvd hdvd, eq_comm, or_iff_right hne, and_iff_right hdvd, ← hzero_iff]
    exact wrap_eq_zero_iff 32 (by rw [hrows]; exact hle.trans helements) (by decide)
      (by decide)

end

/-! ### The two readers -/

/-- What keeps the two readers together: rows of whole blocks that divide the number of elements, or no
whole blocks at all; of type 20 no whole blocks in either table. -/
def SameBlocks (valueType first elements : ℤ) : Prop :=
  if valueType = 0 ∨ valueType = 1 then True
  else if valueType = 20 then elements = 0 ∨ ¬ 256 ∣ elements ∧ (32 ∣ first → |elements| < first)
  else if blockSize valueType ∣ first then first ∣ elements
  else elements = 0 ∨ ¬ blockSize valueType ∣ elements

theorem abs_elementCount_le (shape : List ℤ) : |elementCount shape| ≤ 9223372036854775808 := by
  obtain ⟨hlow, hhigh⟩ := product_mem .int64 shape
  exact abs_le.mpr ⟨hlow, hhigh.le⟩

/-- Whole rows make whole blocks, also when the number of elements leaves the register. -/
theorem dvd_elementCount {first width : ℤ} {rest : List ℤ} (hwidth : width ∣ 18446744073709551616)
    (h : width ∣ first) : width ∣ elementCount (first :: rest) := by
  have hprod : width ∣ (first :: rest).prod := by
    rw [List.prod_cons]
    exact h.mul_right _
  exact (dvd_sub_left hprod).mp (hwidth.trans (dvd_product_sub_prod .int64 (first :: rest)))

/-- The two readers on a type with the same blocks in both tables. -/
theorem sizesAgree_of_blocks (width size : ℤ) {first : ℤ} {rest : List ℤ} {e : Gguf.OpenError}
    (hfirst : 0 < first) (hwidth : 1 < width) (hturn : width ∣ 18446744073709551616) (hsize : 0 < size)
    (hlt : size < 2 * width) :
    (match Gguf.blockBytes (first :: rest) (elementCount (first :: rest)) width size e with
      | .ok byteCount => wholeBlocks width size (elementCount (first :: rest)) = byteCount
      | .error _ => wholeBlocks width size (elementCount (first :: rest)) = 0) ↔
    if width ∣ first then first ∣ elementCount (first :: rest)
    else elementCount (first :: rest) = 0 ∨ ¬ width ∣ elementCount (first :: rest) := by
  have helements := abs_elementCount_le (first :: rest)
  by_cases hrow : width ∣ first
  · rw [blockBytes_of_dvd hfirst hwidth hrow helements, if_pos hrow]
    exact wholeBlocks_eq_rowBlocks_iff hwidth hrow (dvd_elementCount hturn hrow) helements hsize hlt
  · rw [blockBytes_of_not_dvd hrow, if_neg hrow]
    exact wholeBlocks_eq_zero_iff helements hsize hlt

theorem sizesAgree_iq4 {first : ℤ} {rest : List ℤ} {e : Gguf.OpenError} (hfirst : 0 < first) :
    (match Gguf.blockBytes (first :: rest) (elementCount (first :: rest)) 32 18 e with
      | .ok byteCount => wholeBlocks 256 36 (elementCount (first :: rest)) = byteCount
      | .error _ => wholeBlocks 256 36 (elementCount (first :: rest)) = 0) ↔
    elementCount (first :: rest) = 0 ∨
      ¬ 256 ∣ elementCount (first :: rest) ∧ (32 ∣ first → |elementCount (first :: rest)| < first) := by
  have helements := abs_elementCount_le (first :: rest)
  by_cases hrow : 32 ∣ first
  · rw [blockBytes_of_dvd hfirst (by decide) hrow helements]
    simp only [hrow, true_implies]
    exact wholeBlocks_eq_rowBlocks_iq4 hfirst hrow helements
  · rw [blockBytes_of_not_dvd hrow]
    simp only [hrow, false_implies, and_true]
    exact wholeBlocks_eq_zero_iff helements (by decide) (by decide)

theorem sizesAgree_cons {valueType first : ℤ} {rest : List ℤ} (haccept : BothAccept valueType)
    (hfirst : 0 < first) :
    SizesAgree valueType (first :: rest) ↔
      SameBlocks valueType first (elementCount (first :: rest)) := by
  have hvalueType := bothAccept_iff.mp haccept
  simp only [List.mem_cons, List.not_mem_nil, or_false] at hvalueType
  rcases hvalueType with rfl | rfl | rfl | rfl | rfl | rfl | rfl | rfl | rfl | rfl
  · refine iff_of_true ?_ trivial
    show tensorBytes 0 (elementCount (first :: rest)) = wrap .int64 (4 * elementCount (first :: rest))
    rw [mul_comm]
    show (if (elementCount (first :: rest)).tmod 1 ≠ 0 then _ else
      wrap .int64 ((elementCount (first :: rest)).tdiv 1 * 4)) = _
    rw [Int.tmod_one, if_neg (not_not.mpr rfl), Int.tdiv_one]
  · refine iff_of_true ?_ trivial
    show tensorBytes 1 (elementCount (first :: rest)) = wrap .int64 (2 * elementCount (first :: rest))
    rw [mul_comm]
    show (if (elementCount (first :: rest)).tmod 1 ≠ 0 then _ else
      wrap .int64 ((elementCount (first :: rest)).tdiv 1 * 2)) = _
    rw [Int.tmod_one, if_neg (not_not.mpr rfl), Int.tdiv_one]
  · exact sizesAgree_of_blocks 32 34 hfirst (by decide) (by decide) (by decide)
      (by decide)
  · exact sizesAgree_of_blocks 256 110 hfirst (by decide) (by decide) (by decide)
      (by decide)
  · exact sizesAgree_of_blocks 256 144 hfirst (by decide) (by decide) (by decide)
      (by decide)
  · exact sizesAgree_of_blocks 256 176 hfirst (by decide) (by decide) (by decide)
      (by decide)
  · exact sizesAgree_of_blocks 256 210 hfirst (by decide) (by decide) (by decide)
      (by decide)
  · exact sizesAgree_iq4 hfirst
  · exact sizesAgree_of_blocks 256 110 hfirst (by decide) (by decide) (by decide)
      (by decide)
  · exact sizesAgree_of_blocks 256 136 hfirst (by decide) (by decide) (by decide)
      (by decide)

/-- The readers agree on a tensor exactly when its blocks are the same in both. -/
theorem sizesAgree_iff {valueType : ℤ} {shape : List ℤ} (haccept : BothAccept valueType)
    (hne : shape ≠ []) (hpos : ∀ d ∈ shape, 0 < d) :
    SizesAgree valueType shape ↔ SameBlocks valueType (shape.headD 0) (elementCount shape) := by
  obtain ⟨first, rest, rfl⟩ := List.exists_cons_of_ne_nil hne
  exact sizesAgree_cons haccept (hpos first List.mem_cons_self)

/-- Two rows of blocks of type 11. -/
theorem sizesAgree_iff_q3 : SizesAgree 11 [256, 2] ↔ SameBlocks 11 256 512 :=
  sizesAgree_iff (bothAccept_iff.mpr (by decide)) (List.cons_ne_nil _ _) (by decide)

/-- A row of 256 elements of type 20 takes 144 bytes in the one table and 36 in the other. -/
theorem not_sizesAgree_iq4 : BothAccept 20 ∧ ¬ SizesAgree 20 [256] :=
  ⟨bothAccept_iff.mpr (by decide), by decide⟩

/-- A tensor whose number of elements is in range: the one reader counts blocks of a row, and the other
counts blocks of all elements. -/
theorem sizesAgree_iff_of_lt {valueType first : ℤ} {rest : List ℤ} (haccept : BothAccept valueType)
    (hpos : ∀ d ∈ first :: rest, 0 < d) (hlt : (first :: rest).prod < 9223372036854775808) :
    SizesAgree valueType (first :: rest) ↔
      if valueType = 0 ∨ valueType = 1 then True
      else if valueType = 20 then ¬ 32 ∣ first ∧ ¬ 256 ∣ (first :: rest).prod
      else blockSize valueType ∣ first ∨ ¬ blockSize valueType ∣ (first :: rest).prod := by
  have hfirst : 0 < first := hpos first List.mem_cons_self
  have hrest : 0 < rest.prod := List.prod_pos fun d hd => hpos d (List.mem_cons_of_mem _ hd)
  have hcount : elementCount (first :: rest) = first * rest.prod :=
    (product_eq_prod (w := .int64) hpos hlt).trans List.prod_cons
  have hne : first * rest.prod ≠ 0 := (mul_pos hfirst hrest).ne'
  rw [sizesAgree_cons haccept hfirst, hcount, List.prod_cons, SameBlocks]
  split_ifs with hplain hiq4 hrow
  · exact Iff.rfl
  · have hge : first ≤ first * rest.prod := le_mul_of_one_le_right hfirst.le hrest
    rw [or_iff_right hne, abs_of_pos (mul_pos hfirst hrest), and_comm]
    exact and_congr_left fun _ => ⟨fun h hrow => hge.not_gt (h hrow), fun h hrow => absurd hrow h⟩
  · exact iff_of_true (dvd_mul_right _ _) (.inl hrow)
  · rw [or_iff_right hne, or_iff_right hrow]

end Whisper

end FortAI
