import FortAI.Machine.Float
import Mathlib.Data.Nat.Bitwise

/-!
# Half precision in the kernels

`float_to_half` and `half_to_float` work on the bits of the numbers.
-/

namespace FortAI

namespace Cpu

/-! ### The conversions -/

/-- The loop of `half_to_float`, for so many turns. -/
def normalize : ℕ → UInt32 → UInt32 → Option (UInt32 × UInt32)
  | 0, _, _ => none
  | turns + 1, normalized, shift =>
    if normalized &&& 0x0400 = 0 then normalize turns (normalized <<< 1) (shift + 1)
    else some (normalized, shift)

/-- `half_to_float`; its loop has ended after eleven turns. -/
def halfToFloat (value : UInt16) : Option UInt32 :=
  let sign := (value.toUInt32 &&& 0x8000) <<< 16
  let exponent := (value.toUInt32 >>> 10) &&& 0x1f
  let fraction := value.toUInt32 &&& 0x03ff
  if exponent = 0 then
    if fraction = 0 then some sign
    else
      match normalize 11 fraction 0 with
      | none => none
      | some (normalized, shift) =>
        let exponent : UInt32 := 127 - 15 - shift + 1
        some (sign ||| (exponent <<< 23) ||| ((normalized &&& 0x03ff) <<< 13))
  else if exponent = 0x1f then some (sign ||| (0x7f800000 : UInt32) ||| (fraction <<< 13))
  else some (sign ||| ((exponent + 112) <<< 23) ||| (fraction <<< 13))

/-- What is added to a quotient of this remainder. -/
def roundUp (rounded remainder halfway : UInt32) : UInt32 :=
  if halfway < remainder ∨ (remainder = halfway ∧ rounded &&& 1 ≠ 0) then rounded + 1 else rounded

/-- `float_to_half` behind the fields of its argument. -/
def packHalf (sign exponentBits fraction : UInt32) : UInt16 :=
  if exponentBits = 0xff then
    if fraction = 0 then (sign ||| 0x7c00).toUInt16
    else
      let fraction := fraction >>> 13
      let fraction := if fraction = 0 then 1 else fraction
      (sign ||| 0x7c00 ||| fraction).toUInt16
  else if exponentBits = 0 then sign.toUInt16
  else
    let exponent : ℤ := exponentBits.toNat - 127
    if exponent < -14 then
      if exponent < -25 then sign.toUInt16
      else
        let fraction := fraction ||| 0x00800000
        let shift := UInt32.ofNat (-exponent - 1).toNat
        let remainder := fraction &&& ((1 <<< shift) - 1)
        (sign ||| roundUp (fraction >>> shift) remainder (1 <<< (shift - 1))).toUInt16
    else if 15 < exponent then (sign ||| 0x7c00).toUInt16
    else
      let rounded := roundUp (fraction >>> 13) (fraction &&& 0x1fff) 0x1000
      if rounded = 0x400 then
        if 15 < exponent + 1 then (sign ||| 0x7c00).toUInt16
        else (sign ||| (UInt32.ofNat (exponent + 1 + 15).toNat <<< 10) ||| 0).toUInt16
      else (sign ||| (UInt32.ofNat (exponent + 15).toNat <<< 10) ||| rounded).toUInt16

/-- `float_to_half` -/
def floatToHalf (bits : UInt32) : UInt16 :=
  packHalf ((bits >>> 16) &&& 0x8000) ((bits >>> 23) &&& 0xff) (bits &&& 0x007fffff)

/-! ### Bits -/

section
variable {a b : UInt32} {n m t : ℕ}

theorem toNat_and_mask (a : UInt32) {b : UInt32} (hb : b.toNat = 2 ^ n - 1) :
    (a &&& b).toNat = a.toNat % 2 ^ n := by
  rw [UInt32.toNat_and, hb, Nat.and_two_pow_sub_one_eq_mod]

theorem toNat_shiftRight (a : UInt32) {b : UInt32} (hb : b.toNat = n) (hn : n < 32) :
    (a >>> b).toNat = a.toNat / 2 ^ n := by
  rw [UInt32.toNat_shiftRight, hb, Nat.mod_eq_of_lt hn, Nat.shiftRight_eq_div_pow]

theorem toNat_shiftLeft (hb : b.toNat = n) (hn : n < 32) (ha : a.toNat * 2 ^ n < 4294967296) :
    (a <<< b).toNat = a.toNat * 2 ^ n := by
  rw [UInt32.toNat_shiftLeft, hb, Nat.mod_eq_of_lt hn, Nat.shiftLeft_eq, Nat.mod_eq_of_lt ha]

/-- Bits in front of others. -/
theorem toNat_or (ha : a.toNat = m * 2 ^ n) (hb : b.toNat < 2 ^ n) :
    (a ||| b).toNat = a.toNat + b.toNat := by
  rw [UInt32.toNat_or, ha, Nat.mul_comm, Nat.two_pow_add_eq_or_of_lt hb]

/-- A pattern with its sign. -/
theorem toNat_signed (ha : a.toNat = m * 32768) (hm : m ≤ 1) (hb : b.toNat < 32768) :
    (a ||| b).toUInt16.toNat = a.toNat + b.toNat := by
  have hor : (a ||| b).toNat = a.toNat + b.toNat := toNat_or (n := 15) ha hb
  rw [UInt32.toNat_toUInt16, hor]
  omega

theorem toNat_roundUp {rounded remainder halfway : UInt32} (hrounded : rounded.toNat = n / t)
    (hremainder : remainder.toNat = n % t) (hhalfway : 2 * halfway.toNat = t)
    (hlt : rounded.toNat < 4294967295) :
    (roundUp rounded remainder halfway).toNat = Rounding.roundedQuotient n t := by
  have hodd : rounded &&& 1 ≠ 0 ↔ n / t % 2 = 1 := by
    have hbit : (rounded &&& 1).toNat = n / t % 2 := by
      rw [toNat_and_mask (n := 1) rounded rfl, hrounded, Nat.pow_one]
    rw [ne_eq, ← UInt32.toNat_inj, hbit]
    show ¬ n / t % 2 = 0 ↔ _
    omega
  have hup : halfway < remainder ↔ t < 2 * (n % t) := by
    rw [UInt32.lt_iff_toNat_lt]
    omega
  have htie : remainder = halfway ↔ 2 * (n % t) = t := by
    rw [← UInt32.toNat_inj]
    omega
  rw [roundUp, Rounding.roundedQuotient]
  simp only [hodd, hup, htie]
  split_ifs
  · rw [UInt32.toNat_add, hrounded]
    show (n / t + 1) % 4294967296 = _
    omega
  · exact hrounded

end

/-! ### Nearest numbers -/

section
open Rounding Format

variable {E F : ℕ}

theorem lowestExponent_half : half.lowestExponent = (125 : ℕ) + single.lowestExponent := by decide

theorem units_single (hE : 1 ≤ E) (hF : F < 2 ^ 23) :
    units 23 (E * 2 ^ 23 + F) = (2 ^ 23 + F) * 2 ^ (E - 1) := by
  obtain ⟨k, rfl⟩ := Nat.exists_eq_add_of_le' hE
  have hsplit : (k + 1) * 2 ^ 23 + F = k * 2 ^ 23 + (2 ^ 23 + F) := by ring
  rw [hsplit, units_add (by omega) (.inr (Nat.le_add_right _ _)), Nat.add_sub_cancel]

theorem units_single_lt (hF : F < 2 ^ 23) : units 23 (E * 2 ^ 23 + F) < 2 ^ (E + 23) := by
  rcases Nat.eq_zero_or_pos E with rfl | hE
  · rw [units, Nat.zero_mul, Nat.zero_add, Nat.div_eq_of_lt hF, if_pos rfl, Nat.mod_eq_of_lt hF]
    exact hF
  · rw [units_single hE hF]
    calc (2 ^ 23 + F) * 2 ^ (E - 1) < 2 ^ 24 * 2 ^ (E - 1) :=
          Nat.mul_lt_mul_of_pos_right (by omega) (Nat.two_pow_pos _)
      _ = 2 ^ (E + 23) := by
          rw [← Nat.pow_add]
          congr 1
          omega

/-- Below half of the smallest number. -/
theorem nearest_underflow (hE : E ≤ 101) (hF : F < 2 ^ 23) :
    IsNearestEven half.size (single.size (E * 2 ^ 23 + F)) 0 := by
  have hlt : units 23 (E * 2 ^ 23 + F) < 2 ^ 124 :=
    (units_single_lt hF).trans_le (Nat.pow_le_pow_right two_pos (by omega))
  have hzero : roundedQuotient (units 23 (E * 2 ^ 23 + F)) (2 ^ 125) = 0 := by
    have hsmall : units 23 (E * 2 ^ 23 + F) < 2 ^ 125 := by omega
    rw [roundedQuotient, Nat.div_eq_of_lt hsmall, Nat.mod_eq_of_lt hsmall, if_neg (by omega)]
  have h := isNearestEven_size_stretch (k := 0) lowestExponent_half (.inl rfl)
    (n := E * 2 ^ 23 + F) (hlt.trans_le (Nat.pow_le_pow_right two_pos (by decide)))
  rwa [Nat.zero_mul, Nat.zero_add, Nat.add_zero, show single.fraction = 23 from rfl, hzero] at h

/-- A number without a leading bit. -/
theorem nearest_subnormal (hlow : 102 ≤ E) (hhigh : E ≤ 112) (hF : F < 2 ^ 23) :
    IsNearestEven half.size (single.size (E * 2 ^ 23 + F))
      (roundedQuotient (2 ^ 23 + F) (2 ^ (126 - E))) := by
  have h := isNearestEven_size_stretch (k := 0) lowestExponent_half (.inl rfl)
    (n := E * 2 ^ 23 + F) ((units_single_lt hF).trans_le (Nat.pow_le_pow_right two_pos (by
      show E + 23 ≤ 10 + 1 + (125 + 0)
      omega)))
  have hsplit : 2 ^ (125 + 0) = 2 ^ (126 - E) * 2 ^ (E - 1) := by
    rw [← Nat.pow_add]
    congr 1
    omega
  rwa [Nat.zero_mul, Nat.zero_add, show single.fraction = 23 from rfl, units_single (by omega) hF, hsplit,
    roundedQuotient_mul _ _ (Nat.two_pow_pos _)] at h

/-- A number with a leading bit. -/
theorem nearest_normal (hE : 113 ≤ E) (hF : F < 2 ^ 23) :
    IsNearestEven half.size (single.size (E * 2 ^ 23 + F))
      ((E - 112) * 2 ^ 10 + roundedQuotient F (2 ^ 13)) := by
  have hlow : 2 ^ (E + 22) ≤ units 23 (E * 2 ^ 23 + F) := by
    rw [units_single (by omega) hF, show E + 22 = 23 + (E - 1) by omega, Nat.pow_add]
    exact Nat.mul_le_mul_right _ (Nat.le_add_right _ _)
  have h := isNearestEven_size_stretch (k := E - 113) lowestExponent_half (n := E * 2 ^ 23 + F)
    (.inr ((Nat.pow_le_pow_right two_pos (by
      show 10 + (125 + (E - 113)) ≤ E + 22
      omega)).trans hlow))
    ((units_single_lt hF).trans_le (Nat.pow_le_pow_right two_pos (by
      show E + 23 ≤ 10 + 1 + (125 + (E - 113))
      omega)))
  have hsplit : 2 ^ (125 + (E - 113)) = 2 ^ 13 * 2 ^ (E - 1) := by
    rw [← Nat.pow_add]
    congr 1
    omega
  have hlead : 2 ^ 23 + F = F + 2 ^ 10 * 2 ^ 13 := by
    rw [Nat.add_comm, ← Nat.pow_add]
  have hpattern : (E - 113) * 2 ^ 10 + (roundedQuotient F (2 ^ 13) + 2 ^ 10) =
      (E - 112) * 2 ^ 10 + roundedQuotient F (2 ^ 13) := by
    omega
  rw [show single.fraction = 23 from rfl, units_single (by omega) hF, hsplit,
    roundedQuotient_mul _ _ (Nat.two_pow_pos _), hlead,
    roundedQuotient_add_mul _ _ _ (Nat.two_pow_pos _) (by decide)] at h
  rwa [← hpattern]

/-- A rounded quotient is the quotient or the next number. -/
theorem roundedQuotient_le (n d : ℕ) : roundedQuotient n d ≤ n / d + 1 := by
  rw [roundedQuotient]
  split_ifs <;> omega

/-- Too large for a finite number. -/
theorem nearest_overflow (hE : 143 ≤ E) :
    Nat.min ((E - 112) * 2 ^ 10 + roundedQuotient F (2 ^ 13)) 31744 = 31744 :=
  Nat.min_eq_right (by omega)

end

/-! ### The pattern that is returned -/

section
open Rounding Format

variable {sign exponentBits fraction : UInt32} {s E F : ℕ}

theorem toNat_sign (hsign : sign.toNat = s * 32768) (hs : s ≤ 1) : sign.toUInt16.toNat = s * 32768 := by
  rw [UInt32.toNat_toUInt16, hsign]
  omega

theorem toNat_sign_infinity (hsign : sign.toNat = s * 32768) (hs : s ≤ 1) :
    (sign ||| 0x7c00).toUInt16.toNat = s * 32768 + 31744 := by
  rw [toNat_signed hsign hs (by decide), hsign]
  rfl

/-- The part of `float_to_half` for numbers without a leading bit. -/
theorem toNat_subnormal (hsign : sign.toNat = s * 32768) (hs : s ≤ 1) (hfraction : fraction.toNat = F)
    (hlow : 102 ≤ E) (hhigh : E ≤ 112) (hF : F < 2 ^ 23) :
    let shift := UInt32.ofNat (126 - E)
    let lead : UInt32 := fraction ||| 0x00800000
    (sign ||| roundUp (lead >>> shift) (lead &&& ((1 <<< shift) - 1)) (1 <<< (shift - 1))).toUInt16.toNat =
      s * 32768 + roundedQuotient (2 ^ 23 + F) (2 ^ (126 - E)) := by
  intro shift lead
  have hlead : lead.toNat = 2 ^ 23 + F := by
    show (fraction ||| 0x00800000).toNat = _
    rw [UInt32.or_comm, toNat_or (m := 1) (n := 23) rfl (by omega), hfraction]
    rfl
  have hshift : shift.toNat = 126 - E := UInt32.toNat_ofNat_of_lt' (by
    show 126 - E < 4294967296
    omega)
  have hprevious : (shift - 1).toNat = 125 - E := by
    rw [UInt32.toNat_sub_of_le _ _ (UInt32.le_iff_toNat_le.mpr (by rw [hshift]; show 1 ≤ _; omega)), hshift]
    show 126 - E - 1 = _
    omega
  have hpow (t : ℕ) (b : UInt32) (hb : b.toNat = t) (ht : t ≤ 24) : ((1 : UInt32) <<< b).toNat = 2 ^ t := by
    have hle : 2 ^ t ≤ 2 ^ 24 := Nat.pow_le_pow_right two_pos ht
    rw [toNat_shiftLeft hb (by omega) (by show 1 * 2 ^ t < _; omega)]
    exact Nat.one_mul _
  have hmask : ((1 <<< shift : UInt32) - 1).toNat = 2 ^ (126 - E) - 1 := by
    have hone := Nat.two_pow_pos (126 - E)
    rw [UInt32.toNat_sub_of_le _ _ (UInt32.le_iff_toNat_le.mpr (by
      rw [hpow _ _ hshift (by omega)]
      exact hone)), hpow _ _ hshift (by omega)]
    rfl
  have hquotient : (lead >>> shift).toNat = (2 ^ 23 + F) / 2 ^ (126 - E) := by
    rw [toNat_shiftRight _ hshift (by omega), hlead]
  have hle : (2 ^ 23 + F) / 2 ^ (126 - E) < 1024 := by
    rw [Nat.div_lt_iff_lt_mul (Nat.two_pow_pos _)]
    have := Nat.pow_le_pow_right two_pos (show 14 ≤ 126 - E by omega)
    omega
  have hround := toNat_roundUp hquotient
    (by rw [toNat_and_mask _ hmask, hlead])
    (show 2 * (1 <<< (shift - 1) : UInt32).toNat = 2 ^ (126 - E) by
      rw [hpow _ _ hprevious (by omega), ← Nat.pow_succ']
      congr 1
      omega)
    (by omega)
  have hrounded := roundedQuotient_le (2 ^ 23 + F) (2 ^ (126 - E))
  rw [toNat_signed hsign hs (by rw [hround]; omega), hround, hsign]

/-- The last part of `float_to_half`, for numbers with a leading bit. -/
theorem toNat_normal (hsign : sign.toNat = s * 32768) (hs : s ≤ 1) {exponent : ℕ} {rounded : UInt32}
    (hexponent : exponent < 32) (hrounded : rounded.toNat < 1024) :
    (sign ||| (UInt32.ofNat exponent <<< 10) ||| rounded).toUInt16.toNat =
      s * 32768 + (exponent * 2 ^ 10 + rounded.toNat) := by
  have hnat : (UInt32.ofNat exponent).toNat = exponent := UInt32.toNat_ofNat_of_lt' (by
    show exponent < 4294967296
    omega)
  have hfield : (UInt32.ofNat exponent <<< 10).toNat = exponent * 2 ^ 10 := by
    rw [toNat_shiftLeft (n := 10) rfl (by decide) (by rw [hnat]; omega), hnat]
  have hor : (UInt32.ofNat exponent <<< 10 ||| rounded).toNat = exponent * 2 ^ 10 + rounded.toNat := by
    rw [toNat_or hfield hrounded, hfield]
  rw [UInt32.or_assoc, toNat_signed hsign hs (by rw [hor]; omega), hor, hsign]

/-- What `float_to_half` returns for a finite number. -/
theorem toNat_packHalf (hsign : sign.toNat = s * 32768) (hs : s ≤ 1) (hexponent : exponentBits.toNat = E)
    (hfraction : fraction.toNat = F) (hE : E < 255) (hF : F < 2 ^ 23) :
    ∃ m, IsNearestEven half.size (single.size (E * 2 ^ 23 + F)) m ∧
      (packHalf sign exponentBits fraction).toNat = s * 32768 + Nat.min m 31744 := by
  have hfull : exponentBits ≠ 0xff := by
    rw [ne_eq, ← UInt32.toNat_inj, hexponent]
    exact hE.ne
  have hzero : exponentBits = 0 ↔ E = 0 := by
    rw [← UInt32.toNat_inj, hexponent]
    rfl
  have hnone : Nat.min 0 31744 = 0 := rfl
  rw [packHalf, if_neg hfull]
  simp only [hzero, hexponent]
  by_cases h0 : E = 0
  · rw [if_pos h0]
    exact ⟨0, nearest_underflow (by omega) hF, by rw [toNat_sign hsign hs, hnone, Nat.add_zero]⟩
  rw [if_neg h0]
  by_cases hsmall : (E : ℤ) - 127 < -14
  · rw [if_pos hsmall]
    by_cases htiny : (E : ℤ) - 127 < -25
    · rw [if_pos htiny]
      exact ⟨0, nearest_underflow (by omega) hF, by rw [toNat_sign hsign hs, hnone, Nat.add_zero]⟩
    · rw [if_neg htiny, show (-((E : ℤ) - 127) - 1).toNat = 126 - E by omega]
      have hrounded := roundedQuotient_le (2 ^ 23 + F) (2 ^ (126 - E))
      have hle : (2 ^ 23 + F) / 2 ^ (126 - E) < 1024 := by
        rw [Nat.div_lt_iff_lt_mul (Nat.two_pow_pos _)]
        have := Nat.pow_le_pow_right two_pos (show 14 ≤ 126 - E by omega)
        omega
      have hmin : Nat.min (roundedQuotient (2 ^ 23 + F) (2 ^ (126 - E))) 31744 =
          roundedQuotient (2 ^ 23 + F) (2 ^ (126 - E)) := Nat.min_eq_left (by omega)
      refine ⟨_, nearest_subnormal (by omega) (by omega) hF, ?_⟩
      rw [toNat_subnormal hsign hs hfraction (by omega) (by omega) hF, hmin]
  rw [if_neg hsmall]
  refine ⟨_, nearest_normal (by omega) hF, ?_⟩
  by_cases hlarge : 15 < (E : ℤ) - 127
  · rw [if_pos hlarge, toNat_sign_infinity hsign hs, nearest_overflow (by omega)]
  rw [if_neg hlarge]
  have hquotient : (fraction >>> 13).toNat = F / 2 ^ 13 := by
    rw [toNat_shiftRight (n := 13) _ rfl (by decide), hfraction]
  have hremainder : (fraction &&& 0x1fff).toNat = F % 2 ^ 13 := by
    rw [toNat_and_mask fraction (show (0x1fff : UInt32).toNat = 2 ^ 13 - 1 from rfl), hfraction]
  have hround : (roundUp (fraction >>> 13) (fraction &&& 0x1fff) 0x1000).toNat =
      roundedQuotient F (2 ^ 13) :=
    toNat_roundUp hquotient hremainder rfl (by omega)
  have hrounded := roundedQuotient_le F (2 ^ 13)
  have hcarry : roundUp (fraction >>> 13) (fraction &&& 0x1fff) 0x1000 = 0x400 ↔
      roundedQuotient F (2 ^ 13) = 1024 := by
    rw [← UInt32.toNat_inj, hround]
    rfl
  simp only [hcarry]
  by_cases hc : roundedQuotient F (2 ^ 13) = 1024
  · rw [if_pos hc, hc]
    by_cases hover : 15 < (E : ℤ) - 127 + 1
    · have hmin : Nat.min ((E - 112) * 2 ^ 10 + 1024) 31744 = 31744 := Nat.min_eq_right (by omega)
      rw [if_pos hover, toNat_sign_infinity hsign hs, hmin]
    · have hmin : Nat.min ((E - 112) * 2 ^ 10 + 1024) 31744 = (E - 112) * 2 ^ 10 + 1024 :=
        Nat.min_eq_left (by omega)
      rw [if_neg hover, show ((E : ℤ) - 127 + 1 + 15).toNat = E - 111 by omega,
        toNat_normal hsign hs (by omega) (by decide), hmin, UInt32.toNat_zero]
      omega
  · have hmin : Nat.min ((E - 112) * 2 ^ 10 + roundedQuotient F (2 ^ 13)) 31744 =
        (E - 112) * 2 ^ 10 + roundedQuotient F (2 ^ 13) := Nat.min_eq_left (by omega)
    rw [if_neg hc, show ((E : ℤ) - 127 + 15).toNat = E - 112 by omega,
      toNat_normal hsign hs (by omega) (by rw [hround]; omega), hround, hmin]

end

/-! ### `float_to_half` -/

section
open Rounding Format

/-- The pattern of a single precision number in its fields. -/
theorem magnitude_single (b : ℕ) : single.magnitude b = b / 2 ^ 23 % 256 * 2 ^ 23 + b % 2 ^ 23 := by
  show b % 2147483648 = _
  omega

theorem toNat_signField (bits : UInt32) : ((bits >>> 16) &&& 0x8000).toNat = bits.toNat / 2 ^ 31 * 32768 := by
  have hlt := bits.toNat_lt
  rw [UInt32.toNat_and, toNat_shiftRight (n := 16) bits rfl (by decide)]
  show bits.toNat / 2 ^ 16 &&& 2 ^ 15 = _
  rw [Nat.and_two_pow, Nat.testBit_eq_decide_div_mod_eq, Nat.div_div_eq_div_mul, ← Nat.pow_add]
  have hbit : bits.toNat / 2 ^ 31 = 0 ∨ bits.toNat / 2 ^ 31 = 1 := by omega
  rcases hbit with h | h <;> rw [h] <;> rfl

theorem toNat_exponentField (bits : UInt32) :
    ((bits >>> 23) &&& 0xff).toNat = bits.toNat / 2 ^ 23 % 256 := by
  show _ = bits.toNat / 2 ^ 23 % 2 ^ 8
  rw [toNat_and_mask (n := 8) _ rfl, toNat_shiftRight (n := 23) bits rfl (by decide)]

theorem toNat_fractionField (bits : UInt32) : (bits &&& 0x007fffff).toNat = bits.toNat % 2 ^ 23 :=
  toNat_and_mask bits rfl

theorem toNat_floatToHalf {bits : UInt32} (h : single.IsFinite bits.toNat) :
    ∃ m, IsNearestEven half.size (single.size (single.magnitude bits.toNat)) m ∧
      (floatToHalf bits).toNat = bits.toNat / 2 ^ 31 * 32768 + Nat.min m 31744 := by
  have hlt := bits.toNat_lt
  rw [Format.IsFinite, magnitude_single, show single.infinity = 2139095040 from rfl] at h
  rw [magnitude_single]
  exact toNat_packHalf (toNat_signField bits) (by omega) (toNat_exponentField bits)
    (toNat_fractionField bits) (by omega) (by omega)

theorem toNat_floatToHalf_infinite {bits : UInt32} (h : single.IsInfinite bits.toNat) :
    (floatToHalf bits).toNat = bits.toNat / 2 ^ 31 * 32768 + 31744 := by
  have hlt := bits.toNat_lt
  rw [Format.IsInfinite, magnitude_single, show single.infinity = 2139095040 from rfl] at h
  have hexponent : (bits >>> 23) &&& 0xff = 0xff := by
    rw [← UInt32.toNat_inj, toNat_exponentField]
    show _ = 255
    omega
  have hfraction : bits &&& 0x007fffff = 0 := by
    rw [← UInt32.toNat_inj, toNat_fractionField]
    show _ = 0
    omega
  rw [floatToHalf, packHalf, if_pos hexponent, if_pos hfraction,
    toNat_sign_infinity (toNat_signField bits) (by omega)]

/-- A number becomes the nearest one. -/
theorem roundsTo_floatToHalf {bits : UInt32} (h : ¬ single.IsNaN bits.toNat) :
    RoundsTo single half bits.toNat (floatToHalf bits).toNat := by
  have hlt := bits.toNat_lt
  have hmagnitude {r m : ℕ} (hr : r = bits.toNat / 2 ^ 31 * 32768 + m) (hm : m ≤ 31744) :
      (half.Negative r ↔ single.Negative bits.toNat) ∧ half.magnitude r = m := by
    constructor
    · show 32768 ≤ r ↔ 2147483648 ≤ bits.toNat
      omega
    · show r % 32768 = m
      omega
  have hinfinity : half.infinity = 31744 := rfl
  by_cases hfinite : single.IsFinite bits.toNat
  · obtain ⟨m, hm, hr⟩ := toNat_floatToHalf hfinite
    obtain ⟨hnegative, hmin⟩ := hmagnitude hr (Nat.min_le_right m 31744)
    refine roundsTo_of_isNearestEven hnegative hm fun _ => ?_
    rw [hmin, if_pos hfinite, hinfinity]
  · have hinfinite : single.IsInfinite bits.toNat :=
      Nat.le_antisymm (Nat.not_lt.mp h) (Nat.not_lt.mp hfinite)
    obtain ⟨hnegative, hmin⟩ := hmagnitude (toNat_floatToHalf_infinite hinfinite) le_rfl
    refine roundsTo_of_isNearestEven hnegative
      (isNearestEven_size lowestExponent_half (single.magnitude bits.toNat)) fun _ => ?_
    rw [hmin, if_neg hfinite, hinfinity]

end

/-! ### `half_to_float` -/

section
open Rounding Format

/-- The test of the loop. -/
theorem leadingBit_eq_zero_iff {normalized : UInt32} (hlt : normalized.toNat < 2 ^ 11) :
    normalized &&& 0x0400 = 0 ↔ normalized.toNat < 2 ^ 10 := by
  rw [← UInt32.toNat_inj, UInt32.toNat_and]
  show normalized.toNat &&& 2 ^ 10 = 0 ↔ _
  rw [Nat.and_two_pow, Nat.testBit_eq_decide_div_mod_eq]
  have hbit : normalized.toNat / 2 ^ 10 = 0 ∨ normalized.toNat / 2 ^ 10 = 1 := by omega
  rcases hbit with h | h
  · rw [h]
    exact iff_of_true rfl (by omega)
  · rw [h]
    exact iff_of_false (by decide) (by omega)

/-- The loop moves the highest bit of a fraction to the front. -/
theorem normalize_eq (turns : ℕ) {normalized shift : UInt32} (hlt : normalized.toNat < 2 ^ 11)
    (hge : 2 ^ 10 ≤ normalized.toNat * 2 ^ turns) (hshift : shift.toNat + turns < 4294967296) :
    ∃ (k : ℕ) (normalized' shift' : UInt32), k ≤ turns ∧
      normalize (turns + 1) normalized shift = some (normalized', shift') ∧
      shift'.toNat = shift.toNat + k ∧ normalized'.toNat = normalized.toNat * 2 ^ k ∧
      2 ^ 10 ≤ normalized'.toNat ∧ normalized'.toNat < 2 ^ 11 := by
  induction turns generalizing normalized shift with
  | zero =>
    rw [Nat.pow_zero, Nat.mul_one] at hge
    refine ⟨0, normalized, shift, le_rfl, ?_, rfl, (Nat.mul_one _).symm, hge, hlt⟩
    rw [normalize, if_neg ((leadingBit_eq_zero_iff hlt).not.mpr (Nat.not_lt.mpr hge))]
  | succ turns ih =>
    rcases Nat.lt_or_ge normalized.toNat (2 ^ 10) with hsmall | hlarge
    · have hdouble : (normalized <<< 1).toNat = normalized.toNat * 2 ^ 1 :=
        toNat_shiftLeft (n := 1) rfl (by decide) (by omega)
      have hnext : (shift + 1).toNat = shift.toNat + 1 := by
        rw [UInt32.toNat_add]
        exact Nat.mod_eq_of_lt (by show shift.toNat + 1 < 4294967296; omega)
      obtain ⟨k, normalized', shift', hk, heq, hshift', hnormalized', hmem⟩ :=
        @ih (normalized <<< 1) (shift + 1) (by omega)
          (by rwa [hdouble, Nat.mul_assoc, ← Nat.pow_add, Nat.add_comm 1]) (by omega)
      refine ⟨k + 1, normalized', shift', by omega, ?_, by omega, ?_, hmem⟩
      · rw [normalize, if_pos ((leadingBit_eq_zero_iff hlt).mpr hsmall), heq]
      · rw [hnormalized', hdouble, Nat.mul_assoc, ← Nat.pow_add, Nat.add_comm 1]
    · refine ⟨0, normalized, shift, Nat.zero_le _, ?_, rfl, (Nat.mul_one _).symm, hlarge, hlt⟩
      rw [normalize, if_neg ((leadingBit_eq_zero_iff hlt).not.mpr (Nat.not_lt.mpr hlarge))]

/-- The fields of a single precision number put together. -/
theorem toNat_fields {sign exponent fraction : UInt32} {s e f : ℕ} (hsign : sign.toNat = s * 2 ^ 31)
    (hexponent : exponent.toNat = e) (he : e < 256) (hfraction : fraction.toNat = f * 2 ^ 13)
    (hf : f < 2 ^ 10) :
    (sign ||| (exponent <<< 23) ||| fraction).toNat = s * 2 ^ 31 + (e * 2 ^ 23 + f * 2 ^ 13) := by
  have hfield : (exponent <<< 23).toNat = e * 2 ^ 23 := by
    rw [toNat_shiftLeft (n := 23) rfl (by decide) (by rw [hexponent]; omega), hexponent]
  have hor : (exponent <<< 23 ||| fraction).toNat = e * 2 ^ 23 + f * 2 ^ 13 := by
    rw [toNat_or hfield (by omega), hfield, hfraction]
  rw [UInt32.or_assoc, toNat_or hsign (by omega), hsign, hor]

/-- The same number in the other format. -/
structure Widens (src dst : Format) (a b : ℕ) : Prop where
  negative : dst.Negative b ↔ src.Negative a
  finite : src.IsFinite a → dst.IsFinite b ∧ dst.value b = src.value a
  infinite : src.IsInfinite a → dst.IsInfinite b
  nan : src.IsNaN a → dst.IsNaN b

/-- The number of a half precision pattern in the units of single precision. -/
theorem units_half {e f : ℕ} (he : 1 ≤ e) (hf : f < 2 ^ 10) :
    units 23 ((e + 112) * 2 ^ 23 + f * 2 ^ 13) = units 10 (e * 2 ^ 10 + f) * 2 ^ 125 := by
  obtain ⟨k, rfl⟩ := Nat.exists_eq_add_of_le' he
  have hsplit : (k + 1) * 2 ^ 10 + f = k * 2 ^ 10 + (2 ^ 10 + f) := by ring
  rw [units_single (by omega) (by omega), hsplit, units_add (by omega) (.inr (Nat.le_add_right _ _)),
    show k + 1 + 112 - 1 = k + 112 by omega, Nat.pow_add]
  ring

/-- The same for a fraction without a leading bit, whose highest bit was moved to the front. -/
theorem units_half_subnormal {f k n : ℕ} (hf : f < 2 ^ 10) (hk : k ≤ 10) (hn : n = f * 2 ^ k)
    (hlow : 2 ^ 10 ≤ n) (hhigh : n < 2 ^ 11) :
    units 23 ((113 - k) * 2 ^ 23 + n % 2 ^ 10 * 2 ^ 13) = units 10 f * 2 ^ 125 := by
  have hlead : 2 ^ 23 + n % 2 ^ 10 * 2 ^ 13 = n * 2 ^ 13 := by omega
  have hunits : units 10 f = f := by
    rw [units, Nat.div_eq_of_lt hf, if_pos rfl, Nat.mod_eq_of_lt hf]
  rw [units_single (by omega) (by omega), hlead, hunits, hn, Nat.mul_assoc, Nat.mul_assoc, ← Nat.pow_add,
    ← Nat.pow_add]
  congr 2
  omega

/-- The size of a single precision number with these units. -/
theorem size_single {M m : ℕ} (h : units 23 M = units 10 m * 2 ^ 125) : single.size M = half.size m := by
  rw [Format.size, Format.size, lowest_eq lowestExponent_half, show single.fraction = 23 from rfl, h,
    show half.fraction = 10 from rfl]
  push_cast
  ring

theorem toNat_halfSign (value : UInt16) :
    ((value.toUInt32 &&& 0x8000) <<< 16).toNat = value.toNat / 2 ^ 15 * 2 ^ 31 := by
  have hlt := value.toNat_lt
  have hfield : (value.toUInt32 &&& 0x8000).toNat = value.toNat / 2 ^ 15 * 2 ^ 15 := by
    rw [UInt32.toNat_and, UInt16.toNat_toUInt32]
    show value.toNat &&& 2 ^ 15 = _
    rw [Nat.and_two_pow, Nat.testBit_eq_decide_div_mod_eq]
    have hbit : value.toNat / 2 ^ 15 = 0 ∨ value.toNat / 2 ^ 15 = 1 := by omega
    rcases hbit with h | h <;> rw [h] <;> rfl
  rw [toNat_shiftLeft (n := 16) rfl (by decide) (by rw [hfield]; omega), hfield, Nat.mul_assoc,
    ← Nat.pow_add]

theorem toNat_halfExponent (value : UInt16) :
    ((value.toUInt32 >>> 10) &&& 0x1f).toNat = value.toNat / 2 ^ 10 % 2 ^ 5 := by
  rw [toNat_and_mask (n := 5) _ rfl, toNat_shiftRight (n := 10) _ rfl (by decide), UInt16.toNat_toUInt32]

theorem toNat_halfFraction (value : UInt16) : (value.toUInt32 &&& 0x03ff).toNat = value.toNat % 2 ^ 10 := by
  rw [toNat_and_mask (n := 10) _ rfl, UInt16.toNat_toUInt32]

theorem toNat_shiftedFraction {a : UInt32} {f : ℕ} (ha : a.toNat = f) (hf : f < 2 ^ 10) :
    (a <<< 13).toNat = f * 2 ^ 13 := by
  rw [toNat_shiftLeft (n := 13) rfl (by decide) (by rw [ha]; omega), ha]

/-- The pattern of a half precision number in its fields. -/
theorem magnitude_half (v : ℕ) : half.magnitude v = v / 2 ^ 10 % 2 ^ 5 * 2 ^ 10 + v % 2 ^ 10 := by
  show v % 32768 = _
  omega

/-- Fields of a finite number stay below the pattern of infinity. -/
theorem fields_lt_infinity {e f : ℕ} (he : e ≤ 254) (hf : f < 2 ^ 10) :
    e * 2 ^ 23 + f * 2 ^ 13 < 2139095040 := by
  have hexponent : e * 2 ^ 23 ≤ 254 * 2 ^ 23 := Nat.mul_le_mul_right _ he
  have hfraction : f * 2 ^ 13 ≤ 1023 * 2 ^ 13 := Nat.mul_le_mul_right _ (by omega)
  calc e * 2 ^ 23 + f * 2 ^ 13 ≤ 254 * 2 ^ 23 + 1023 * 2 ^ 13 := Nat.add_le_add hexponent hfraction
    _ < 2139095040 := by norm_num

/-- What `half_to_float` returns for a finite number. -/
theorem halfToFloat_finite {value : UInt16} (h : half.IsFinite value.toNat) :
    ∃ bits M, halfToFloat value = some bits ∧ bits.toNat = value.toNat / 2 ^ 15 * 2 ^ 31 + M ∧
      M < 2139095040 ∧ units 23 M = units 10 (half.magnitude value.toNat) * 2 ^ 125 := by
  have hlt := value.toNat_lt
  have hsign := toNat_halfSign value
  have hexponent := toNat_halfExponent value
  have hfraction := toNat_halfFraction value
  rw [Format.IsFinite, magnitude_half, show half.infinity = 31744 from rfl] at h
  have hzero : (value.toUInt32 >>> 10) &&& 0x1f = 0 ↔ value.toNat / 2 ^ 10 % 2 ^ 5 = 0 := by
    rw [← UInt32.toNat_inj, hexponent]
    rfl
  have hfull : (value.toUInt32 >>> 10) &&& 0x1f ≠ 0x1f := by
    rw [ne_eq, ← UInt32.toNat_inj, hexponent]
    show ¬ _ = 31
    omega
  have hnone : value.toUInt32 &&& 0x03ff = 0 ↔ value.toNat % 2 ^ 10 = 0 := by
    rw [← UInt32.toNat_inj, hfraction]
    rfl
  rw [halfToFloat, magnitude_half]
  simp only [hzero, hnone, if_neg hfull]
  by_cases h0 : value.toNat / 2 ^ 10 % 2 ^ 5 = 0
  · rw [if_pos h0, h0, Nat.zero_mul, Nat.zero_add]
    by_cases hf : value.toNat % 2 ^ 10 = 0
    · rw [if_pos hf, hf]
      refine ⟨_, 0, rfl, by rw [Nat.add_zero]; exact hsign, by norm_num, ?_⟩
      rw [units_zero, units_zero, Nat.zero_mul]
    · rw [if_neg hf]
      obtain ⟨k, normalized, shift, hk, heq, hshift, hnormalized, hlow, hhigh⟩ :=
        @normalize_eq 10 (value.toUInt32 &&& 0x03ff) 0 (by omega) (by omega) (by decide)
      rw [hfraction] at hnormalized
      have hshift' : shift.toNat = k := hshift.trans (Nat.zero_add k)
      have hfront : (127 - 15 - shift + 1 : UInt32).toNat = 113 - k := by
        have hle : shift ≤ 127 - 15 := by
          rw [UInt32.le_iff_toNat_le, hshift']
          show k ≤ 112
          omega
        rw [UInt32.toNat_add, UInt32.toNat_sub_of_le _ _ hle, hshift']
        show (112 - k + 1) % 4294967296 = _
        omega
      rw [heq]
      have hrest : ((normalized &&& 0x03ff) <<< 13).toNat = normalized.toNat % 2 ^ 10 * 2 ^ 13 :=
        toNat_shiftedFraction (toNat_and_mask (n := 10) normalized rfl) (by omega)
      exact ⟨_, _, rfl, toNat_fields hsign hfront (by omega) hrest (by omega),
        fields_lt_infinity (by omega) (by omega), units_half_subnormal (by omega) hk hnormalized hlow hhigh⟩
  · have hraised : (((value.toUInt32 >>> 10) &&& 0x1f) + 112).toNat = value.toNat / 2 ^ 10 % 2 ^ 5 + 112 := by
      rw [UInt32.toNat_add, hexponent]
      show (_ + 112) % 4294967296 = _
      omega
    have hrest : ((value.toUInt32 &&& 0x03ff) <<< 13).toNat = value.toNat % 2 ^ 10 * 2 ^ 13 :=
      toNat_shiftedFraction hfraction (by omega)
    rw [if_neg h0]
    exact ⟨_, _, rfl, toNat_fields hsign hraised (by omega) hrest (by omega),
      fields_lt_infinity (by omega) (by omega), units_half (by omega) (by omega)⟩

/-- What it returns for what is no finite number. -/
theorem halfToFloat_special {value : UInt16} (h : ¬ half.IsFinite value.toNat) :
    ∃ bits, halfToFloat value = some bits ∧
      bits.toNat = value.toNat / 2 ^ 15 * 2 ^ 31 + (255 * 2 ^ 23 + value.toNat % 2 ^ 10 * 2 ^ 13) := by
  have hlt := value.toNat_lt
  have hexponent := toNat_halfExponent value
  rw [Format.IsFinite, magnitude_half, show half.infinity = 31744 from rfl] at h
  have hfull : (value.toUInt32 >>> 10) &&& 0x1f = 0x1f := by
    rw [← UInt32.toNat_inj, hexponent]
    show _ = 31
    omega
  have hfront : (0x7f800000 : UInt32) = (0xff : UInt32) <<< 23 := by decide
  have hrest : ((value.toUInt32 &&& 0x03ff) <<< 13).toNat = value.toNat % 2 ^ 10 * 2 ^ 13 :=
    toNat_shiftedFraction (toNat_halfFraction value) (by omega)
  have hnone : ¬ (0x1f : UInt32) = 0 := by decide
  rw [halfToFloat]
  simp only [hfull, if_neg hnone, if_true]
  refine ⟨_, rfl, ?_⟩
  rw [hfront]
  exact toNat_fields (toNat_halfSign value) UInt32.toNat_ofNat (by omega) hrest (by omega)

/-- The sign of a pattern that is put together from a sign and the rest. -/
theorem negative_single {a b M : ℕ} (ha : a < 65536) (hb : b = a / 2 ^ 15 * 2 ^ 31 + M) (hM : M < 2 ^ 31) :
    (single.Negative b ↔ half.Negative a) ∧ single.magnitude b = M ∧ b / 2 ^ 31 = a / 2 ^ 15 := by
  refine ⟨?_, ?_, by omega⟩
  · show 2147483648 ≤ b ↔ 32768 ≤ a
    omega
  · show b % 2147483648 = M
    omega

/-- The number of a finite half precision pattern is that of the pattern that `half_to_float` returns. -/
theorem halfToFloat_size {value : UInt16} (h : half.IsFinite value.toNat) :
    ∃ bits, halfToFloat value = some bits ∧ bits.toNat / 2 ^ 31 = value.toNat / 2 ^ 15 ∧
      (single.Negative bits.toNat ↔ half.Negative value.toNat) ∧ single.IsFinite bits.toNat ∧
      single.size (single.magnitude bits.toNat) = half.size (half.magnitude value.toNat) := by
  obtain ⟨bits, M, heq, hbits, hlt, hunits⟩ := halfToFloat_finite h
  obtain ⟨hnegative, hmagnitude, hsign⟩ := negative_single value.toNat_lt hbits (by omega)
  refine ⟨bits, heq, hsign, hnegative, ?_, ?_⟩
  · rw [Format.IsFinite, hmagnitude]
    exact hlt
  · rw [hmagnitude]
    exact size_single hunits

/-- Infinity has no fraction. -/
theorem fraction_of_infinite {v : ℕ} (h : half.IsInfinite v) : v % 2 ^ 10 = 0 := by
  rw [Format.IsInfinite, magnitude_half, show half.infinity = 31744 from rfl] at h
  omega

/-- `half_to_float` keeps every number. -/
theorem widens_halfToFloat (value : UInt16) :
    ∃ bits, halfToFloat value = some bits ∧ Widens half single value.toNat bits.toNat := by
  have hlt := value.toNat_lt
  by_cases h : half.IsFinite value.toNat
  · obtain ⟨bits, heq, -, hnegative, hfinite, hsize⟩ := halfToFloat_size h
    refine ⟨bits, heq, hnegative, fun _ => ⟨hfinite, ?_⟩, fun h' => absurd h' (Nat.ne_of_lt h),
      fun h' => absurd h (Nat.lt_asymm h')⟩
    rw [Format.value, Format.value, Format.sign, Format.sign, hsize]
    simp only [hnegative]
  · obtain ⟨bits, heq, hbits⟩ := halfToFloat_special h
    have hmod : value.toNat % 2 ^ 10 < 2 ^ 10 := Nat.mod_lt _ (by norm_num)
    obtain ⟨hnegative, hmagnitude, -⟩ := negative_single hlt hbits (by omega)
    have hinfinity : single.infinity = 255 * 2 ^ 23 := rfl
    refine ⟨bits, heq, hnegative, fun h' => absurd h' h, fun h' => ?_, fun h' => ?_⟩
    · rw [Format.IsInfinite, hmagnitude, hinfinity, fraction_of_infinite h', Nat.zero_mul, Nat.add_zero]
    · rw [Format.IsNaN, hmagnitude, hinfinity]
      rw [Format.IsNaN, magnitude_half, show half.infinity = 31744 from rfl] at h'
      have hfraction : 0 < value.toNat % 2 ^ 10 := by omega
      exact Nat.lt_add_of_pos_right (Nat.mul_pos hfraction (Nat.two_pow_pos 13))

/-- A half precision number comes back. -/
theorem floatToHalf_halfToFloat {value : UInt16} (h : ¬ half.IsNaN value.toNat) :
    (halfToFloat value).map floatToHalf = some value := by
  have hlt := value.toNat_lt
  by_cases hfinite : half.IsFinite value.toNat
  · obtain ⟨bits, heq, hsign, -, hfinite', hsize⟩ := halfToFloat_size hfinite
    obtain ⟨m, hm, hr⟩ := toNat_floatToHalf hfinite'
    rw [hsize] at hm
    have hsame : m = half.magnitude value.toNat :=
      hm.unique half.strictMono_size (isNearestEven_self half.strictMono_size _)
    rw [Format.IsFinite, show half.infinity = 31744 from rfl] at hfinite
    have hmin : Nat.min m 31744 = value.toNat % 32768 := by
      rw [hsame]
      exact Nat.min_eq_left hfinite.le
    rw [heq, Option.map_some, Option.some_inj, ← UInt16.toNat_inj, hr, hmin, hsign]
    omega
  · obtain ⟨bits, heq, hbits⟩ := halfToFloat_special hfinite
    have hinfinite : half.IsInfinite value.toNat :=
      Nat.le_antisymm (Nat.not_lt.mp h) (Nat.not_lt.mp hfinite)
    have hmod : value.toNat % 2 ^ 10 < 2 ^ 10 := Nat.mod_lt _ (by norm_num)
    obtain ⟨-, hmagnitude, hsign⟩ := negative_single hlt hbits (by omega)
    have hinfinite' : single.IsInfinite bits.toNat := by
      rw [Format.IsInfinite, hmagnitude, fraction_of_infinite hinfinite, Nat.zero_mul, Nat.add_zero]
      rfl
    rw [Format.IsInfinite, show half.infinity = 31744 from rfl, Format.magnitude,
      show half.signBit = 32768 from rfl] at hinfinite
    rw [heq, Option.map_some, Option.some_inj, ← UInt16.toNat_inj, toNat_floatToHalf_infinite hinfinite',
      hsign]
    omega

/-- The two conversions. -/
theorem half_conversions :
    (∀ bits : UInt32, ¬ single.IsNaN bits.toNat →
      RoundsTo single half bits.toNat (floatToHalf bits).toNat) ∧
    (∀ value : UInt16, ∃ bits, halfToFloat value = some bits ∧
      Widens half single value.toNat bits.toNat) ∧
    ∀ value : UInt16, ¬ half.IsNaN value.toNat → (halfToFloat value).map floatToHalf = some value :=
  ⟨fun _ => roundsTo_floatToHalf, widens_halfToFloat, fun _ => floatToHalf_halfToFloat⟩

end

end Cpu

end FortAI
