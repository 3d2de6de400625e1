import FortAI.Machine.Rounding
import Mathlib.Algebra.Order.Field.Power
import Mathlib.Algebra.Order.Ring.Rat
import Mathlib.Data.Rat.Cast.Order
import Mathlib.Tactic.Positivity

/-!
# Formats of floating-point numbers

A number is given by its pattern: the sign, the exponent and the fraction, from the highest bit to the
lowest.  Without the sign the patterns grow with the numbers, up to that of infinity; those above it
are no numbers.

* `Format.value` : the number with a pattern.
* `RoundsTo` : a pattern of another format has the nearest number, or infinity.
* `roundsTo_convert` : the conversion from one format to another.
-/

namespace FortAI

open Rounding

/-- The numbers of bits of the fraction and of the exponent. -/
structure Format where
  fraction : ℕ
  exponent : ℕ
  one_le_fraction : 1 ≤ fraction
  one_le_exponent : 1 ≤ exponent

namespace Format

def half : Format := ⟨10, 5, by decide, by decide⟩
def single : Format := ⟨23, 8, by decide, by decide⟩
def double : Format := ⟨52, 11, by decide, by decide⟩

variable (f : Format)

def signBit : ℕ := 2 ^ (f.fraction + f.exponent)

/-- The pattern without the sign. -/
def magnitude (a : ℕ) : ℕ := a % f.signBit

def Negative (a : ℕ) : Prop := f.signBit ≤ a

/-- The pattern of infinity. -/
def infinity : ℕ := (2 ^ f.exponent - 1) * 2 ^ f.fraction

def IsFinite (a : ℕ) : Prop := f.magnitude a < f.infinity
def IsInfinite (a : ℕ) : Prop := f.magnitude a = f.infinity
def IsNaN (a : ℕ) : Prop := f.infinity < f.magnitude a

instance (a : ℕ) : Decidable (f.Negative a) := inferInstanceAs (Decidable (_ ≤ _))
instance (a : ℕ) : Decidable (f.IsFinite a) := inferInstanceAs (Decidable (_ < _))
instance (a : ℕ) : Decidable (f.IsInfinite a) := inferInstanceAs (Decidable (_ = _))
instance (a : ℕ) : Decidable (f.IsNaN a) := inferInstanceAs (Decidable (_ < _))

/-- The exponent of the smallest number. -/
def lowestExponent : ℤ := 2 - 2 ^ (f.exponent - 1) - f.fraction

/-- The smallest number. -/
def lowest : ℚ := 2 ^ f.lowestExponent

/-- The sign of a number. -/
def sign (a : ℕ) : ℚ := if f.Negative a then -1 else 1

/-- The absolute value of the number with this pattern without a sign. -/
def size (m : ℕ) : ℚ := units f.fraction m * f.lowest

/-- The number with a finite pattern. -/
def value (a : ℕ) : ℚ := f.sign a * f.size (f.magnitude a)

/-- From here on numbers are rounded to infinity: half way from the largest number to the next power
of 2. -/
def overflow : ℚ := (f.size (f.infinity - 1) + f.size f.infinity) / 2

/-! ### Sizes -/

theorem lowest_pos : 0 < f.lowest := zpow_pos two_pos _

theorem strictMono_size : StrictMono f.size := strictMono_units_mul f.lowest_pos

theorem size_nonneg (m : ℕ) : 0 ≤ f.size m := mul_nonneg (Nat.cast_nonneg _) f.lowest_pos.le

theorem size_zero : f.size 0 = 0 := by
  rw [size, units_zero, Nat.cast_zero, zero_mul]

theorem abs_sign (a : ℕ) : |f.sign a| = 1 := by
  rw [sign]
  split_ifs <;> norm_num

theorem value_eq (a : ℕ) : f.value a = f.sign a * f.size (f.magnitude a) := rfl

theorem abs_value (a : ℕ) : |f.value a| = f.size (f.magnitude a) := by
  rw [value, abs_mul, f.abs_sign, one_mul, abs_of_nonneg (f.size_nonneg _)]

theorem two_dvd_signBit : 2 ∣ f.signBit := dvd_pow_self 2 (by have := f.one_le_fraction; omega)

theorem two_dvd_infinity : 2 ∣ f.infinity :=
  (dvd_pow_self 2 (by have := f.one_le_fraction; omega)).mul_left _

theorem magnitude_mod_two (a : ℕ) : f.magnitude a % 2 = a % 2 := Nat.mod_mod_of_dvd a f.two_dvd_signBit

theorem infinity_pos : 0 < f.infinity := by
  have hexponent : 1 < 2 ^ f.exponent := Nat.one_lt_two_pow (by have := f.one_le_exponent; omega)
  exact Nat.mul_pos (by omega) (Nat.two_pow_pos _)

theorem infinity_lt_signBit : f.infinity < f.signBit := by
  rw [infinity, signBit, Nat.pow_add, Nat.mul_comm]
  exact Nat.mul_lt_mul_of_pos_left (Nat.sub_lt (Nat.two_pow_pos _) Nat.one_pos) (Nat.two_pow_pos _)

end Format

/-! ### Rounding -/

/-- The pattern `b` has the nearest number to that of the pattern `a`, with an even pattern where two
numbers are as near, and infinity for what is too large. -/
structure RoundsTo (src dst : Format) (a b : ℕ) : Prop where
  negative : dst.Negative b ↔ src.Negative a
  finite : src.IsFinite a → |src.value a| < dst.overflow → dst.IsFinite b
  nearest : src.IsFinite a → |src.value a| < dst.overflow → ∀ c, dst.IsFinite c →
    |src.value a - dst.value b| ≤ |src.value a - dst.value c|
  even : src.IsFinite a → |src.value a| < dst.overflow → ∀ c, dst.IsFinite c →
    dst.value c ≠ dst.value b → |src.value a - dst.value c| = |src.value a - dst.value b| → b % 2 = 0
  infinite : (src.IsFinite a → dst.overflow ≤ |src.value a|) → ¬ src.IsNaN a → dst.IsInfinite b

section
variable {src dst : Format} {a b m : ℕ} {x : ℚ}

/-- What is rounded to infinity is beyond the middle of the last two members. -/
theorem infinity_le_iff (h : IsNearestEven dst.size x m) : dst.infinity ≤ m ↔ dst.overflow ≤ x := by
  rw [h.le_iff dst.strictMono_size dst.infinity_pos (Nat.mod_eq_zero_of_dvd dst.two_dvd_infinity),
    Format.overflow, div_le_iff₀ two_pos, mul_comm 2 x]

/-- The distance to a number of the same sign is that of the absolute values. -/
theorem abs_value_sub (src dst : Format) (a n : ℕ) :
    |src.value a - src.sign a * dst.size n| = |src.size (src.magnitude a) - dst.size n| := by
  rw [Format.value, ← mul_sub, abs_mul, src.abs_sign, one_mul]

/-- The distance to a number of the other sign is their sum. -/
theorem abs_value_sub_neg (src dst : Format) (a n : ℕ) :
    |src.value a - -src.sign a * dst.size n| = src.size (src.magnitude a) + dst.size n := by
  rw [Format.value, neg_mul, sub_neg_eq_add, ← mul_add, abs_mul, src.abs_sign, one_mul]
  exact abs_of_nonneg (add_nonneg (src.size_nonneg _) (dst.size_nonneg n))

theorem abs_size_sub_le (src dst : Format) (k n : ℕ) :
    |src.size k - dst.size n| ≤ src.size k + dst.size n := by
  have := src.size_nonneg k
  have := dst.size_nonneg n
  exact abs_le.mpr ⟨by linarith, by linarith⟩

theorem sign_eq_or_neg (src dst : Format) (a c : ℕ) : dst.sign c = src.sign a ∨ dst.sign c = -src.sign a := by
  rw [Format.sign, Format.sign]
  split_ifs <;> simp

/-- The nearest number without a sign is nearest among those with one. -/
theorem abs_size_sub_le_of_nearest (hm : IsNearestEven dst.size (src.size (src.magnitude a)) m) (c : ℕ) :
    |src.size (src.magnitude a) - dst.size m| ≤ |src.value a - dst.value c| := by
  rw [dst.value_eq]
  rcases sign_eq_or_neg src dst a c with hc | hc
  · rw [hc, abs_value_sub]
    exact hm.nearest _
  · rw [hc, abs_value_sub_neg]
    exact (hm.nearest _).trans (abs_size_sub_le src dst _ _)

/-- Another number that is as near has another pattern without a sign. -/
theorem exists_rival (hm : IsNearestEven dst.size (src.size (src.magnitude a)) m) {c : ℕ}
    (hne : dst.value c ≠ src.sign a * dst.size m)
    (heq : |src.value a - dst.value c| = |src.size (src.magnitude a) - dst.size m|) :
    dst.magnitude c ≠ m ∧ |src.size (src.magnitude a) - dst.size (dst.magnitude c)| =
      |src.size (src.magnitude a) - dst.size m| := by
  rw [dst.value_eq] at hne heq
  rcases sign_eq_or_neg src dst a c with hc | hc
  · rw [hc, abs_value_sub] at heq
    exact ⟨fun h => hne (by rw [hc, h]), heq⟩
  · rw [hc, abs_value_sub_neg] at heq
    have hsame := le_antisymm (abs_size_sub_le src dst (src.magnitude a) (dst.magnitude c))
      (heq.le.trans (hm.nearest _))
    -- either the number or its rival is zero
    rcases eq_or_ne (dst.size (dst.magnitude c)) 0 with hzero | hpos
    · exact ⟨fun h => hne (by rw [← h, hzero, mul_zero, mul_zero]), hsame.trans heq⟩
    · have hx : src.size (src.magnitude a) = 0 := by
        have hc := dst.size_nonneg (dst.magnitude c)
        rcases abs_cases (src.size (src.magnitude a) - dst.size (dst.magnitude c)) with
          ⟨habs, _⟩ | ⟨habs, _⟩
        · exact absurd (by linarith) hpos
        · linarith
      have hnear := hm.nearest 0
      rw [hx, dst.size_zero, sub_zero, abs_zero] at hnear
      rw [hx, zero_add] at heq
      exact absurd (heq.trans (le_antisymm hnear (abs_nonneg _))) hpos

/-- Rounding goes by the absolute values. -/
theorem roundsTo_of_isNearestEven (hnegative : dst.Negative b ↔ src.Negative a)
    (hm : IsNearestEven dst.size (src.size (src.magnitude a)) m)
    (hb : ¬ src.IsNaN a → dst.magnitude b = if src.IsFinite a then Nat.min m dst.infinity else dst.infinity) :
    RoundsTo src dst a b := by
  have hsign : dst.sign b = src.sign a := by
    rw [Format.sign, Format.sign]
    simp only [hnegative]
  -- a number that is not too large
  have hrange (h : src.IsFinite a) (hlt : |src.value a| < dst.overflow) :
      m < dst.infinity ∧ dst.magnitude b = m := by
    rw [src.abs_value] at hlt
    have hlt' : m < dst.infinity := Nat.not_le.mp fun hle => hlt.not_ge ((infinity_le_iff hm).mp hle)
    refine ⟨hlt', ?_⟩
    rw [hb (Nat.lt_asymm h), if_pos h]
    exact Nat.min_eq_left hlt'.le
  have hvalue (h : src.IsFinite a) (hlt : |src.value a| < dst.overflow) :
      dst.value b = src.sign a * dst.size m := by
    rw [Format.value, hsign, (hrange h hlt).2]
  refine ⟨hnegative, fun h hlt => ?_, fun h hlt c _ => ?_, fun h hlt c _ hne heq => ?_, fun hover hnan => ?_⟩
  · obtain ⟨hlt', hmagnitude⟩ := hrange h hlt
    rw [Format.IsFinite, hmagnitude]
    exact hlt'
  · rw [hvalue h hlt, abs_value_sub]
    exact abs_size_sub_le_of_nearest hm c
  · rw [hvalue h hlt] at hne
    rw [hvalue h hlt, abs_value_sub] at heq
    obtain ⟨hother, hdistance⟩ := exists_rival hm hne heq
    rw [← dst.magnitude_mod_two, (hrange h hlt).2]
    exact hm.even _ hother hdistance
  · rw [Format.IsInfinite, hb hnan]
    split_ifs with h
    · refine Nat.min_eq_right ((infinity_le_iff hm).mpr ?_)
      rw [← src.abs_value]
      exact hover h
    · rfl

/-- A number that the other format has is kept. -/
theorem RoundsTo.value_eq (h : RoundsTo src dst a b) (ha : src.IsFinite a) {c : ℕ} (hc : dst.IsFinite c)
    (heq : dst.value c = src.value a) : dst.IsFinite b ∧ dst.value b = src.value a := by
  have hlt : |src.value a| < dst.overflow := by
    have hlast : dst.size (dst.infinity - 1) < dst.size dst.infinity :=
      dst.strictMono_size (Nat.sub_lt dst.infinity_pos Nat.one_pos)
    have hle := dst.strictMono_size.monotone (Nat.le_sub_one_of_lt hc)
    rw [← heq, dst.abs_value, Format.overflow]
    linarith
  refine ⟨h.finite ha hlt, ?_⟩
  have hnear := h.nearest ha hlt c hc
  rw [heq, sub_self, abs_zero, abs_nonpos_iff, sub_eq_zero] at hnear
  exact hnear.symm

end

/-! ### Conversion -/

namespace Format

variable {f : Format} {a m : ℕ}

theorem magnitude_of_lt (h : m < f.signBit) : f.magnitude m = m := Nat.mod_eq_of_lt h

theorem magnitude_signBit_add (h : m < f.signBit) : f.magnitude (f.signBit + m) = m := by
  rw [magnitude, Nat.add_mod_left, Nat.mod_eq_of_lt h]

/-- The number of times that the smallest number of a narrower format is as large. -/
theorem lowest_eq {src dst : Format} {s : ℕ} (h : dst.lowestExponent = s + src.lowestExponent) :
    dst.lowest = 2 ^ s * src.lowest := by
  rw [lowest, h, zpow_add₀ two_ne_zero, zpow_natCast]
  rfl

end Format

section
variable {src dst : Format} {s k n : ℕ}

/-- The numbers of a format in those of a narrower one. -/
theorem size_eq (hs : dst.lowestExponent = s + src.lowestExponent) :
    dst.size = fun n => (units dst.fraction n : ℚ) * ((2 ^ s : ℕ) * src.lowest) := by
  funext n
  rw [Format.size, Format.lowest_eq hs, Nat.cast_pow, Nat.cast_two]

theorem isNearestEven_size_stretch (hs : dst.lowestExponent = s + src.lowestExponent)
    (hlow : k = 0 ∨ 2 ^ (dst.fraction + (s + k)) ≤ units src.fraction n)
    (hhigh : units src.fraction n < 2 ^ (dst.fraction + 1 + (s + k))) :
    IsNearestEven dst.size (src.size n)
      (k * 2 ^ dst.fraction + roundedQuotient (units src.fraction n) (2 ^ (s + k))) := by
  have hpow (a : ℕ) : 2 ^ (a + (s + k)) = 2 ^ (a + k) * 2 ^ s := by
    rw [← Nat.pow_add, Nat.add_comm s, Nat.add_assoc]
  rw [hpow] at hlow hhigh
  rw [size_eq hs, Nat.pow_add]
  exact isNearestEven_stretch src.lowest_pos dst.one_le_fraction (Nat.two_pow_pos s) hlow hhigh

theorem isNearestEven_size (hs : dst.lowestExponent = s + src.lowestExponent) (n : ℕ) :
    IsNearestEven dst.size (src.size n) (nearestPattern dst.fraction (2 ^ s) (units src.fraction n)) := by
  rw [size_eq hs]
  exact isNearestEven_nearestPattern src.lowest_pos dst.one_le_fraction (Nat.two_pow_pos s) _

end

/-- The pattern of the number nearest to `x`, without the sign. -/
def Format.nearest (f : Format) (x : ℚ) : ℕ :=
  let q := |x| / f.lowest
  nearestPattern f.fraction q.den q.num.toNat

theorem isNearestEven_nearest (f : Format) (x : ℚ) : IsNearestEven f.size |x| (f.nearest x) := by
  have hlow := f.lowest_pos
  obtain ⟨q, hq⟩ : ∃ q, q = |x| / f.lowest := ⟨_, rfl⟩
  have hden : (0 : ℚ) < q.den := Nat.cast_pos.mpr q.den_pos
  have hnum : ((q.num.toNat : ℕ) : ℚ) = q.num := by
    have hnonneg : 0 ≤ q.num := Rat.num_nonneg.mpr (by rw [hq]; positivity)
    exact_mod_cast Int.toNat_of_nonneg hnonneg
  have hsize : f.size = fun n => (units f.fraction n : ℚ) * (q.den * (f.lowest / q.den)) := by
    funext n
    rw [Format.size, mul_div_cancel₀ _ hden.ne']
  have hx : |x| = (q.num.toNat : ℕ) * (f.lowest / q.den) := by
    rw [hnum, mul_div_left_comm, Rat.num_div_den, hq, mul_div_cancel₀ _ hlow.ne']
  rw [hsize, hx, Format.nearest, ← hq]
  exact isNearestEven_nearestPattern (div_pos hlow hden) f.one_le_fraction q.den_pos _

namespace Format

variable {f : Format} {k m q s : ℕ} {e : ℤ} {x : ℚ}

/-- The number of a pattern with these leading bits. -/
theorem size_add (hq : q ≤ 2 ^ (f.fraction + 1)) (h : k = 0 ∨ 2 ^ f.fraction ≤ q) :
    f.size (k * 2 ^ f.fraction + q) = q * 2 ^ (k + f.lowestExponent) := by
  rw [size, units_add hq h, lowest, zpow_add₀ two_ne_zero, zpow_natCast]
  push_cast
  ring

theorem exists_size_eq (hq : q ≤ 2 ^ (f.fraction + 1)) (he : f.lowestExponent ≤ e) :
    ∃ m, f.size m = q * 2 ^ e := by
  obtain ⟨k, hk⟩ := Int.eq_ofNat_of_zero_le (sub_nonneg.mpr he)
  obtain ⟨m, hm⟩ := exists_units_eq f.fraction k hq
  refine ⟨m, ?_⟩
  rw [size, hm, lowest, show e = k + f.lowestExponent by omega, zpow_add₀ two_ne_zero, zpow_natCast]
  push_cast
  ring

/-- A power of 2 divides the numbers that are not too small. -/
theorem exists_size_div (h : 2 ^ (f.fraction + 1 + s) * f.lowest ≤ f.size m) :
    ∃ n, f.size n = f.size m / 2 ^ s := by
  obtain ⟨k, q, rfl, hq, hlead⟩ := exists_pattern f.fraction m
  have hle : 2 ^ (f.fraction + 1 + s) ≤ q * 2 ^ k := by
    rw [size, units_add hq.le hlead, mul_le_mul_iff_of_pos_right f.lowest_pos] at h
    exact_mod_cast h
  have hs : s ≤ k := by
    have hlt : q * 2 ^ k < 2 ^ (f.fraction + 1 + k) := by
      rw [Nat.pow_add]
      exact Nat.mul_lt_mul_of_pos_right hq (Nat.two_pow_pos k)
    have := (Nat.pow_lt_pow_iff_right (by decide)).mp (hle.trans_lt hlt)
    omega
  refine ⟨(k - s) * 2 ^ f.fraction + q, ?_⟩
  rw [size_add hq.le (hlead.imp_left (by omega)), size_add hq.le hlead, mul_div_assoc, ← zpow_natCast,
    ← zpow_sub₀ two_ne_zero]
  congr 2
  omega

/-- The number nearest to one that is not negative, where it is not too large. -/
def round (f : Format) (x : ℚ) : ℚ := f.size (f.nearest x)

theorem round_eq (hx : 0 ≤ x) (h : IsNearestEven f.size x m) : f.round x = f.size m := by
  have hnear := isNearestEven_nearest f x
  rw [abs_of_nonneg hx] at hnear
  rw [round, hnear.unique f.strictMono_size h]

theorem round_size (m : ℕ) : f.round (f.size m) = f.size m :=
  round_eq (f.size_nonneg m) (isNearestEven_self f.strictMono_size m)

theorem round_eq_self (hq : q ≤ 2 ^ (f.fraction + 1)) (he : f.lowestExponent ≤ e) :
    f.round (q * 2 ^ e) = q * 2 ^ e := by
  obtain ⟨m, hm⟩ : ∃ m, f.size m = q * 2 ^ e := exists_size_eq hq he
  rw [← hm, round_size]

end Format

/-- The conversion of a number to a format with a larger smallest number. -/
def convert (src dst : Format) (a : ℕ) : ℕ :=
  let shift := (dst.lowestExponent - src.lowestExponent).toNat
  let m :=
    if src.IsNaN a then dst.infinity + 2 ^ (dst.fraction - 1)
    else if src.IsFinite a then
      Nat.min (nearestPattern dst.fraction (2 ^ shift) (units src.fraction (src.magnitude a))) dst.infinity
    else dst.infinity
  if src.Negative a then dst.signBit + m else m

theorem convert_lt_signBit (dst : Format) : dst.infinity + 2 ^ (dst.fraction - 1) < dst.signBit := by
  have hfraction : 2 ^ (dst.fraction - 1) < 2 ^ dst.fraction :=
    Nat.pow_lt_pow_right (by decide) (by have := dst.one_le_fraction; omega)
  have hsplit : dst.infinity + 2 ^ dst.fraction = dst.signBit := by
    have hone : 1 ≤ 2 ^ dst.exponent := Nat.one_le_two_pow
    rw [Format.infinity, ← Nat.succ_mul, Nat.succ_eq_add_one, Nat.sub_add_cancel hone, Format.signBit,
      Nat.pow_add, Nat.mul_comm]
  omega

/-- What is no number stays none. -/
theorem isNaN_convert {src : Format} (dst : Format) {a : ℕ} (h : src.IsNaN a) :
    dst.IsNaN (convert src dst a) := by
  have hpos : 0 < 2 ^ (dst.fraction - 1) := Nat.two_pow_pos _
  have hlt := convert_lt_signBit dst
  rw [Format.IsNaN, convert]
  simp only [if_pos h]
  split_ifs
  · rw [Format.magnitude_signBit_add hlt]
    omega
  · rw [Format.magnitude_of_lt hlt]
    omega

theorem roundsTo_convert {src dst : Format} (h : src.lowestExponent ≤ dst.lowestExponent) (a : ℕ) :
    RoundsTo src dst a (convert src dst a) := by
  have hs : dst.lowestExponent =
      ((dst.lowestExponent - src.lowestExponent).toNat : ℤ) + src.lowestExponent := by
    omega
  have hnan := convert_lt_signBit dst
  have hinfinity := dst.infinity_lt_signBit
  obtain ⟨m, hm⟩ : ∃ m, m = if src.IsNaN a then dst.infinity + 2 ^ (dst.fraction - 1)
      else if src.IsFinite a then
        Nat.min (nearestPattern dst.fraction (2 ^ (dst.lowestExponent - src.lowestExponent).toNat)
          (units src.fraction (src.magnitude a))) dst.infinity
      else dst.infinity := ⟨_, rfl⟩
  have hlt : m < dst.signBit := by
    rw [hm]
    split_ifs
    · exact hnan
    · exact (Nat.min_le_right _ _).trans_lt hinfinity
    · exact hinfinity
  have hmagnitude : dst.magnitude (convert src dst a) = m := by
    simp only [convert, ← hm]
    split_ifs
    · exact Format.magnitude_signBit_add hlt
    · exact Format.magnitude_of_lt hlt
  refine roundsTo_of_isNearestEven ?_ (isNearestEven_size hs (src.magnitude a)) fun hnan => ?_
  · simp only [convert, ← hm, Format.Negative]
    split_ifs with hneg
    · exact iff_of_true (Nat.le_add_right _ _) hneg
    · exact iff_of_false (Nat.not_le.mpr hlt) hneg
  · rw [hmagnitude, hm, if_neg hnan]

end FortAI
