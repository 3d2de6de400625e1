import FortAI.Machine.CString
import Mathlib.Algebra.Order.BigOperators.GroupWithZero.List
import Mathlib.Algebra.Order.Ring.Int

/-!
# Binary files

A file that is read with stream access is the list of the bytes behind the position of its unit.
Integers are little-endian.

* `read` : the next bytes; none where fewer are left.
* `readInt_eq_some` : what is read is what stands there.
* `wrap` : the arithmetic of the machine.
-/

namespace FortAI

namespace Binary

/-! ### Integers -/

/-- The widths of the integers of the machine. -/
inductive Width
  | int8 | int16 | int32 | int64
  deriving DecidableEq

namespace Width

/-- The number of bytes. -/
def size : Width → ℕ
  | int8 => 1
  | int16 => 2
  | int32 => 4
  | int64 => 8

/-- The first number that is too large. -/
def limit : Width → ℕ
  | int8 => 128
  | int16 => 32768
  | int32 => 2147483648
  | int64 => 9223372036854775808

end Width

/-- The number with these digits to the base 256, the lowest first. -/
def unsigned : Bytes → ℕ
  | [] => 0
  | b :: s => b.toNat + 256 * unsigned s

/-- The lowest digits of a number to the base 256. -/
def littleEndian : ℕ → ℕ → Bytes
  | 0, _ => []
  | n + 1, x => (x % 256).toUInt8 :: littleEndian n (x / 256)

/-- The number in two's complement. -/
def signed (w : Width) (n : ℕ) : ℤ := if n < w.limit then n else n - 2 * w.limit

/-- The bytes of a number in two's complement. -/
def encode (w : Width) (x : ℤ) : Bytes := littleEndian w.size (x % (2 * w.limit)).toNat

/-- What is left of a number in a register of this width. -/
def wrap (w : Width) (x : ℤ) : ℤ := (x + w.limit) % (2 * w.limit) - w.limit

theorem littleEndian_unsigned (s : Bytes) : littleEndian s.length (unsigned s) = s := by
  induction s with
  | nil => rfl
  | cons b s ih =>
    have hb := b.toNat_lt
    have hlow : (b.toNat + 256 * unsigned s) % 256 = b.toNat := by omega
    have hhigh : (b.toNat + 256 * unsigned s) / 256 = unsigned s := by omega
    rw [List.length_cons, unsigned, littleEndian, hlow, hhigh, ih]
    exact congrArg (· :: s) (UInt8.ofNat_toNat)

@[simp] theorem length_littleEndian (n x : ℕ) : (littleEndian n x).length = n := by
  induction n generalizing x with
  | zero => rfl
  | succ n ih => rw [littleEndian, List.length_cons, ih]

@[simp] theorem length_encode (w : Width) (x : ℤ) : (encode w x).length = w.size :=
  length_littleEndian _ _

theorem unsigned_lt (w : Width) {s : Bytes} (h : s.length = w.size) : unsigned s < 2 * w.limit := by
  have hstep (n : ℕ) (b : Byte) (s : Bytes) (hs : unsigned s < n) : unsigned (b :: s) < 256 * n := by
    have hb := b.toNat_lt
    rw [unsigned]
    omega
  have hnil : unsigned [] < 1 := Nat.one_pos
  cases w with
  | int8 =>
    obtain ⟨a, rfl⟩ := List.length_eq_one_iff.mp h
    exact hstep _ _ _ hnil
  | int16 =>
    obtain ⟨a, b, rfl⟩ := List.length_eq_two.mp h
    exact hstep _ _ _ (hstep _ _ _ hnil)
  | int32 =>
    match s, h with
    | [_, _, _, _], _ => exact hstep _ _ _ (hstep _ _ _ (hstep _ _ _ (hstep _ _ _ hnil)))
  | int64 =>
    match s, h with
    | [_, _, _, _, _, _, _, _], _ =>
      exact hstep _ _ _ (hstep _ _ _ (hstep _ _ _ (hstep _ _ _ (hstep _ _ _ (hstep _ _ _
        (hstep _ _ _ (hstep _ _ _ hnil)))))))

theorem unsigned_littleEndian (n x : ℕ) : unsigned (littleEndian n x) = x % 256 ^ n := by
  induction n generalizing x with
  | zero => rw [littleEndian, unsigned, Nat.pow_zero, Nat.mod_one]
  | succ n ih =>
    have hdigit : (x % 256).toUInt8.toNat = x % 256 := UInt8.toNat_ofNat_of_lt' (Nat.mod_lt x (by decide))
    rw [littleEndian, unsigned, ih, hdigit, Nat.pow_succ', Nat.mod_mul]

theorem pow_size (w : Width) : 256 ^ w.size = 2 * w.limit := by cases w <;> rfl

theorem signed_mem (w : Width) {n : ℕ} (h : n < 2 * w.limit) :
    -(w.limit : ℤ) ≤ signed w n ∧ signed w n < w.limit := by
  rw [signed]
  split_ifs with hn
  · omega
  · omega

theorem signed_emod (w : Width) {n : ℕ} (h : n < 2 * w.limit) :
    (signed w n % (2 * w.limit)).toNat = n := by
  rw [signed]
  split_ifs with hn
  · rw [Int.emod_eq_of_lt (by omega) (by omega), Int.toNat_natCast]
  · rw [Int.sub_emod_right, Int.emod_eq_of_lt (by omega) (by omega), Int.toNat_natCast]

theorem encode_signed (w : Width) {s : Bytes} (h : s.length = w.size) :
    encode w (signed w (unsigned s)) = s := by
  rw [encode, signed_emod w (unsigned_lt w h), ← h, littleEndian_unsigned]

/-! ### The machine -/

theorem wrap_mem (w : Width) (x : ℤ) : -(w.limit : ℤ) ≤ wrap w x ∧ wrap w x < w.limit := by
  have hpos : (0 : ℤ) < 2 * w.limit := by cases w <;> decide
  have hlow := Int.emod_nonneg (x + w.limit) hpos.ne'
  have hhigh := Int.emod_lt_of_pos (x + w.limit) hpos
  rw [wrap]
  omega

theorem wrap_eq_self {w : Width} {x : ℤ} (hlow : -(w.limit : ℤ) ≤ x) (hhigh : x < w.limit) :
    wrap w x = x := by
  rw [wrap, Int.emod_eq_of_lt (by omega) (by omega)]
  omega

theorem wrap_of_nonneg {w : Width} {x : ℤ} (hlow : 0 ≤ x) (hhigh : x < w.limit) : wrap w x = x :=
  wrap_eq_self ((neg_nonpos.mpr (Int.natCast_nonneg _)).trans hlow) hhigh

/-- What is taken to the range in between is taken there at the end. -/
theorem wrap_wrap_add (w : Width) (x y : ℤ) : wrap w (wrap w x + y) = wrap w (x + y) := by
  have hsum : wrap w x + y + w.limit = (x + w.limit) % (2 * w.limit) + y := by
    rw [wrap]
    omega
  rw [wrap, hsum, Int.emod_add_emod, wrap]
  congr 2
  omega

theorem dvd_wrap_sub (w : Width) (x : ℤ) : (2 * w.limit : ℤ) ∣ wrap w x - x := by
  refine ⟨-((x + w.limit) / (2 * w.limit)), ?_⟩
  have := Int.mul_ediv_add_emod (x + w.limit) (2 * w.limit)
  rw [wrap, mul_neg]
  omega

/-- Numbers look the same in a register when they differ by whole turns of it. -/
theorem wrap_eq_wrap_iff {w : Width} {x y : ℤ} : wrap w x = wrap w y ↔ (2 * w.limit : ℤ) ∣ x - y := by
  constructor
  · intro h
    have hsub := Int.dvd_sub (dvd_wrap_sub w y) (dvd_wrap_sub w x)
    rwa [h, sub_sub_sub_cancel_left] at hsub
  · intro h
    rw [wrap, wrap, Int.emod_eq_emod_iff_emod_sub_eq_zero.mpr]
    rw [add_sub_add_right_eq_sub]
    exact Int.emod_eq_zero_of_dvd h

/-- What is written and read again is what a register of this width holds. -/
theorem signed_unsigned_encode (w : Width) (x : ℤ) : signed w (unsigned (encode w x)) = wrap w x := by
  have hpos : (0 : ℤ) < 2 * w.limit := by cases w <;> decide
  have hlow := Int.emod_nonneg x hpos.ne'
  have hhigh := Int.emod_lt_of_pos x hpos
  have hdigits : unsigned (encode w x) = (x % (2 * w.limit)).toNat := by
    rw [encode, unsigned_littleEndian, pow_size]
    exact Nat.mod_eq_of_lt (by omega)
  have hsplit : (2 * w.limit : ℤ) ∣ signed w (x % (2 * w.limit)).toNat - x := by
    rw [signed]
    have := Int.mul_ediv_add_emod x (2 * w.limit)
    split_ifs
    · exact ⟨-(x / (2 * w.limit)), by rw [Int.toNat_of_nonneg hlow, mul_neg]; omega⟩
    · exact ⟨-(x / (2 * w.limit)) - 1, by rw [Int.toNat_of_nonneg hlow, mul_sub, mul_neg, mul_one]; omega⟩
  have hmem := signed_mem w (n := (x % (2 * w.limit)).toNat) (by omega)
  rw [hdigits, ← wrap_eq_self hmem.1 hmem.2]
  exact wrap_eq_wrap_iff.mpr hsplit

/-- The product of numbers as a loop over them computes it. -/
def product (w : Width) (xs : List ℤ) : ℤ := xs.foldl (fun product x => wrap w (product * x)) 1

theorem product_mem (w : Width) (xs : List ℤ) :
    -(w.limit : ℤ) ≤ product w xs ∧ product w xs < w.limit := by
  rcases List.eq_nil_or_concat xs with rfl | ⟨first, last, rfl⟩
  · cases w <;> decide
  · rw [List.concat_eq_append, product, List.foldl_append]
    exact wrap_mem w _

theorem dvd_product_sub_prod (w : Width) (xs : List ℤ) : (2 * w.limit : ℤ) ∣ product w xs - xs.prod := by
  induction xs using List.reverseRecOn with
  | nil => exact ⟨0, by rw [product, List.foldl_nil, List.prod_nil]; rfl⟩
  | append_singleton first last ih =>
    have hstep := Int.dvd_add (dvd_wrap_sub w (product w first * last)) (ih.mul_right last)
    rw [sub_mul, sub_add_sub_cancel] at hstep
    rwa [List.prod_append, List.prod_singleton, product, List.foldl_append]

/-- A product of positive numbers does not leave the register unless the whole of it does. -/
theorem product_eq_prod {w : Width} {xs : List ℤ} (hpos : ∀ x ∈ xs, 0 < x) (h : xs.prod < w.limit) :
    product w xs = xs.prod := by
  induction xs using List.reverseRecOn with
  | nil => rfl
  | append_singleton first last ih =>
    have hfirst : ∀ x ∈ first, 0 < x := fun x hx => hpos x (List.mem_append_left _ hx)
    have hlast : 0 < last := hpos last (List.mem_append_right _ List.mem_cons_self)
    have hprod : 0 < first.prod := List.prod_pos hfirst
    rw [List.prod_append, List.prod_singleton] at h ⊢
    have hle : first.prod ≤ first.prod * last := le_mul_of_one_le_right hprod.le hlast
    have hih := ih hfirst (hle.trans_lt h)
    rw [product] at hih
    rw [product, List.foldl_append, hih]
    exact wrap_of_nonneg (mul_pos hprod hlast).le h

/-! ### Reading -/

/-- The next bytes, and those behind them; none at the end of the file. -/
def read (n : ℕ) (rest : Bytes) : Option (Bytes × Bytes) :=
  if n ≤ rest.length then some (rest.take n, rest.drop n) else none

/-- The next integer. -/
def readInt (w : Width) (rest : Bytes) : Option (ℤ × Bytes) :=
  (read w.size rest).map fun r => (signed w (unsigned r.1), r.2)

theorem read_eq_some {n : ℕ} {rest s after : Bytes} :
    read n rest = some (s, after) ↔ rest = s ++ after ∧ s.length = n := by
  rw [read]
  by_cases hn : n ≤ rest.length
  · rw [if_pos hn, Option.some_inj, Prod.mk.injEq]
    constructor
    · rintro ⟨rfl, rfl⟩
      exact ⟨(List.take_append_drop n rest).symm, List.length_take_of_le hn⟩
    · rintro ⟨rfl, rfl⟩
      exact ⟨List.take_left, List.drop_left⟩
  · rw [if_neg hn]
    refine ⟨fun h => absurd h (Option.some_ne_none _).symm, ?_⟩
    rintro ⟨rfl, rfl⟩
    rw [List.length_append] at hn
    omega

theorem readInt_eq_some {w : Width} {rest after : Bytes} {x : ℤ} (h : readInt w rest = some (x, after)) :
    rest = encode w x ++ after ∧ -(w.limit : ℤ) ≤ x ∧ x < w.limit := by
  obtain ⟨⟨s, rest'⟩, hread, hx⟩ := Option.map_eq_some_iff.mp h
  obtain ⟨rfl, hs⟩ := read_eq_some.mp hread
  obtain ⟨rfl, rfl⟩ := Prod.mk.inj hx
  exact ⟨by rw [encode_signed w hs], signed_mem w (unsigned_lt w hs)⟩

end Binary

end FortAI
