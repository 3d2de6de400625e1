import Mathlib.Data.Nat.Bitwise
import Mathlib.Data.Nat.Notation

/-!
# The Mersenne Twister

The generator MT19937 on 32-bit words: a sequence of words that begins with 624 given ones, each
further word made of three of those before it, and the outputs, which are words with their bits mixed.

* `sequence` : the words.
* `standard` : the outputs for a seed.
* `toNat_temper`, `toNat_recurrence` : the same on natural numbers.
-/

namespace FortAI

namespace Twister

/-- A word from the one 624 before it, the one behind that, and the one 227 before it. -/
def recurrence (current next far : UInt32) : UInt32 :=
  let value := (current &&& 0x80000000) ||| (next &&& 0x7fffffff)
  far ^^^ (value >>> 1) ^^^ (if value &&& 1 = 0 then 0 else 0x9908b0df)

/-- The words that begin with those of `start`. -/
def sequence (start : ℕ → UInt32) (k : ℕ) : UInt32 :=
  if k < 624 then start k
  else recurrence (sequence start (k - 624)) (sequence start (k - 623)) (sequence start (k - 227))
termination_by k

/-- The first words for a seed. -/
def initial (seed : UInt32) : ℕ → UInt32
  | 0 => seed
  | i + 1 => (1812433253 : UInt32) * (initial seed i ^^^ (initial seed i >>> 30)) + UInt32.ofNat (i + 1)

/-- The output for a word. -/
def temper (word : UInt32) : UInt32 :=
  let value := word ^^^ (word >>> 11)
  let value := value ^^^ ((value <<< 7) &&& 0x9d2c5680)
  let value := value ^^^ ((value <<< 15) &&& 0xefc60000)
  value ^^^ (value >>> 18)

/-- The outputs for a seed. -/
def standard (seed : UInt32) (n : ℕ) : UInt32 := temper (sequence (initial seed) (624 + n))

/-- A sequence that goes on by the recurrence. -/
def IsTwisted (x : ℕ → UInt32) : Prop := ∀ k, x (k + 624) = recurrence (x k) (x (k + 1)) (x (k + 397))

theorem sequence_of_lt {start : ℕ → UInt32} {k : ℕ} (h : k < 624) : sequence start k = start k := by
  rw [sequence, if_pos h]

theorem isTwisted_sequence (start : ℕ → UInt32) : IsTwisted (sequence start) := by
  intro k
  rw [sequence, if_neg (by omega), Nat.add_sub_cancel, show k + 624 - 623 = k + 1 by omega,
    show k + 624 - 227 = k + 397 by omega]

/-! ### On natural numbers -/

/-- Only the low bits of a number count under a mask. -/
theorem mod_and_mask {n mask : ℕ} (a : ℕ) (h : mask < 2 ^ n) : a % 2 ^ n &&& mask = a &&& mask := by
  rw [← Nat.mod_eq_of_lt (lt_of_le_of_lt Nat.and_le_right h : a &&& mask < 2 ^ n), Nat.and_mod_two_pow,
    Nat.mod_eq_of_lt h]

theorem toNat_shiftRight {a b : UInt32} {n : ℕ} (hb : b.toNat = n) (hn : n < 32) :
    (a >>> b).toNat = a.toNat >>> n := by
  rw [UInt32.toNat_shiftRight, hb, Nat.mod_eq_of_lt hn]

theorem toNat_shiftLeft_and {a b mask : UInt32} {n : ℕ} (hb : b.toNat = n) (hn : n < 32) :
    (a <<< b &&& mask).toNat = a.toNat <<< n &&& mask.toNat := by
  rw [UInt32.toNat_and, UInt32.toNat_shiftLeft, hb, Nat.mod_eq_of_lt hn]
  exact mod_and_mask _ mask.toNat_lt

theorem toNat_temper (word : UInt32) :
    let value := word.toNat ^^^ (word.toNat >>> 11)
    let value := value ^^^ ((value <<< 7) &&& 0x9d2c5680)
    let value := value ^^^ ((value <<< 15) &&& 0xefc60000)
    (temper word).toNat = value ^^^ (value >>> 18) := by
  intro first second third
  obtain ⟨a, ha⟩ : ∃ a, a = word ^^^ (word >>> 11) := ⟨_, rfl⟩
  obtain ⟨b, hb⟩ : ∃ b, b = a ^^^ ((a <<< 7) &&& 0x9d2c5680) := ⟨_, rfl⟩
  obtain ⟨c, hc⟩ : ∃ c, c = b ^^^ ((b <<< 15) &&& 0xefc60000) := ⟨_, rfl⟩
  have hfirst : a.toNat = first := by
    rw [ha, UInt32.toNat_xor, toNat_shiftRight (n := 11) rfl (by decide)]
  have hsecond : b.toNat = second := by
    rw [hb, UInt32.toNat_xor, toNat_shiftLeft_and (n := 7) rfl (by decide), hfirst]
    rfl
  have hthird : c.toNat = third := by
    rw [hc, UInt32.toNat_xor, toNat_shiftLeft_and (n := 15) rfl (by decide), hsecond]
    rfl
  have htemper : temper word = c ^^^ (c >>> 18) := by
    rw [hc, hb, ha]
    rfl
  rw [htemper, UInt32.toNat_xor, toNat_shiftRight (n := 18) rfl (by decide), hthird]

theorem toNat_recurrence (current next far : UInt32) :
    let value := (current.toNat &&& 0x80000000) ||| (next.toNat &&& 0x7fffffff)
    (recurrence current next far).toNat =
      if value.testBit 0 then far.toNat ^^^ (value >>> 1) ^^^ 0x9908b0df else far.toNat ^^^ (value >>> 1) := by
  intro value
  obtain ⟨v, hv⟩ : ∃ v : UInt32, v = (current &&& 0x80000000) ||| (next &&& 0x7fffffff) := ⟨_, rfl⟩
  have hvalue : v.toNat = value := by
    rw [hv, UInt32.toNat_or, UInt32.toNat_and, UInt32.toNat_and]
    rfl
  have hodd : v &&& 1 = 0 ↔ ¬ value.testBit 0 := by
    rw [← UInt32.toNat_inj, UInt32.toNat_and, hvalue, Nat.testBit_zero, decide_eq_true_eq]
    show value &&& 2 ^ 1 - 1 = 0 ↔ _
    rw [Nat.and_two_pow_sub_one_eq_mod]
    omega
  have hrecurrence : recurrence current next far =
      far ^^^ (v >>> 1) ^^^ (if v &&& 1 = 0 then 0 else 0x9908b0df) := by
    rw [hv]
    rfl
  rw [hrecurrence, UInt32.toNat_xor, UInt32.toNat_xor, toNat_shiftRight (n := 1) rfl (by decide), hvalue]
  by_cases h : value.testBit 0
  · rw [if_neg (hodd.not.mpr (not_not.mpr h)), if_pos h]
    rfl
  · rw [if_pos (hodd.mpr h), if_neg h, UInt32.toNat_zero, Nat.xor_zero]

theorem toNat_initial_succ (seed : UInt32) {i : ℕ} (hi : i + 1 < 624) :
    (initial seed (i + 1)).toNat =
      (1812433253 * ((initial seed i).toNat ^^^ ((initial seed i).toNat >>> 30)) + (i + 1)) % 2 ^ 32 := by
  have hindex : (UInt32.ofNat (i + 1)).toNat = i + 1 := UInt32.toNat_ofNat_of_lt' (by
    show i + 1 < 4294967296
    omega)
  rw [initial, UInt32.toNat_add, UInt32.toNat_mul, UInt32.toNat_xor,
    toNat_shiftRight (n := 30) rfl (by decide), hindex, Nat.mod_add_mod]
  rfl

end Twister

end FortAI
