import FortAI.Machine.Float
import FortAI.Machine.Twister
import FortAI.Service.Mt19937

/-!
# The random generator and the Mersenne Twister

The words of the generator are those of the standard recurrence, block by block: a block is replaced
in place while its later words are made of earlier ones.  `int64` marks the results that have to fit
64 signed bits.

* `uint32_run` : the outputs are those of the standard generator.
* `uniform_lt_one_iff` : when the uniform number is below 1.
-/

namespace FortAI

namespace Mt19937

open Twister

/-! ### Within 64 bits -/

/-- A result of signed 64-bit arithmetic. -/
def int64 (value : ℕ) : Option ℕ := if value < 2 ^ 63 then some value else none

/-- `seedWords` with every product and sum in 64 bits. -/
def checkedSeedWords (previous : ℕ) : ℕ → ℕ → Option (List ℕ)
  | 0, _ => some []
  | n + 1, i => do
    let product ← int64 (1812433253 * (previous ^^^ (previous >>> 30)))
    let sum ← int64 (product + (i - 1))
    let word := sum &&& mask32
    let rest ← checkedSeedWords word n (i + 1)
    some (word :: rest)

/-- `mt19937_seed` -/
def checkedSeed (value : ℤ) : Option Mt19937 := do
  let first := (value % 0x100000000).toNat
  let words ← checkedSeedWords first 623 2
  some ⟨first :: words, 625⟩

/-- `mt19937_uint32`, with every shift to the left in 64 bits. -/
def checkedUint32 (generator : Mt19937) : Option (ℕ × Mt19937) := do
  let generator := generator.refill
  let value := word generator.state generator.position
  let value := value ^^^ (value >>> 11)
  let shifted ← int64 (value <<< 7)
  let value := value ^^^ (shifted &&& 0x9d2c5680)
  let shifted ← int64 (value <<< 15)
  let value := value ^^^ (shifted &&& 0xefc60000)
  let value := value ^^^ (value >>> 18)
  some (value &&& mask32, { generator with position := generator.position + 1 })

/-- The generator after `n` outputs. -/
def after (generator : Mt19937) : ℕ → Mt19937
  | 0 => generator
  | n + 1 => (uint32 (after generator n)).2

/-- A generator as `mt19937_seed` leaves it or as it is between two outputs. -/
structure WellFormed (generator : Mt19937) : Prop where
  length : generator.state.length = 624
  lt : ∀ w ∈ generator.state, w < 2 ^ 32
  one_le : 1 ≤ generator.position
  le : generator.position ≤ 625

/-! ### Words -/

section
variable {state : List ℕ} {x : ℕ → UInt32} {b i n p : ℕ}

theorem and_mask32 (a : ℕ) : a &&& mask32 = a % 2 ^ 32 := by
  show a &&& 2 ^ 32 - 1 = _
  exact Nat.and_two_pow_sub_one_eq_mod ..

theorem toNat_and_mask32 (w : UInt32) : w.toNat &&& mask32 = w.toNat := by
  rw [and_mask32]
  exact Nat.mod_eq_of_lt w.toNat_lt

/-- The first `i` words of the block `b` have been replaced by those of the next one. -/
structure Holds (x : ℕ → UInt32) (b i : ℕ) (state : List ℕ) : Prop where
  length : state.length = 624
  word : ∀ j < 624, state.getD j 0 = (x (if j < i then 624 * (b + 1) + j else 624 * b + j)).toNat

theorem Holds.word_of_ge {j : ℕ} (h : Holds x b i state) (hj : j < 624) (hge : i ≤ j) :
    state.getD j 0 = (x (624 * b + j)).toNat := by
  rw [h.word j hj, if_neg (Nat.not_lt.mpr hge)]

theorem Holds.word_of_lt {j : ℕ} (h : Holds x b i state) (hj : j < 624) (hlt : j < i) :
    state.getD j 0 = (x (624 * (b + 1) + j)).toNat := by
  rw [h.word j hj, if_pos hlt]

theorem twist_length (state : List ℕ) (i : ℕ) : (twist state i).length = state.length := by
  rw [twist, List.length_set]

/-- Whatever the words are made of, they stay 32-bit words. -/
theorem twist_lt (h : ∀ w ∈ state, w < 2 ^ 32) (i : ℕ) : ∀ w ∈ Mt19937.twist state i, w < 2 ^ 32 := by
  intro w hw
  rw [twist] at hw
  rcases List.mem_or_eq_of_mem_set hw with hw | rfl
  · exact h w hw
  · rw [and_mask32]
    exact Nat.mod_lt _ (Nat.two_pow_pos 32)

theorem foldl_twist_lt (h : ∀ w ∈ state, w < 2 ^ 32) (l : List ℕ) :
    ∀ w ∈ l.foldl Mt19937.twist state, w < 2 ^ 32 := by
  induction l generalizing state with
  | nil => exact h
  | cons i l ih => exact ih (twist_lt h i)

/-- One turn of the loop: the words that it reads have not been replaced, or already have been where
the recurrence wants those of the next block. -/
theorem Holds.twist (hx : IsTwisted x) (h : Holds x b p state) (hp : p < 624) :
    Holds x b (p + 1) (Mt19937.twist state (p + 1)) := by
  refine ⟨by rw [twist_length]; exact h.length, fun j hj => ?_⟩
  have hcurrent : Mt19937.word state (p + 1) = (x (624 * b + p)).toNat := h.word_of_ge hp le_rfl
  have hnext : Mt19937.word state (if p + 1 + 1 > 624 then 1 else p + 1 + 1) =
      (x (624 * b + p + 1)).toNat := by
    split_ifs with hwrap
    · rw [show 624 * b + p + 1 = 624 * (b + 1) + 0 by omega]
      exact h.word_of_lt (by omega) (by omega)
    · exact h.word_of_ge (by omega) (by omega)
  have hoffset : Mt19937.word state (if p + 1 + 397 > 624 then p + 1 + 397 - 624 else p + 1 + 397) =
      (x (624 * b + p + 397)).toNat := by
    split_ifs with hwrap
    · rw [show 624 * b + p + 397 = 624 * (b + 1) + (p + 1 + 397 - 624 - 1) by omega]
      exact h.word_of_lt (by omega) (by omega)
    · rw [show 624 * b + p + 397 = 624 * b + (p + 1 + 397 - 1) by omega]
      exact h.word_of_ge (by omega) (by omega)
  have hmixed := toNat_recurrence (x (624 * b + p)) (x (624 * b + p + 1)) (x (624 * b + p + 397))
  rw [← hx] at hmixed
  have hset : Mt19937.twist state (p + 1) = state.set p (x (624 * b + p + 624)).toNat := by
    rw [Mt19937.twist]
    simp only [hcurrent, hnext, hoffset]
    rw [← hmixed, toNat_and_mask32, Nat.add_sub_cancel]
  rw [hset]
  rcases Nat.lt_trichotomy j p with hlt | rfl | hgt
  · rw [if_pos (by omega), List.getD_eq_getElem?_getD, List.getElem?_set_ne hlt.ne',
      ← List.getD_eq_getElem?_getD]
    exact h.word_of_lt hj hlt
  · rw [if_pos (by omega), List.getD_eq_getElem?_getD, List.getElem?_set_self (by rw [h.length]; exact hj),
      Option.getD_some, show 624 * b + j + 624 = 624 * (b + 1) + j by omega]
  · rw [if_neg (by omega), List.getD_eq_getElem?_getD, List.getElem?_set_ne hgt.ne,
      ← List.getD_eq_getElem?_getD]
    exact h.word_of_ge hj hgt.le

/-- The loop up to the word `n`. -/
theorem Holds.foldl_twist (hx : IsTwisted x) (h : Holds x b 0 state) (hn : n ≤ 624) :
    Holds x b n ((List.range' 1 n).foldl Mt19937.twist state) := by
  induction n with
  | zero => exact h
  | succ n ih =>
    rw [List.range'_1_concat, List.foldl_concat, Nat.add_comm 1 n]
    exact (ih (by omega)).twist hx (by omega)

/-- A block that has been replaced is the next one. -/
theorem Holds.next (h : Holds x b 624 state) : Holds x (b + 1) 0 state := by
  refine ⟨h.length, fun j hj => ?_⟩
  rw [h.word_of_lt hj hj, if_neg (Nat.not_lt_zero j)]

theorem Holds.lt (h : Holds x b i state) {w : ℕ} (hw : w ∈ state) : w < 2 ^ 32 := by
  obtain ⟨j, hj, rfl⟩ := List.getElem_of_mem hw
  have hword := h.word j (by rw [← h.length]; exact hj)
  rw [List.getD_eq_getElem _ _ hj] at hword
  rw [hword]
  exact UInt32.toNat_lt _

end

/-! ### Outputs -/

section
variable {generator : Mt19937} {x : ℕ → UInt32} {n : ℕ}

/-- The next output is the one of the word `n`. -/
structure At (x : ℕ → UInt32) (n : ℕ) (generator : Mt19937) : Prop where
  holds : ∃ b, Holds x b 0 generator.state ∧ n + 1 = 624 * b + generator.position
  one_le : 1 ≤ generator.position
  le : generator.position ≤ 625

theorem At.wellFormed (h : At x n generator) : WellFormed generator := by
  obtain ⟨b, hb, -⟩ := h.holds
  exact ⟨hb.length, fun w hw => hb.lt hw, h.one_le, h.le⟩

theorem At.refill (hx : IsTwisted x) (h : At x n generator) :
    At x n generator.refill ∧ generator.refill.position ≤ 624 := by
  obtain ⟨b, hb, hn⟩ := h.holds
  rw [Mt19937.refill]
  split_ifs with hfull
  · have hposition : generator.position = 625 := Nat.le_antisymm h.le hfull
    have hblock : Holds x b 624 ((List.range' 1 624).foldl Mt19937.twist generator.state) :=
      Holds.foldl_twist hx hb (Nat.le_refl 624)
    have hindex : n + 1 = 624 * (b + 1) + 1 := by omega
    generalize (List.range' 1 624).foldl Mt19937.twist generator.state = state at hblock ⊢
    exact ⟨⟨⟨b + 1, hblock.next, hindex⟩, Nat.le_refl 1, show 1 ≤ 625 by decide⟩, show 1 ≤ 624 by decide⟩
  · exact ⟨h, Nat.not_lt.mp hfull⟩

theorem At.word (h : At x n generator) (hle : generator.position ≤ 624) :
    Mt19937.word generator.state generator.position = (x n).toNat := by
  obtain ⟨b, hb, hn⟩ := h.holds
  have hone := h.one_le
  rw [Mt19937.word, hb.word_of_ge (by omega) (Nat.zero_le _)]
  congr 2
  omega

/-- One output. -/
theorem At.uint32 (hx : IsTwisted x) (h : At x n generator) :
    generator.uint32.1 = (temper (x n)).toNat ∧ At x (n + 1) generator.uint32.2 := by
  obtain ⟨hrefill, hle⟩ := h.refill hx
  obtain ⟨b, hb, hn⟩ := hrefill.holds
  constructor
  · rw [Mt19937.uint32]
    simp only [hrefill.word hle]
    rw [← toNat_temper, toNat_and_mask32]
  · refine ⟨⟨b, hb, ?_⟩, ?_, ?_⟩
    · show n + 1 + 1 = 624 * b + (generator.refill.position + 1)
      omega
    · show 1 ≤ generator.refill.position + 1
      omega
    · show generator.refill.position + 1 ≤ 625
      omega

/-- A run of the generator. -/
theorem At.after (hx : IsTwisted x) (h : At x n generator) (k : ℕ) : At x (n + k) (generator.after k) := by
  induction k with
  | zero => exact h
  | succ k ih => exact (ih.uint32 hx).2

theorem int64_of_lt {value : ℕ} (h : value < 2 ^ 63) : int64 value = some value := if_pos h

theorem shiftLeft_lt {value k : ℕ} (h : value < 2 ^ 32) (hk : k ≤ 15) : value <<< k < 2 ^ 63 := by
  rw [Nat.shiftLeft_eq]
  calc value * 2 ^ k ≤ value * 2 ^ 15 := Nat.mul_le_mul_left _ (Nat.pow_le_pow_right two_pos hk)
    _ < 2 ^ 63 := by omega

theorem xor_shiftRight_lt {value : ℕ} (h : value < 2 ^ 32) (k : ℕ) : value ^^^ (value >>> k) < 2 ^ 32 :=
  Nat.xor_lt_two_pow h (lt_of_le_of_lt (Nat.shiftRight_le value k) h)

/-- The shifts of an output fit 64 bits. -/
theorem At.checkedUint32 (hx : IsTwisted x) (h : At x n generator) :
    generator.checkedUint32 = some generator.uint32 := by
  obtain ⟨hrefill, hle⟩ := h.refill hx
  obtain ⟨first, hfirst⟩ : ∃ v, v = (x n).toNat ^^^ ((x n).toNat >>> 11) := ⟨_, rfl⟩
  have hlt : first < 2 ^ 32 := by
    rw [hfirst]
    exact xor_shiftRight_lt (x n).toNat_lt 11
  have hsecond : first ^^^ (first <<< 7 &&& 0x9d2c5680) < 2 ^ 32 :=
    Nat.xor_lt_two_pow hlt (lt_of_le_of_lt Nat.and_le_right (by norm_num))
  rw [Mt19937.checkedUint32, Mt19937.uint32]
  simp only [hrefill.word hle, ← hfirst, int64_of_lt (shiftLeft_lt hlt (by decide : 7 ≤ 15)),
    int64_of_lt (shiftLeft_lt hsecond le_rfl), Option.bind_eq_bind, Option.bind_some]

end

/-! ### Seeds -/

section
variable {previous n i : ℕ}

/-- The words behind one of the first. -/
theorem seedWords_getD (w : UInt32) (n i j : ℕ) (hi : i + n < 624) (hj : j < n) :
    (seedWords (initial w i).toNat n (i + 2)).getD j 0 = (initial w (i + 1 + j)).toNat := by
  induction n generalizing i j with
  | zero => exact absurd hj (Nat.not_lt_zero j)
  | succ n ih =>
    have hword : (1812433253 * ((initial w i).toNat ^^^ ((initial w i).toNat >>> 30)) + (i + 2 - 1)) &&& mask32 =
        (initial w (i + 1)).toNat := by
      rw [and_mask32, toNat_initial_succ w (by omega)]
      rfl
    rw [seedWords]
    simp only [hword]
    cases j with
    | zero => rfl
    | succ j =>
      rw [List.getD_cons_succ, ih (i + 1) j (by omega) (by omega)]
      congr 2
      omega

theorem seedWords_length (previous n i : ℕ) : (seedWords previous n i).length = n := by
  induction n generalizing previous i with
  | zero => rfl
  | succ n ih =>
    rw [seedWords]
    simp only [List.length_cons, ih]

/-- The low bits of a seed. -/
def lowBits (value : ℤ) : UInt32 := UInt32.ofNat (value % 0x100000000).toNat

theorem toNat_lowBits (value : ℤ) : (lowBits value).toNat = (value % 0x100000000).toNat := by
  refine UInt32.toNat_ofNat_of_lt' ?_
  show _ < 4294967296
  omega

/-- A seeded generator begins with the words of the seed, all of them used. -/
theorem at_seed (value : ℤ) : At (sequence (initial (lowBits value))) 624 (seed value) := by
  refine ⟨⟨0, ⟨?_, fun j hj => ?_⟩, rfl⟩, show 1 ≤ 625 by decide, show 625 ≤ 625 from le_rfl⟩
  · show (seedWords _ 623 2).length + 1 = 624
    rw [seedWords_length]
  · rw [if_neg (Nat.not_lt_zero j), Nat.mul_zero, Nat.zero_add, sequence_of_lt hj]
    show ((value % 0x100000000).toNat :: seedWords (value % 0x100000000).toNat 623 2).getD j 0 = _
    rw [← toNat_lowBits]
    cases j with
    | zero => rfl
    | succ j =>
      rw [List.getD_cons_succ]
      refine (seedWords_getD (lowBits value) 623 0 j (by decide) (by omega)).trans ?_
      rw [Nat.zero_add, Nat.add_comm]

theorem checkedSeedWords_eq (hprevious : previous < 2 ^ 32) (hi : i + n ≤ 2 ^ 32) :
    checkedSeedWords previous n i = some (seedWords previous n i) := by
  induction n generalizing previous i with
  | zero => rfl
  | succ n ih =>
    have hxor := xor_shiftRight_lt hprevious 30
    have hproduct : 1812433253 * (previous ^^^ (previous >>> 30)) + (i - 1) < 2 ^ 63 := by omega
    rw [checkedSeedWords, seedWords]
    simp only [int64_of_lt (lt_of_le_of_lt (Nat.le_add_right _ _) hproduct), int64_of_lt hproduct,
      Option.bind_eq_bind, Option.bind_some]
    rw [ih (by rw [and_mask32]; exact Nat.mod_lt _ (Nat.two_pow_pos 32)) (by omega)]
    rfl

theorem checkedSeed_eq (value : ℤ) : checkedSeed value = some (seed value) := by
  rw [checkedSeed, checkedSeedWords_eq (by omega) (by norm_num)]
  rfl

end

/-! ### Uniform numbers -/

open Format

def radix32 : ℚ := 4294967296
def radix64 : ℚ := 18446744073709551616

/-- `mt19937_uniform_real64`, every operation rounded to double precision. -/
def uniformDouble (generator : Mt19937) : ℚ × Mt19937 :=
  let (low, high, generator) := generator.uniformWords
  let low := double.round low
  let high := double.round (double.round high * radix32)
  (double.round (double.round (low + high) / radix64), generator)

section
variable {N m : ℕ}

theorem lowestExponent_double : double.lowestExponent = -1074 := by decide

/-- Numbers of up to 53 bits are exact. -/
theorem round_exact {q : ℕ} (hq : q ≤ 2 ^ 53) (k : ℕ) : double.round (q * 2 ^ k) = q * 2 ^ k := by
  have h := round_eq_self (f := double) (e := k) hq (by rw [lowestExponent_double]; omega)
  rwa [zpow_natCast] at h

/-- `2 ^ 64` and the number before it. -/
theorem size_radix64 :
    double.size (1087 * 2 ^ 52) = radix64 ∧ double.size (1087 * 2 ^ 52 - 1) = radix64 - 2 ^ 11 := by
  constructor
  · have h := size_add (f := double) (k := 1086) (q := 2 ^ 52) (by norm_num [double]) (.inr le_rfl)
    rw [lowestExponent_double] at h
    refine Eq.trans ?_ (h.trans ?_)
    · rfl
    · norm_num [radix64]
  · have h := size_add (f := double) (k := 1085) (q := 2 ^ 53 - 1) (by norm_num [double])
      (.inr (by norm_num [double]))
    rw [lowestExponent_double] at h
    refine Eq.trans ?_ (h.trans ?_)
    · rfl
    · norm_num [radix64]

/-- The sum of two words reaches `2 ^ 64` from half way to it. -/
theorem round_sum (hN : N < 2 ^ 64) :
    double.round N ≤ radix64 ∧ (double.round N < radix64 ↔ N < 2 ^ 64 - 2 ^ 10) := by
  have hnear := isNearestEven_nearest double N
  rw [abs_of_nonneg (Nat.cast_nonneg N)] at hnear
  obtain ⟨hlast, hbefore⟩ := size_radix64
  have hiff := hnear.le_iff double.strictMono_size (n := 1087 * 2 ^ 52) (by norm_num) (by norm_num)
  have hcast : (N : ℚ) < radix64 := by
    have hlt : (N : ℚ) < ((2 ^ 64 : ℕ) : ℚ) := Nat.cast_lt.mpr hN
    rwa [show ((2 ^ 64 : ℕ) : ℚ) = radix64 by norm_num [radix64]] at hlt
  rw [hlast, hbefore] at hiff
  refine ⟨?_, ?_⟩
  · rw [Format.round, ← hlast]
    refine double.strictMono_size.monotone (Nat.not_lt.mp fun hlt => ?_)
    have hsize := double.strictMono_size hlt
    have hbest := hnear.nearest (1087 * 2 ^ 52)
    rw [hlast] at hsize hbest
    rw [abs_sub_comm, abs_of_pos (by linarith), abs_sub_comm, abs_of_pos (by linarith)] at hbest
    linarith
  · rw [Format.round, ← hlast, double.strictMono_size.lt_iff_lt, ← not_le, hiff, not_le]
    have hhalf : radix64 - 2 ^ 11 + radix64 = 2 * ((2 ^ 64 - 2 ^ 10 : ℕ) : ℚ) := by norm_num [radix64]
    rw [hhalf, mul_lt_mul_iff_of_pos_left two_pos, Nat.cast_lt]

/-- The division is exact. -/
theorem round_div (N : ℕ) : double.round (double.round N / radix64) = double.round N / radix64 := by
  rcases Nat.eq_zero_or_pos N with rfl | hpos
  · have hzero : double.round ((0 : ℕ) : ℚ) = 0 := by
      have h := round_exact (q := 0) (Nat.zero_le _) 0
      rwa [Nat.cast_zero, zero_mul] at h
    rw [hzero, zero_div, ← Nat.cast_zero (R := ℚ), hzero, Nat.cast_zero]
  · -- the sum is at least 1, far above the smallest number
    have hnear := isNearestEven_nearest double N
    rw [abs_of_nonneg (Nat.cast_nonneg N)] at hnear
    have hcast : (1 : ℚ) ≤ N := by exact_mod_cast hpos
    have hone : (1 : ℚ) ≤ double.size (double.nearest N) := by
      obtain ⟨m, hm⟩ : ∃ m, double.size m = (1 : ℕ) * 2 ^ (0 : ℤ) :=
        exists_size_eq (by norm_num [double]) (by rw [lowestExponent_double]; decide)
      rw [Nat.cast_one, zpow_zero, one_mul] at hm
      have hbest := hnear.nearest m
      have hdistance : |(N : ℚ) - 1| = N - 1 := abs_of_nonneg (by linarith)
      rw [hm, hdistance] at hbest
      have hupper := (abs_le.mp hbest).2
      linarith
    have hlarge : 2 ^ (double.fraction + 1 + 64) * double.lowest ≤ double.size (double.nearest N) := by
      refine le_trans ?_ hone
      rw [Format.lowest, lowestExponent_double, ← zpow_natCast, ← zpow_add₀ two_ne_zero]
      exact zpow_le_one_of_nonpos₀ one_le_two (by norm_num [double])
    obtain ⟨n, hn⟩ := exists_size_div hlarge
    have hradix : radix64 = 2 ^ 64 := by norm_num [radix64]
    rw [hradix]
    show double.round (double.size _ / _) = double.size _ / _
    rw [← hn, round_size]

variable {generator : Mt19937} {x : ℕ → UInt32} {n : ℕ}

/-- The number for two outputs, and what is left of the generator. -/
theorem uniformDouble_eq (hx : IsTwisted x) (h : At x n generator) :
    uniformDouble generator =
      (double.round (((temper (x n)).toNat + (temper (x (n + 1))).toNat * 2 ^ 32 : ℕ) : ℚ) / radix64,
        generator.after 2) := by
  obtain ⟨hlow, hnext⟩ := h.uint32 hx
  obtain ⟨hhigh, -⟩ := hnext.uint32 hx
  have hexact (w : UInt32) : double.round (w.toNat : ℚ) = w.toNat := by
    have h := @round_exact w.toNat (w.toNat_lt.le.trans (by norm_num)) 0
    rwa [pow_zero, mul_one] at h
  have hproduct (w : UInt32) : double.round (w.toNat * radix32) = w.toNat * 2 ^ 32 := by
    have h := @round_exact w.toNat (w.toNat_lt.le.trans (by norm_num)) 32
    rwa [show (2 : ℚ) ^ 32 = radix32 by norm_num [radix32]] at h ⊢
  have hsum (low high : UInt32) : (low.toNat : ℚ) + high.toNat * 2 ^ 32 =
      ((low.toNat + high.toNat * 2 ^ 32 : ℕ) : ℚ) := by
    push_cast
    rfl
  rw [uniformDouble, uniformWords]
  simp only [hlow, hhigh, hexact, hproduct, hsum, round_div]
  rfl

/-- The sum of two outputs is rounded to `2 ^ 64` when its first 54 bits are ones. -/
theorem sum_lt_iff (low high : UInt32) :
    low.toNat + high.toNat * 2 ^ 32 < 2 ^ 64 - 2 ^ 10 ↔ ¬ (0xfffffc00 ≤ low.toNat ∧ high.toNat = 0xffffffff) := by
  have hlow := low.toNat_lt
  have hhigh := high.toNat_lt
  omega

theorem uniformDouble_lt_one_iff (hx : IsTwisted x) (h : At x n generator) :
    0 ≤ (uniformDouble generator).1 ∧ (uniformDouble generator).1 ≤ 1 ∧
      ((uniformDouble generator).1 < 1 ↔
        ¬ (0xfffffc00 ≤ (temper (x n)).toNat ∧ (temper (x (n + 1))).toNat = 0xffffffff)) := by
  have hlow := (temper (x n)).toNat_lt
  have hhigh := (temper (x (n + 1))).toNat_lt
  have hradix : 0 < radix64 := by norm_num [radix64]
  obtain ⟨hle, hlt⟩ := @round_sum ((temper (x n)).toNat + (temper (x (n + 1))).toNat * 2 ^ 32) (by omega)
  rw [uniformDouble_eq hx h, ← sum_lt_iff, ← hlt]
  exact ⟨div_nonneg (double.size_nonneg _) hradix.le, (div_le_one hradix).mpr hle, div_lt_one hradix⟩

/-- A generator between two outputs has a place in the sequence that begins with its words. -/
theorem WellFormed.at (h : WellFormed generator) :
    At (sequence fun k => UInt32.ofNat (generator.state.getD k 0)) (generator.position - 1) generator := by
  have hone := h.one_le
  refine ⟨⟨0, ⟨h.length, fun j hj => ?_⟩, by omega⟩, hone, h.le⟩
  rw [if_neg (Nat.not_lt_zero j), Nat.mul_zero, Nat.zero_add, sequence_of_lt hj]
  refine (UInt32.toNat_ofNat_of_lt' ?_).symm
  rw [← h.length] at hj
  rw [List.getD_eq_getElem _ _ hj]
  exact h.lt _ (List.getElem_mem hj)

end

/-- A generator whose next two outputs are all ones. -/
def ones : Mt19937 := ⟨0x12dd9bb3 :: 0x12dd9bb3 :: (List.replicate 621 0 ++ [0x90667d06]), 1⟩

/-- Its words are 32-bit words, and its uniform number is 1. -/
theorem uniformDouble_ones : WellFormed ones ∧ (uniformDouble ones).1 = 1 := by
  have hwell : WellFormed ones := by
    have hlength : ones.state.length = 624 := by
      show (List.replicate 621 0 ++ [0x90667d06]).length + 1 + 1 = 624
      rw [List.length_append, List.length_replicate, List.length_singleton]
    refine ⟨hlength, fun w hw => ?_, le_rfl, show 1 ≤ 625 by decide⟩
    rcases List.mem_cons.mp hw with rfl | hw
    · norm_num
    rcases List.mem_cons.mp hw with rfl | hw
    · norm_num
    rcases List.mem_append.mp hw with hw | hw
    · rw [List.eq_of_mem_replicate hw]
      norm_num
    · rw [List.mem_singleton.mp hw]
      norm_num
  refine ⟨hwell, ?_⟩
  have htemper : temper 0x12dd9bb3 = 0xffffffff := by decide
  have hfirst : sequence (fun k => UInt32.ofNat (ones.state.getD k 0)) 0 = 0x12dd9bb3 :=
    sequence_of_lt (by decide)
  have hsecond : sequence (fun k => UInt32.ofNat (ones.state.getD k 0)) 1 = 0x12dd9bb3 :=
    sequence_of_lt (by decide)
  obtain ⟨-, hle, hlt⟩ := uniformDouble_lt_one_iff (isTwisted_sequence _) hwell.at
  refine le_antisymm hle (not_lt.mp (hlt.not.mpr (not_not.mpr ?_)))
  rw [show ones.position - 1 = 0 from rfl, hfirst, hsecond, htemper]
  decide

/-- The outputs for a seed are the standard ones, on 32-bit words within 64 bits; a uniform number takes
two of them and is below 1 as long as they do not begin with 54 ones. -/
theorem mersenne_twister (value : ℤ) (n : ℕ) (other : Mt19937) :
    (let generator := (seed value).after n;
      checkedSeed value = some (seed value) ∧ WellFormed generator ∧
      (∀ i ≤ 624, ∀ w ∈ (List.range' 1 i).foldl twist generator.state, w < 2 ^ 32) ∧
      generator.checkedUint32 = some generator.uint32 ∧
      generator.uint32.1 = (standard (lowBits value) n).toNat ∧
      (0 ≤ (uniformDouble generator).1 ∧ (uniformDouble generator).1 < 1 ↔
        ¬ (0xfffffc00 ≤ (standard (lowBits value) n).toNat ∧
          (standard (lowBits value) (n + 1)).toNat = 0xffffffff))) ∧
    (WellFormed other →
      let x := sequence fun k => UInt32.ofNat (other.state.getD k 0)
      (uniformDouble other).2 = other.after 2 ∧
      (0 ≤ (uniformDouble other).1 ∧ (uniformDouble other).1 < 1 ↔
        ¬ (0xfffffc00 ≤ (temper (x (other.position - 1))).toNat ∧
          (temper (x (other.position - 1 + 1))).toNat = 0xffffffff))) := by
  constructor
  · intro generator
    have hx := isTwisted_sequence (initial (lowBits value))
    have hat : At (sequence (initial (lowBits value))) (624 + n) generator := (at_seed value).after hx n
    obtain ⟨hnonneg, -, hlt⟩ := uniformDouble_lt_one_iff hx hat
    exact ⟨checkedSeed_eq value, hat.wellFormed, fun i _ => foldl_twist_lt hat.wellFormed.lt _,
      hat.checkedUint32 hx, (hat.uint32 hx).1, (and_iff_right hnonneg).trans hlt⟩
  · intro h x
    have hx : IsTwisted x := isTwisted_sequence _
    obtain ⟨hnonneg, -, hlt⟩ := uniformDouble_lt_one_iff hx h.at
    exact ⟨by rw [uniformDouble_eq hx h.at], (and_iff_right hnonneg).trans hlt⟩

end Mt19937

end FortAI
