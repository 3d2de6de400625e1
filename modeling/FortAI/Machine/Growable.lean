import FortAI.Machine.Storage
import Mathlib.Algebra.Order.Ring.Int
import Mathlib.Data.List.Infix

/-!
# Growable storage

A sequence that is kept at the front of an array with room behind it.  When the room is used up the
sequence moves into a longer array, whose length is found by doubling.

* `Holds` : the array holds the sequence; kept by moving it (`Holds.moved`) and by writing behind it
  (`Holds.append`).
* `doubled_pow` : from a power of two, doubling passes every size up to half of the range of the
  integers, and it overflows for every size above.
-/

namespace FortAI

namespace Growable

open Storage

variable {E α : Type*}

/-! ### The length of the next array -/

/-- The first length of at least `required` from `capacity` on, when every length is twice the one
before; the lengths, and what is computed for them, have to be at most `limit`. -/
def doubled (limit required capacity : ℕ) : Option ℕ :=
  if capacity < required then
    if limit < capacity + 1 ∨ limit < 2 * capacity then none
    else doubled limit required (if capacity + 1 < 2 * capacity then 2 * capacity else capacity + 1)
  else some capacity
termination_by required - capacity
decreasing_by split_ifs <;> omega

theorem doubled_of_le {limit required capacity : ℕ} (h : required ≤ capacity) :
    doubled limit required capacity = some capacity := by
  rw [doubled, if_neg (Nat.not_lt.mpr h)]

theorem doubled_of_lt {limit required capacity : ℕ} (h : capacity < required) (hone : 1 < capacity)
    (hfit : 2 * capacity ≤ limit) : doubled limit required capacity = doubled limit required (2 * capacity) := by
  have hroom : ¬ (limit < capacity + 1 ∨ limit < 2 * capacity) := by omega
  rw [doubled, if_pos h, if_neg hroom, if_pos (by omega)]

theorem doubled_overflow {limit required capacity : ℕ} (h : capacity < required) (hfit : limit < 2 * capacity) :
    doubled limit required capacity = none := by
  rw [doubled, if_pos h, if_pos (Or.inr hfit)]

/-- From a power of two on, a size is passed if it is at most half of `2 ^ (n + 1)`. -/
theorem doubled_pow {n k required : ℕ} (hone : 1 ≤ k) (hk : k ≤ n) (h : required ≤ 2 ^ n) :
    ∃ m, k ≤ m ∧ m ≤ n ∧ required ≤ 2 ^ m ∧ doubled (2 ^ (n + 1) - 1) required (2 ^ k) = some (2 ^ m) := by
  -- the number of doublings left
  induction hd : n - k generalizing k with
  | zero =>
    obtain rfl : k = n := by omega
    exact ⟨k, Nat.le_refl k, hk, h, doubled_of_le h⟩
  | succ d ih =>
    by_cases hle : required ≤ 2 ^ k
    · exact ⟨k, Nat.le_refl k, hk, hle, doubled_of_le hle⟩
    have hlarge : 1 < 2 ^ k := Nat.one_lt_two_pow (by omega)
    have hdouble : 2 * 2 ^ k = 2 ^ (k + 1) := (Nat.pow_succ' ..).symm
    have hfit : 2 * 2 ^ k ≤ 2 ^ (n + 1) - 1 := by
      have hbelow : 2 ^ (k + 1) < 2 ^ (n + 1) := Nat.pow_lt_pow_right (by decide) (by omega)
      omega
    obtain ⟨m, hkm, hmn, hrequired, hresult⟩ := ih (k := k + 1) (by omega) (by omega) (by omega)
    refine ⟨m, by omega, hmn, hrequired, ?_⟩
    rw [doubled_of_lt (Nat.lt_of_not_le hle) hlarge hfit, hdouble, hresult]

/-- A larger size is not passed: the doubling leaves the range of the integers before. -/
theorem doubled_pow_none {n k required : ℕ} (hone : 1 ≤ k) (hk : k ≤ n) (h : 2 ^ n < required) :
    doubled (2 ^ (n + 1) - 1) required (2 ^ k) = none := by
  induction hd : n - k generalizing k with
  | zero =>
    obtain rfl : k = n := by omega
    refine doubled_overflow h ?_
    rw [Nat.pow_succ']
    have := Nat.two_pow_pos k
    omega
  | succ d ih =>
    have hlarge : 1 < 2 ^ k := Nat.one_lt_two_pow (by omega)
    have hdouble : 2 * 2 ^ k = 2 ^ (k + 1) := (Nat.pow_succ' ..).symm
    have hbelow : 2 ^ (k + 1) < 2 ^ (n + 1) := Nat.pow_lt_pow_right (by decide) (by omega)
    have hle : 2 ^ k ≤ 2 ^ n := Nat.pow_le_pow_right (by decide) hk
    rw [doubled_of_lt (by omega) hlarge (by omega), hdouble]
    exact ih (by omega) (by omega) (by omega)

/-! ### The sequence in the array -/

/-- The length of the array; 0 before it is allocated. -/
def capacity (array : Allocatable α) : ℕ := array.elim 0 List.length

/-- The first `used` elements of the array are the sequence. -/
structure Holds (array : Allocatable α) (used : ℕ) (xs : List α) : Prop where
  used_eq : used = xs.length
  front : xs <+: array.getD []

namespace Holds

variable {array : Allocatable α} {used : ℕ} {xs : List α}

/-- No more elements are used than there are. -/
theorem used_le (h : Holds array used xs) : used ≤ capacity array := by
  have hlength := h.front.length_le
  rw [h.used_eq]
  cases array <;> exact hlength

theorem nil (array : Allocatable α) : Holds array 0 [] := ⟨rfl, List.nil_prefix⟩

/-- What an array that is not allocated holds. -/
theorem eq_nil (h : Holds none used xs) : xs = [] := List.prefix_nil.mp h.front

/-- The sequence is read back. -/
theorem substring_eq {ys : List α} (h : Holds (some ys) used xs) :
    (substring ys 1 used : Checked E (List α)) = .ok xs := by
  obtain ⟨rest, hrest⟩ : xs <+: ys := h.front
  subst hrest
  rw [substring, if_pos ⟨Nat.le_refl 1, h.used_le⟩, h.used_eq, Nat.sub_self, List.drop_zero, Nat.add_sub_cancel,
    List.take_left]

/-- The sequence moves into another array. -/
theorem moved (h : Holds array used xs) {ys : List α} (hfit : used ≤ ys.length) :
    ∃ zs, (overlay (some ys) 1 xs : Checked E (Allocatable α)) = .ok (some zs) ∧ zs.length = ys.length ∧
      Holds (some zs) used xs := by
  have hroom : 0 + xs.length ≤ ys.length := by rw [Nat.zero_add, ← h.used_eq]; exact hfit
  refine ⟨ys.take 0 ++ xs ++ ys.drop (0 + xs.length), overlay_eq hroom, ?_, h.used_eq, ?_⟩
  · rw [List.take_zero, List.nil_append, Nat.zero_add, List.length_append, List.length_drop]
    omega
  · exact ⟨_, rfl⟩

/-- More elements are written behind the sequence. -/
theorem append {ys zs : List α} (h : Holds (some ys) used xs) (hfit : used + zs.length ≤ ys.length) :
    ∃ ys', (overlay (some ys) (used + 1) zs : Checked E (Allocatable α)) = .ok (some ys') ∧
      ys'.length = ys.length ∧ Holds (some ys') (used + zs.length) (xs ++ zs) := by
  obtain ⟨rest, hrest⟩ : xs <+: ys := h.front
  have hused := h.used_eq
  subst hrest
  have htake : (xs ++ rest).take used = xs := by rw [hused, List.take_left]
  refine ⟨_, overlay_eq hfit, ?_, ?_, ?_⟩
  · rw [List.length_append, List.length_append, htake, List.length_drop]
    omega
  · rw [List.length_append, hused]
  · rw [htake]
    exact ⟨_, rfl⟩

/-- One more element is stored behind the sequence. -/
theorem push {ys : List α} (h : Holds (some ys) used xs) (hfit : used < ys.length) (z : α) :
    ∃ ys', (store (some ys) (used + 1) z : Checked E (Allocatable α)) = .ok (some ys') ∧
      ys'.length = ys.length ∧ Holds (some ys') (used + 1) (xs ++ [z]) := by
  obtain ⟨rest, hrest⟩ : xs <+: ys := h.front
  have hused := h.used_eq
  subst hrest
  refine ⟨_, store_eq hfit z, List.length_set, ?_, ?_⟩
  · rw [List.length_append, hused]
    rfl
  · cases rest with
    | nil =>
      rw [List.append_nil] at hfit
      omega
    | cons r rest =>
      refine ⟨rest, ?_⟩
      rw [Option.getD_some, hused, List.set_append_right _ _ (Nat.le_refl _), Nat.sub_self, List.set_cons_zero,
        List.append_assoc]
      rfl

end Holds

end Growable

end FortAI
