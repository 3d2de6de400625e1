import Mathlib.Algebra.BigOperators.Intervals
import Mathlib.Algebra.BigOperators.Ring.Finset
import Mathlib.Algebra.Ring.Defs
import Mathlib.Data.List.GetD

/-!
# The last inputs of a stream

An array of `slots` slots of `width` cells keeps the last inputs of a stream, the oldest one in front.

* `slide` : every slot takes the cells of the next one, the last slot takes the new input.
* `Holds` : the array keeps what it should.
* `Holds.slide` : one more input.
* `Holds.sum_eq` : a weighted sum over the slots and the new input is one over the stream.
-/

namespace FortAI

namespace Window

open Finset

variable {R : Type*}

/-- `a(target + 1:target + length) = source(first + 1:first + length)` -/
def assign (target first length : ℕ) (source a : ℕ → R) : ℕ → R := fun x =>
  if target ≤ x ∧ x < target + length then source (first + (x - target)) else a x

/-- The slots from the first one on take the cells of the next one, one after the other. -/
def moveUp (width count : ℕ) (a : ℕ → R) : ℕ → R :=
  (List.range count).foldl (fun a slot => assign (slot * width) ((slot + 1) * width) width a a) a

def slide (slots width : ℕ) (x a : ℕ → R) : ℕ → R :=
  assign ((slots - 1) * width) 0 width x (moveUp width (slots - 1) a)

theorem assign_cell {width slot c : ℕ} (hc : c < width) (target first : ℕ) (source a : ℕ → R) :
    assign (target * width) first width source a (slot * width + c) =
      if slot = target then source (first + c) else a (slot * width + c) := by
  rw [assign]
  obtain hlt | rfl | hlt := Nat.lt_trichotomy slot target
  · have hbelow : (slot + 1) * width ≤ target * width := Nat.mul_le_mul_right width hlt
    rw [Nat.succ_mul] at hbelow
    rw [if_neg (by omega), if_neg (Nat.ne_of_lt hlt)]
  · rw [if_pos (by omega), if_pos rfl, Nat.add_sub_cancel_left]
  · have habove : (target + 1) * width ≤ slot * width := Nat.mul_le_mul_right width hlt
    rw [Nat.succ_mul] at habove
    rw [if_neg (by omega), if_neg (Nat.ne_of_gt hlt)]

/-- A slot is read before it is overwritten. -/
theorem moveUp_cell {width c : ℕ} (hc : c < width) (count slot : ℕ) (a : ℕ → R) :
    moveUp width count a (slot * width + c) =
      if slot < count then a ((slot + 1) * width + c) else a (slot * width + c) := by
  induction count generalizing slot with
  | zero => rfl
  | succ count ih =>
    rw [moveUp, List.range_succ, List.foldl_append, ← moveUp, List.foldl_cons, List.foldl_nil, assign_cell hc]
    by_cases hslot : slot = count
    · subst hslot
      -- the slot behind it has not moved yet
      rw [if_pos rfl, if_pos slot.lt_succ_self, ih, if_neg (Nat.not_lt.mpr slot.le_succ)]
    · rw [if_neg hslot, ih]
      exact if_congr (by omega) rfl rfl

theorem slide_cell {width c : ℕ} (hc : c < width) (slots slot : ℕ) (x a : ℕ → R) :
    slide slots width x a (slot * width + c) =
      if slot = slots - 1 then x c else if slot < slots - 1 then a ((slot + 1) * width + c)
        else a (slot * width + c) := by
  rw [slide, assign_cell hc, moveUp_cell hc, Nat.zero_add]

/-! ### Streams -/

variable [Zero R]

/-- The inputs by their numbers; there are zeros in front of the first one. -/
def streamAt (xs : List (ℕ → R)) (i : ℤ) : ℕ → R := if 0 ≤ i then xs.getD i.toNat 0 else 0

/-- The slots keep the last inputs, the oldest one in front. -/
def Holds (slots width : ℕ) (xs : List (ℕ → R)) (a : ℕ → R) : Prop :=
  ∀ slot < slots, ∀ c < width, a (slot * width + c) = streamAt xs (xs.length - slots + slot) c

theorem streamAt_append {xs : List (ℕ → R)} {i : ℤ} (hi : i < xs.length) (x : ℕ → R) :
    streamAt (xs ++ [x]) i = streamAt xs i := by
  rw [streamAt, streamAt]
  split_ifs with hpos
  · have hlt : i.toNat < xs.length := by omega
    exact List.getD_append _ _ _ _ hlt
  · rfl

theorem streamAt_length (xs : List (ℕ → R)) (x : ℕ → R) : streamAt (xs ++ [x]) xs.length = x := by
  rw [streamAt, if_pos (Int.natCast_nonneg _), Int.toNat_natCast, List.getD_append_right _ _ _ _ le_rfl, Nat.sub_self]
  rfl

/-- Before the first input the slots are zero. -/
theorem Holds.nil (slots width : ℕ) : Holds slots width [] fun _ => (0 : R) := by
  intro slot _ c _
  rw [streamAt]
  split_ifs <;> rfl

theorem Holds.slide {slots width : ℕ} (hslots : 0 < slots) {xs : List (ℕ → R)} {a : ℕ → R}
    (ha : Holds slots width xs a) (x : ℕ → R) : Holds slots width (xs ++ [x]) (slide slots width x a) := by
  intro slot hslot c hc
  have hlength : ((xs ++ [x]).length : ℤ) = xs.length + 1 := by
    rw [List.length_append, List.length_singleton]
    rfl
  rw [slide_cell hc, hlength]
  by_cases hlast : slot = slots - 1
  · have hnumber : (xs.length : ℤ) + 1 - slots + slot = xs.length := by omega
    rw [if_pos hlast, hnumber, streamAt_length]
  · have hnext : slot + 1 < slots := by omega
    have hnumber : (xs.length : ℤ) + 1 - slots + slot = xs.length - slots + (slot + 1 : ℕ) := by omega
    rw [if_neg hlast, if_pos (by omega), ha (slot + 1) hnext c hc, hnumber, streamAt_append (by omega)]

theorem sum_Icc_one {M : Type*} [AddCommMonoid M] (f : ℕ → M) (n : ℕ) :
    ∑ j ∈ Icc 1 n, f j = ∑ k ∈ range n, f (k + 1) := by
  induction n with
  | zero => rfl
  | succ n ih => rw [sum_Icc_succ_top (Nat.le_add_left 1 n), ih, sum_range_succ]

/-- A weighted sum over the slots and a new input is one over the stream. -/
theorem Holds.sum_eq {S : Type*} [Semiring S] {slots width : ℕ} {xs : List (ℕ → S)} {a : ℕ → S}
    (ha : Holds slots width xs a) (x weight : ℕ → S) {c : ℕ} (hc : c < width) :
    ∑ slot ∈ range slots, weight slot * a (slot * width + c) + weight slots * x c =
      ∑ j ∈ Icc 1 (slots + 1), weight (j - 1) * streamAt (xs ++ [x]) (xs.length - (slots + 1 : ℕ) + j) c := by
  have hnumber (k : ℕ) : (xs.length : ℤ) - (slots + 1 : ℕ) + (k + 1 : ℕ) = xs.length - slots + k := by omega
  rw [sum_Icc_one, sum_range_succ]
  simp only [hnumber, Nat.add_sub_cancel]
  have hnew : (xs.length : ℤ) - slots + slots = xs.length := by omega
  rw [hnew, streamAt_length]
  congr 1
  refine sum_congr rfl fun slot hslot => ?_
  have hlt : slot < slots := mem_range.mp hslot
  rw [ha slot hlt c hc, streamAt_append (by omega)]

end Window

end FortAI
