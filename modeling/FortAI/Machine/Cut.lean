import Mathlib.Data.List.Basic
import Mathlib.Tactic.Ring

/-!
# Sequences cut into pieces

All pieces of a sequence have the same length, but the last one may be shorter.

* `cut` : the pieces.
* `flatten_cut`, `length_of_mem_cut` : nothing is lost, and no piece is empty or too long.
* `cut_append` : behind whole pieces a sequence is cut as if it stood alone.
-/

namespace FortAI

namespace Cut

variable {α : Type}

/-- The pieces of a sequence, of `n` elements each. -/
def cut (n : ℕ) (s : List α) : List (List α) :=
  if _h : s = [] ∨ n = 0 then [] else s.take n :: cut n (s.drop n)
termination_by s.length
decreasing_by
  obtain ⟨hs, hn⟩ := not_or.mp _h
  have := List.length_pos_iff.mpr hs
  rw [List.length_drop]
  omega

variable {n : ℕ}

theorem cut_nil : cut n ([] : List α) = [] := by
  rw [cut]
  simp

theorem cut_of_ne (hn : 0 < n) {s : List α} (hs : s ≠ []) : cut n s = s.take n :: cut n (s.drop n) := by
  rw [cut, dif_neg (by simp [hs, hn.ne'])]

theorem flatten_cut (hn : 0 < n) (s : List α) : (cut n s).flatten = s := by
  induction h : s.length using Nat.strong_induction_on generalizing s with
  | _ length ih =>
    rcases eq_or_ne s [] with rfl | hs
    · rw [cut_nil, List.flatten_nil]
    · have hpos := List.length_pos_iff.mpr hs
      rw [cut_of_ne hn hs, List.flatten_cons, ih _ (by rw [List.length_drop]; omega) _ rfl, List.take_append_drop]

theorem length_of_mem_cut (hn : 0 < n) {s piece : List α} (hpiece : piece ∈ cut n s) :
    0 < piece.length ∧ piece.length ≤ n := by
  induction h : s.length using Nat.strong_induction_on generalizing s with
  | _ length ih =>
    rcases eq_or_ne s [] with rfl | hs
    · rw [cut_nil] at hpiece
      cases hpiece
    · have hpos := List.length_pos_iff.mpr hs
      rw [cut_of_ne hn hs] at hpiece
      rcases List.mem_cons.mp hpiece with rfl | hlater
      · rw [List.length_take]
        omega
      · exact ih _ (by rw [List.length_drop]; omega) hlater rfl

theorem cut_append (hn : 0 < n) {k : ℕ} {s t : List α} (hs : s.length = k * n) :
    cut n (s ++ t) = cut n s ++ cut n t := by
  induction k generalizing s with
  | zero =>
    obtain rfl : s = [] := List.length_eq_zero_iff.mp (by omega)
    rw [cut_nil, List.nil_append, List.nil_append]
  | succ k ih =>
    have hlength : s.length = k * n + n := by rw [hs]; ring
    have hne : s ≠ [] := List.length_pos_iff.mp (by omega)
    rw [cut_of_ne hn hne, cut_of_ne hn (by simp [hne]), List.take_append_of_le_length (by omega),
      List.drop_append_of_le_length (by omega), ih (by rw [List.length_drop]; omega), List.cons_append]

end Cut

end FortAI
