import FortAI.Machine.CString

/-!
# Fortran character values

The intrinsic operations on `character` values that text-handling Fortran is written with.  A
value is the list of its bytes; a comparison pads the shorter operand with blanks.

* `same_iff` : against a value without blanks, the comparison is equality up to trailing blanks.
* `take_index` : what stands before the first occurrence of a character.
-/

namespace FortAI

namespace Character

open CString

/-- `trim` -/
def trim (s : Bytes) : Bytes := trimEnd (· = space) s

/-- `s == t` -/
def same (s t : Bytes) : Bool := trim s = trim t

/-- `index(s, needle)`: the position of the first occurrence, counted from 1; 0 when there is
none. -/
def index (s needle : Bytes) : ℕ := (find needle s).elim 0 (· + 1)

theorem trim_eq_self {s : Bytes} (h : space ∉ s) : trim s = s := by
  rw [trim, trimEnd, List.rdropWhile_eq_self_iff]
  intro hne hlast
  rw [decide_eq_true_eq] at hlast
  exact h (hlast ▸ List.getLast_mem hne)

theorem same_iff {s t : Bytes} (h : space ∉ s) : same s t = true ↔ s = trim t := by
  rw [same, trim_eq_self h, decide_eq_true_eq]

/-- Values without blanks are compared for equality. -/
theorem same_iff_eq {s t : Bytes} (hs : space ∉ s) (ht : space ∉ t) : same s t = true ↔ s = t := by
  rw [same_iff hs, trim_eq_self ht]

theorem trim_subset (s : Bytes) : trim s ⊆ s := (List.rdropWhile_prefix _ s).subset

theorem find_singleton (c : Byte) (s : Bytes) :
    find [c] s = if c ∈ s then some (s.takeWhile (· ≠ c)).length else none := by
  induction s with
  | nil => rfl
  | cons b s ih =>
    by_cases hb : b = c
    · subst hb
      rw [find_eq_some_zero (by simp)]
      simp
    · rw [find_cons_of_not_starts (by simpa using Ne.symm hb), ih]
      by_cases hc : c ∈ s
      · simp [hc, hb]
      · simp [hc, Ne.symm hb]

theorem index_singleton (s : Bytes) (c : Byte) :
    index s [c] = if c ∈ s then (s.takeWhile (· ≠ c)).length + 1 else 0 := by
  rw [index, find_singleton]
  split_ifs <;> rfl

theorem exists_of_index {s : Bytes} {c : Byte} (h : 0 < index s [c]) :
    ∃ u v, s = u ++ c :: v ∧ c ∉ u ∧ index s [c] = u.length + 1 := by
  rw [index_singleton] at h ⊢
  by_cases hc : c ∉ s
  · rw [if_neg hc] at h
    exact absurd h (Nat.lt_irrefl 0)
  rw [not_not] at hc
  rw [if_pos hc]
  have hu : c ∉ s.takeWhile (· ≠ c) := by
    intro hmem
    have := List.mem_takeWhile_imp hmem
    exact of_decide_eq_true this rfl
  have hsplit := List.takeWhile_append_dropWhile (p := (· ≠ c)) (l := s)
  cases hv : s.dropWhile (· ≠ c) with
  | nil =>
    rw [hv, List.append_nil] at hsplit
    rw [hsplit] at hu
    exact absurd hc hu
  | cons b v =>
    have hb : b = c := by
      have hne : s.dropWhile (· ≠ c) ≠ [] := by rw [hv]; exact List.cons_ne_nil b v
      have hhead := List.head_dropWhile_not (· ≠ c) hne
      simp only [hv, List.head_cons, decide_eq_false_iff_not, not_not] at hhead
      exact hhead
    subst hb
    rw [hv] at hsplit
    exact ⟨_, v, hsplit.symm, hu, rfl⟩

/-- What stands before the first occurrence of a character, or everything when there is none. -/
theorem take_index (s : Bytes) (c : Byte) :
    (if 0 < index s [c] then s.take (index s [c] - 1) else s) = s.takeWhile (· ≠ c) := by
  rw [index_singleton]
  by_cases hc : c ∈ s
  · rw [if_pos hc, if_pos (Nat.succ_pos _), Nat.add_sub_cancel]
    exact List.prefix_iff_eq_take.mp (List.takeWhile_prefix _) |>.symm
  · rw [if_neg hc, if_neg (Nat.lt_irrefl 0)]
    refine (List.takeWhile_eq_self_iff.mpr fun b hb => ?_).symm
    rw [decide_eq_true_eq]
    rintro rfl
    exact hc hb

end Character

end FortAI
