import Mathlib.Data.List.Basic

/-!
# Generation of texts

A language model scores what comes next from all tokens in front of it.  A token is picked from the scores, or
the text ends.

* `generate` : the tokens of a text.
* `picked_of_generate`, `ends_of_generate` : where its tokens come from, and where it ends.
-/

namespace FortAI

namespace Generation

variable {T L S : Type}

/-- The tokens behind those of `front`, at most `n`. -/
def generate (score : List T → L) (pick : L → S → Option (T × S)) : ℕ → List T → S → List T
  | 0, _, _ => []
  | n + 1, front, s =>
    match pick (score front) s with
    | none => []
    | some (t, s) => t :: generate score pick n (front ++ [t]) s

variable {score : List T → L} {pick : L → S → Option (T × S)}

theorem generate_of_none {n : ℕ} {front : List T} {s : S} (h : pick (score front) s = none) :
    generate score pick n front s = [] := by
  cases n with
  | zero => rfl
  | succ n => rw [generate, h]

theorem generate_of_some {n : ℕ} {front : List T} {s s' : S} {t : T} (h : pick (score front) s = some (t, s')) :
    generate score pick (n + 1) front s = t :: generate score pick n (front ++ [t]) s' := by
  rw [generate, h]

theorem length_generate_le (n : ℕ) (front : List T) (s : S) : (generate score pick n front s).length ≤ n := by
  induction n generalizing front s with
  | zero => exact Nat.le_refl _
  | succ n ih =>
    cases h : pick (score front) s with
    | none => simp [generate_of_none h]
    | some r =>
      rw [generate_of_some h, List.length_cons]
      exact Nat.succ_le_succ (ih _ _)

/-- Every token is picked from the scores of what stands in front of it. -/
theorem picked_of_generate {n k : ℕ} {front : List T} {s : S} {t : T}
    (h : (generate score pick n front s)[k]? = some t) :
    ∃ s₁ s₂, pick (score (front ++ (generate score pick n front s).take k)) s₁ = some (t, s₂) := by
  induction n generalizing front s k with
  | zero => simp [generate] at h
  | succ n ih =>
    cases hpick : pick (score front) s with
    | none => simp [generate_of_none hpick] at h
    | some r =>
      obtain ⟨first, s'⟩ := r
      rw [generate_of_some hpick] at h ⊢
      cases k with
      | zero =>
        obtain rfl : first = t := by simpa using h
        exact ⟨s, s', by simpa using hpick⟩
      | succ k =>
        obtain ⟨s₁, s₂, hlater⟩ := ih (by simpa using h)
        exact ⟨s₁, s₂, by simpa using hlater⟩

/-- The text ends with its last token or where none is picked. -/
theorem ends_of_generate {n : ℕ} {front : List T} {s : S} (h : (generate score pick n front s).length < n) :
    ∃ s₁, pick (score (front ++ generate score pick n front s)) s₁ = none := by
  induction n generalizing front s with
  | zero => exact absurd h (Nat.not_lt_zero _)
  | succ n ih =>
    cases hpick : pick (score front) s with
    | none => exact ⟨s, by rw [generate_of_none hpick, List.append_nil, hpick]⟩
    | some r =>
      rw [generate_of_some hpick] at h ⊢
      obtain ⟨s₁, hend⟩ := ih (Nat.lt_of_succ_lt_succ h)
      exact ⟨s₁, by simpa using hend⟩

end Generation

end FortAI
