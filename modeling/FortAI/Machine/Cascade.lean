import Mathlib.Data.List.Basic

/-!
# Cascades

A stage has a state and turns one row into another.  A cascade passes a row through several stages.

* `Stage.run` : the rows of a batch, one after the other.
* `Stage.cascade` : one row, or one batch, through all stages.
* `cascade_run` : a batch that passes stage by stage ends as its rows do that pass one by one.
-/

namespace FortAI

/-- A stage with a state `σ`, on rows `α`. -/
abbrev Stage (σ α : Type) := σ → α → σ × α

namespace Stage

variable {σ α β : Type}

/-- The rows of a batch, one after the other. -/
def run (f : Stage σ α) : σ → List α → σ × List α
  | s, [] => (s, [])
  | s, x :: xs => ((run f (f s x).1 xs).1, (f s x).2 :: (run f (f s x).1 xs).2)

/-- Through all stages; without a state for each of them the rest is left out. -/
def cascade : List (Stage σ α) → Stage (List σ) α
  | f :: fs, s :: ss, x => ((f s x).1 :: (cascade fs ss (f s x).2).1, (cascade fs ss (f s x).2).2)
  | _, ss, x => (ss, x)

variable (f : Stage σ α) (s : σ) (xs ys : List α)

@[simp] theorem run_nil : f.run s [] = (s, []) := rfl

@[simp] theorem run_cons (x : α) :
    f.run s (x :: xs) = ((f.run (f s x).1 xs).1, (f s x).2 :: (f.run (f s x).1 xs).2) := rfl

@[simp] theorem length_run : (f.run s xs).2.length = xs.length := by
  induction xs generalizing s with
  | nil => rfl
  | cons x xs ih => rw [run_cons, List.length_cons, ih, List.length_cons]

/-- Two batches in a row. -/
theorem run_append : f.run s (xs ++ ys) =
    ((f.run (f.run s xs).1 ys).1, (f.run s xs).2 ++ (f.run (f.run s xs).1 ys).2) := by
  induction xs generalizing s with
  | nil => rfl
  | cons x xs ih => simp only [List.cons_append, run_cons, ih]

/-- The rows that come out first do not depend on those that follow. -/
theorem run_take (k : ℕ) : (f.run s (xs.take k)).2 = (f.run s xs).2.take k := by
  induction xs generalizing s k with
  | nil => simp
  | cons x xs ih =>
    cases k with
    | zero => rfl
    | succ k => simp only [List.take_succ_cons, run_cons, ih]

variable (fs : List (Stage σ α)) (ss : List σ)

@[simp] theorem cascade_nil (x : α) : cascade [] ss x = (ss, x) := rfl

@[simp] theorem cascade_cons (x : α) : cascade (f :: fs) (s :: ss) x =
    ((f s x).1 :: (cascade fs ss (f s x).2).1, (cascade fs ss (f s x).2).2) := rfl

@[simp] theorem cascade_nil_right (x : α) : cascade fs [] x = ([], x) := by
  cases fs <;> rfl

/-- A stage that passes rows on in this state. -/
theorem run_of_forall_eq (h : ∀ x, f s x = (s, x)) : f.run s xs = (s, xs) := by
  induction xs with
  | nil => rfl
  | cons x xs ih => simp only [run_cons, h, ih]

/-- The first stage gets the batch, the others what it returns. -/
theorem run_cascade_cons : (cascade (f :: fs)).run (s :: ss) xs =
    ((f.run s xs).1 :: ((cascade fs).run ss (f.run s xs).2).1, ((cascade fs).run ss (f.run s xs).2).2) := by
  induction xs generalizing s ss with
  | nil => rfl
  | cons x xs ih => simp only [run_cons, cascade_cons, ih]

/-- **Stage by stage, or row by row.** -/
theorem cascade_run : cascade (fs.map run) ss xs = (cascade fs).run ss xs := by
  induction fs generalizing ss xs with
  | nil => exact (run_of_forall_eq _ _ _ fun _ => rfl).symm
  | cons f fs ih =>
    cases ss with
    | nil =>
      rw [cascade_nil_right, run_of_forall_eq]
      exact cascade_nil_right _
    | cons s ss => rw [List.map_cons, cascade_cons, ih, run_cascade_cons]

end Stage

end FortAI
