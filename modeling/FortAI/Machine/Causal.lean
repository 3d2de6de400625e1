import FortAI.Machine.Cascade
import Mathlib.Logic.Function.Basic

/-!
# Causal stages

A stage keeps something of every row at its position, and sees what was kept up to there.  A batch can
keep everything first.

* `fill` : what a batch keeps.
* `run_causal` : the rows one after the other, or all of them kept first.
-/

namespace FortAI

namespace Stage

variable {X K : Type}

/-- Rows with their positions. -/
def causal (keep : X → K) (out : X → List K → X) : Stage (ℕ → K) (X × ℕ) := fun kept r =>
  let kept := Function.update kept r.2 (keep r.1)
  (kept, (out r.1 ((List.range (r.2 + 1)).map kept), r.2))

/-- The positions from one on have these. -/
def fill (kept : ℕ → K) (position : ℕ) (ks : List K) : ℕ → K := fun p =>
  if position ≤ p then (ks[p - position]?).getD (kept p) else kept p

@[simp] theorem fill_nil (kept : ℕ → K) (position : ℕ) : fill kept position [] = kept := by
  funext p
  simp [fill]

theorem fill_cons (kept : ℕ → K) (position : ℕ) (k : K) (ks : List K) :
    fill kept position (k :: ks) = fill (Function.update kept position k) (position + 1) ks := by
  funext p
  rcases Nat.lt_trichotomy p position with h | rfl | h
  · simp [fill, Nat.not_le_of_lt h, Nat.not_le_of_lt (Nat.lt_succ_of_lt h), Nat.ne_of_lt h]
  · have hbehind : ¬ p + 1 ≤ p := p.lt_irrefl
    simp only [fill, Nat.le_refl, if_true, if_neg hbehind, Nat.sub_self, List.getElem?_cons_zero, Option.getD_some,
      Function.update_self]
  · have hsub : p - position = p - (position + 1) + 1 := by omega
    simp [fill, Nat.le_of_lt h, Nat.succ_le_of_lt h, hsub, Nat.ne_of_gt h]

theorem fill_of_lt (kept : ℕ → K) {position p : ℕ} (h : p < position) (ks : List K) :
    fill kept position ks p = kept p := if_neg (Nat.not_le_of_lt h)

/-- **One after the other, or all kept first.** -/
theorem run_causal (keep : X → K) (out : X → List K → X) (kept : ℕ → K) (xs : List X) (position : ℕ) :
    (causal keep out).run kept (xs.zipIdx position) = (fill kept position (xs.map keep),
      (xs.zipIdx position).map fun r =>
        (out r.1 ((List.range (r.2 + 1)).map (fill kept position (xs.map keep))), r.2)) := by
  induction xs generalizing kept position with
  | nil => simp
  | cons x xs ih =>
    -- what follows is kept behind what the first row sees
    have hseen : (List.range (position + 1)).map (Function.update kept position (keep x)) =
        (List.range (position + 1)).map
          (fill (Function.update kept position (keep x)) (position + 1) (xs.map keep)) :=
      List.map_congr_left fun p hp => (fill_of_lt _ (List.mem_range.mp hp) _).symm
    simp only [List.zipIdx_cons, run_cons, List.map_cons, fill_cons, causal, hseen]
    exact congrArg (fun r => (r.1, _ :: r.2)) (ih _ (position + 1))

end Stage

end FortAI
