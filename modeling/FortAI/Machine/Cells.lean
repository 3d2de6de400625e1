import Mathlib.Data.List.Basic
import Mathlib.Logic.Function.Basic

/-!
# Loops that write cells

The cells of an array are a function of their index.

* `foldl_update_eq` : a cell that a loop writes, if every turn that writes it has the same value for it.
* `foldl_update_of_ne` : a cell that it does not write.
* `foldlM_guard` : a loop that may only take its turns if a check succeeds.
* `foldlM_some`, `foldlM_none` : a loop all of whose turns succeed, and one with a turn that does not.
* `exists_foldlM` : the invariant rule for a loop whose turns may fail.
* `get`, `set` : cells of an array that is indexed from 1, `none` outside of it.
-/

namespace FortAI

namespace Cells

variable {α ε S : Type*}

section
variable (key : ε → ℕ) (value : ε → α)

/-- The cells behind a loop over `l` that writes one cell in every turn. -/
def writes (l : List ε) (a : ℕ → α) : ℕ → α :=
  l.foldl (fun a e => Function.update a (key e) (value e)) a

variable {key value}

theorem writes_of_ne {l : List ε} {i : ℕ} (h : ∀ e ∈ l, key e ≠ i) (a : ℕ → α) :
    writes key value l a i = a i := by
  induction l generalizing a with
  | nil => rfl
  | cons e l ih =>
    obtain ⟨he, hl⟩ := List.forall_mem_cons.mp h
    exact (ih hl _).trans (Function.update_of_ne he.symm _ a)

theorem writes_eq {l : List ε} {i : ℕ} {x : α} (hmem : ∃ e ∈ l, key e = i)
    (h : ∀ e ∈ l, key e = i → value e = x) (a : ℕ → α) : writes key value l a i = x := by
  induction l generalizing a with
  | nil =>
    obtain ⟨e, he, -⟩ := hmem
    cases he
  | cons e l ih =>
    obtain ⟨he, hl⟩ := List.forall_mem_cons.mp h
    by_cases hrest : ∃ e ∈ l, key e = i
    · exact ih hrest hl _
    · -- the first turn is the last one to write the cell
      obtain ⟨e', he', rfl⟩ := hmem
      rcases List.mem_cons.mp he' with rfl | he'
      · refine (writes_of_ne (fun e he heq => hrest ⟨e, he, heq⟩) _).trans ?_
        show Function.update a (key e') (value e') (key e') = x
        rw [Function.update_self, he rfl]
      · exact absurd ⟨e', he', rfl⟩ hrest

end

/-- A loop whose turns are only taken if a check succeeds that does not depend on the state. -/
theorem foldlM_guard (P : ε → Prop) [DecidablePred P] (turn : S → ε → S) (l : List ε) (s : S) :
    l.foldlM (fun s e => if P e then some (turn s e) else none) s =
      if ∀ e ∈ l, P e then some (l.foldl turn s) else none := by
  induction l generalizing s with
  | nil => simp
  | cons e l ih =>
    rw [List.foldlM_cons]
    by_cases he : P e
    · rw [if_pos he]
      refine (ih (turn s e)).trans ?_
      simp only [List.forall_mem_cons, he, true_and, List.foldl_cons]
    · rw [if_neg he]
      exact (if_neg fun h => he (h e List.mem_cons_self)).symm

theorem foldlM_some {turn : S → ε → Option S} {next : S → ε → S} {l : List ε}
    (h : ∀ e ∈ l, ∀ s, turn s e = some (next s e)) (s : S) : l.foldlM turn s = some (l.foldl next s) := by
  induction l generalizing s with
  | nil => rfl
  | cons e l ih =>
    obtain ⟨he, hl⟩ := List.forall_mem_cons.mp h
    rw [List.foldlM_cons, he s]
    exact ih hl (next s e)

theorem foldlM_none {turn : S → ε → Option S} {l : List ε} {e : ε} (he : e ∈ l) (h : ∀ s, turn s e = none) (s : S) :
    l.foldlM turn s = none := by
  obtain ⟨before, after, rfl⟩ := List.append_of_mem he
  rw [List.foldlM_append]
  cases before.foldlM turn s with
  | none => rfl
  | some s =>
    show (e :: after).foldlM turn s = none
    rw [List.foldlM_cons, h s]
    rfl

/-- What a turn keeps as long as it can be taken, all of them keep, and all of them can be taken. -/
theorem exists_foldlM {P : ℕ → S → Prop} {turn : S → ℕ → Option S} {n : ℕ} {s : S} (hzero : P 0 s)
    (hturn : ∀ i < n, ∀ s, P i s → ∃ s', turn s i = some s' ∧ P (i + 1) s') :
    ∃ s', (List.range n).foldlM turn s = some s' ∧ P n s' := by
  induction n with
  | zero => exact ⟨s, rfl, hzero⟩
  | succ n ih =>
    obtain ⟨middle, hmiddle, hP⟩ := ih fun i hi => hturn i (Nat.lt_succ_of_lt hi)
    obtain ⟨s', hs', hP'⟩ := hturn n n.lt_succ_self middle hP
    refine ⟨s', ?_, hP'⟩
    rw [List.range_succ, List.foldlM_append, hmiddle]
    show [n].foldlM turn middle = some s'
    rw [List.foldlM_cons, hs']
    rfl

/-! ### Bounds -/

def get (size : ℕ) (a : ℕ → α) (i : ℕ) : Option α := if 1 ≤ i ∧ i ≤ size then some (a i) else none

def set (size : ℕ) (a : ℕ → α) (i : ℕ) (x : α) : Option (ℕ → α) :=
  if 1 ≤ i ∧ i ≤ size then some (Function.update a i x) else none

theorem get_eq {size i : ℕ} (hi : 1 ≤ i) (hsize : i ≤ size) (a : ℕ → α) : get size a i = some (a i) :=
  if_pos ⟨hi, hsize⟩

theorem set_eq {size i : ℕ} (hi : 1 ≤ i) (hsize : i ≤ size) (a : ℕ → α) (x : α) :
    set size a i x = some (Function.update a i x) := if_pos ⟨hi, hsize⟩

end Cells

end FortAI
