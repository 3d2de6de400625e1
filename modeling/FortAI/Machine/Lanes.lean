import Mathlib.Algebra.BigOperators.Fin
import Mathlib.Algebra.BigOperators.Intervals
import Mathlib.Logic.Function.Basic
import Mathlib.Tactic.Abel

/-!
# Loops in vector registers

A loop over an array takes a whole number of blocks at a time, in registers of eight lanes, and the rest one
by one.  In exact arithmetic it computes what the plain loop does.  Cells of an array are a function of
their index.

* `strided`, `strided_eq` : such a loop, if a block is worth its turns.
* `reduce_eq` : the sum of all lanes of four registers.
* `mapAvx2_eq`, `mapScalar_eq` : loops that replace every cell.
* `sumAvx2_eq`, `sumScalar_eq` : loops that add up.
* `fusedAvx2_eq`, `fusedScalar_eq` : loops that replace every cell and add up what comes in.
-/

namespace FortAI

namespace Lanes

open Finset

/-- The lanes of a register are numbered with numerals. -/
local instance lanes : NeZero 4 := ⟨by decide⟩

/-! ### Blocks and the rest -/

section

variable {S T : Type*}

/-- `for (; i + w <= count; i += w)`, and `for (; i < count; ++i)` on what the first loop leaves. -/
def strided (w : ℕ) (block : S → ℕ → S) (leave : S → T) (one : T → ℕ → T) (count : ℕ) (s : S) : T :=
  (List.range' (w * (count / w)) (count % w)).foldl one
    (leave ((List.range (count / w)).foldl (fun s k => block s (w * k)) s))

variable {w : ℕ} {block : S → ℕ → S} {leave : S → T} {one : T → ℕ → T}

theorem range_add_range' (m n : ℕ) : List.range (m + n) = List.range m ++ List.range' m n := by
  rw [List.range_add, List.range'_eq_map_range]

/-- If every block is worth its turns, the blocks are worth all of their turns. -/
theorem foldl_blocks (h : ∀ s i, leave (block s i) = (List.range' i w).foldl one (leave s)) (n : ℕ) (s : S) :
    leave ((List.range n).foldl (fun s k => block s (w * k)) s) = (List.range (w * n)).foldl one (leave s) := by
  induction n with
  | zero => rfl
  | succ n ih =>
    rw [List.range_succ, List.foldl_append, List.foldl_cons, List.foldl_nil, h, ih, Nat.mul_succ,
      range_add_range', List.foldl_append]

theorem strided_eq (h : ∀ s i, leave (block s i) = (List.range' i w).foldl one (leave s)) (count : ℕ) (s : S) :
    strided w block leave one count s = (List.range count).foldl one (leave s) := by
  have hcount : w * (count / w) + count % w = count := Nat.div_add_mod count w
  rw [strided, foldl_blocks h, ← List.foldl_append, ← range_add_range', hcount]

/-- A block of four registers of eight is worth 32 turns if every register is worth its eight. -/
theorem foldl_registers {vector : Fin 4 → S → ℕ → S}
    (h : ∀ j s i, leave (vector j s i) = (List.range' i 8).foldl one (leave s)) (s : S) (i : ℕ) :
    leave ([0, 1, 2, 3].foldl (fun s (j : Fin 4) => vector j s (i + 8 * j)) s) =
      (List.range' i 32).foldl one (leave s) := by
  have hparts : List.range' i 32 = List.range' i 8 ++ List.range' (i + 8) 8 ++ List.range' (i + 16) 8 ++
      List.range' (i + 24) 8 := rfl
  rw [hparts, List.foldl_append, List.foldl_append, List.foldl_append]
  simp only [List.foldl_cons, List.foldl_nil, h]
  rfl

end

/-! ### Registers -/

section

variable {R : Type*}

/-- `_mm256_loadu_ps` -/
def loadu (a : ℕ → R) (i : ℕ) : Fin 8 → R := fun k => a (i + k)

/-- `_mm256_storeu_ps` -/
def storeu (v : Fin 8 → R) (i : ℕ) (a : ℕ → R) : ℕ → R := fun x =>
  if h : i ≤ x ∧ x < i + 8 then v ⟨x - i, by omega⟩ else a x

/-- `_mm_hadd_ps` -/
def hadd [Add R] (a b : Fin 4 → R) : Fin 4 → R := ![a 0 + a 1, a 2 + a 3, b 0 + b 1, b 2 + b 3]

/-- The sum of the lanes of four registers, as in `reduce_dot_sums`. -/
def reduce [Add R] (sums : Fin 4 → Fin 8 → R) : R :=
  let sums0 := fun k => sums 0 k + sums 2 k
  let sums1 := fun k => sums 1 k + sums 3 k
  let sums0 := fun k => sums0 k + sums1 k
  let lanes : Fin 4 → R := fun k => sums0 (k.castLE (by decide)) + sums0 (k.natAdd 4)
  let pairs := hadd lanes lanes
  hadd pairs pairs 0

variable [AddCommMonoid R]

theorem reduce_eq (sums : Fin 4 → Fin 8 → R) : reduce sums = ∑ j, ∑ k, sums j k := by
  obtain ⟨column, hcolumn⟩ : ∃ column : Fin 8 → R, column = fun k => sums 0 k + sums 2 k + (sums 1 k + sums 3 k) :=
    ⟨_, rfl⟩
  have hreduce : reduce sums = column 0 + column 4 + (column 1 + column 5) +
      (column 2 + column 6 + (column 3 + column 7)) := by
    rw [hcolumn]
    rfl
  rw [hreduce, sum_comm, Fin.sum_univ_eight, hcolumn]
  simp only [Fin.sum_univ_four]
  abel

end

/-! ### Replacing every cell -/

section

variable {R : Type*} (base : ℕ) (f : ℕ → R → R)

/-- A cell gets its new value. -/
def mapOne (a : ℕ → R) (i : ℕ) : ℕ → R := Function.update a (base + i) (f i (a (base + i)))

/-- Eight cells at once. -/
def mapRegister (a : ℕ → R) (i : ℕ) : ℕ → R :=
  storeu (fun k => f (i + k) (loadu a (base + i) k)) (base + i) a

/-- `for (i = 0; i < count; ++i)` -/
def mapScalar (count : ℕ) (a : ℕ → R) : ℕ → R := (List.range count).foldl (mapOne base f) a

/-- Blocks of one register. -/
def mapEight (count : ℕ) (a : ℕ → R) : ℕ → R := strided 8 (mapRegister base f) id (mapOne base f) count a

/-- Blocks of four registers. -/
def mapAvx2 (count : ℕ) (a : ℕ → R) : ℕ → R :=
  strided 32 (fun a i => [0, 1, 2, 3].foldl (fun a (j : Fin 4) => mapRegister base f a (i + 8 * j)) a) id
    (mapOne base f) count a

/-- The cells of a slice with their new values. -/
def mapped (count : ℕ) (a : ℕ → R) : ℕ → R := fun x =>
  if base ≤ x ∧ x < base + count then f (x - base) (a x) else a x

theorem foldl_mapOne (i n : ℕ) (a : ℕ → R) : (List.range' i n).foldl (mapOne base f) a = fun x =>
    if base + i ≤ x ∧ x < base + i + n then f (x - base) (a x) else a x := by
  induction n with
  | zero =>
    funext x
    exact (if_neg (by omega)).symm
  | succ n ih =>
    rw [List.range'_1_concat, List.foldl_append, ih, List.foldl_cons, List.foldl_nil, mapOne]
    funext x
    by_cases hx : x = base + (i + n)
    · subst hx
      rw [Function.update_self, if_neg (by omega), if_pos (by omega), Nat.add_sub_cancel_left]
    · rw [Function.update_of_ne hx]
      -- the other cells are inside of the longer slice if they are inside of the shorter one
      exact if_congr (by omega) rfl rfl

theorem mapRegister_eq (a : ℕ → R) (i : ℕ) : mapRegister base f a i = (List.range' i 8).foldl (mapOne base f) a := by
  rw [foldl_mapOne]
  funext x
  rw [mapRegister, storeu]
  split_ifs with hx
  · have hindex : i + (x - (base + i)) = x - base := by omega
    have hcell : base + i + (x - (base + i)) = x := by omega
    simp only [loadu, hindex, hcell]
  · rfl

theorem mapScalar_eq (count : ℕ) (a : ℕ → R) : mapScalar base f count a = mapped base f count a := by
  rw [mapScalar, List.range_eq_range', foldl_mapOne]
  rfl

theorem mapEight_eq (count : ℕ) (a : ℕ → R) : mapEight base f count a = mapped base f count a := by
  rw [mapEight, strided_eq (mapRegister_eq base f), ← mapScalar_eq]
  rfl

theorem mapAvx2_eq (count : ℕ) (a : ℕ → R) : mapAvx2 base f count a = mapped base f count a := by
  rw [mapAvx2, strided_eq (foldl_registers fun _ => mapRegister_eq base f), ← mapScalar_eq]
  rfl

theorem mapped_apply {count i : ℕ} (hi : i < count) (a : ℕ → R) :
    mapped base f count a (base + i) = f i (a (base + i)) := by
  rw [mapped, if_pos (by omega), Nat.add_sub_cancel_left]

theorem mapped_of_not_mem {count x : ℕ} (hx : ¬ (base ≤ x ∧ x < base + count)) (a : ℕ → R) :
    mapped base f count a x = a x := if_neg hx

end

/-! ### Adding up -/

section

variable {R : Type*} [AddCommMonoid R] (term : ℕ → R)

def sumOne (sum : R) (i : ℕ) : R := sum + term i

/-- Eight terms are added to the lanes of a register. -/
def sumRegister (j : Fin 4) (sums : Fin 4 → Fin 8 → R) (i : ℕ) : Fin 4 → Fin 8 → R :=
  Function.update sums j fun k => term (i + k) + sums j k

def sumScalar (count : ℕ) : R := (List.range count).foldl (sumOne term) 0

def sumAvx2 (count : ℕ) : R :=
  strided 32 (fun sums i => [0, 1, 2, 3].foldl (fun sums (j : Fin 4) => sumRegister term j sums (i + 8 * j)) sums)
    reduce (sumOne term) count fun _ _ => 0

theorem foldl_sumOne (i n : ℕ) (sum : R) :
    (List.range' i n).foldl (sumOne term) sum = sum + ∑ k ∈ range n, term (i + k) := by
  induction n with
  | zero => exact (add_zero sum).symm
  | succ n ih =>
    rw [List.range'_1_concat, List.foldl_append, ih, List.foldl_cons, List.foldl_nil, sumOne, sum_range_succ, add_assoc]

theorem sumRegister_eq (j : Fin 4) (sums : Fin 4 → Fin 8 → R) (i : ℕ) :
    reduce (sumRegister term j sums i) = (List.range' i 8).foldl (sumOne term) (reduce sums) := by
  have hrow (j' : Fin 4) : ∑ k, sumRegister term j sums i j' k =
      ∑ k, sums j' k + if j' = j then ∑ k ∈ range 8, term (i + k) else 0 := by
    rw [sumRegister]
    by_cases hj : j' = j
    · subst hj
      rw [Function.update_self, if_pos rfl, sum_add_distrib, add_comm, sum_range]
    · rw [Function.update_of_ne hj, if_neg hj, add_zero]
  rw [reduce_eq, foldl_sumOne, reduce_eq]
  simp only [hrow, sum_add_distrib, sum_ite_eq', mem_univ, if_true]

theorem sumScalar_eq (count : ℕ) : sumScalar term count = ∑ i ∈ range count, term i := by
  rw [sumScalar, List.range_eq_range', foldl_sumOne, zero_add]
  simp only [Nat.zero_add]

theorem sumAvx2_eq (count : ℕ) : sumAvx2 term count = ∑ i ∈ range count, term i := by
  have hzero : reduce (fun _ _ => (0 : R)) = 0 := by simp only [reduce_eq, sum_const_zero]
  rw [sumAvx2, strided_eq (foldl_registers fun j => sumRegister_eq term j), hzero, ← sumScalar_eq]
  rfl

end

/-! ### Both at once -/

section

variable {R : Type*} [AddCommMonoid R] (base : ℕ) (f term : ℕ → R → R)

/-- A cell gets its new value, which contributes to a sum. -/
def fusedOne (s : (ℕ → R) × R) (i : ℕ) : (ℕ → R) × R :=
  let v := f i (s.1 (base + i))
  (Function.update s.1 (base + i) v, s.2 + term i v)

/-- Eight cells at once. -/
def fusedRegister (j : Fin 4) (s : (ℕ → R) × (Fin 4 → Fin 8 → R)) (i : ℕ) : (ℕ → R) × (Fin 4 → Fin 8 → R) :=
  let v : Fin 8 → R := fun k => f (i + k) (loadu s.1 (base + i) k)
  (storeu v (base + i) s.1, Function.update s.2 j fun k => term (i + k) (v k) + s.2 j k)

def fusedScalar (count : ℕ) (a : ℕ → R) : (ℕ → R) × R := (List.range count).foldl (fusedOne base f term) (a, 0)

def fusedAvx2 (count : ℕ) (a : ℕ → R) : (ℕ → R) × R :=
  strided 32 (fun s i => [0, 1, 2, 3].foldl (fun s (j : Fin 4) => fusedRegister base f term j s (i + 8 * j)) s)
    (fun s => (s.1, reduce s.2)) (fusedOne base f term) count (a, fun _ _ => 0)

/-- No turn changes a cell that another turn reads. -/
theorem foldl_fusedOne (i n : ℕ) (a : ℕ → R) (sum : R) :
    (List.range' i n).foldl (fusedOne base f term) (a, sum) =
      ((List.range' i n).foldl (mapOne base f) a,
        (List.range' i n).foldl (sumOne fun c => term c (f c (a (base + c)))) sum) := by
  induction n with
  | zero => rfl
  | succ n ih =>
    have hcell : (List.range' i n).foldl (mapOne base f) a (base + (i + n)) = a (base + (i + n)) := by
      rw [foldl_mapOne]
      exact if_neg (by omega)
    simp only [List.range'_1_concat, List.foldl_append, ih, List.foldl_cons, List.foldl_nil, fusedOne, mapOne, sumOne,
      hcell]

theorem fusedRegister_eq (j : Fin 4) (s : (ℕ → R) × (Fin 4 → Fin 8 → R)) (i : ℕ) :
    ((fusedRegister base f term j s i).1, reduce (fusedRegister base f term j s i).2) =
      (List.range' i 8).foldl (fusedOne base f term) (s.1, reduce s.2) := by
  rw [foldl_fusedOne, ← mapRegister_eq, ← sumRegister_eq _ j]
  simp only [fusedRegister, mapRegister, sumRegister, loadu, Nat.add_assoc]

theorem fusedScalar_eq (count : ℕ) (a : ℕ → R) : fusedScalar base f term count a =
    (mapped base f count a, ∑ i ∈ range count, term i (f i (a (base + i)))) := by
  rw [fusedScalar, List.range_eq_range', foldl_fusedOne, ← List.range_eq_range', ← mapScalar_eq, ← sumScalar_eq]
  rfl

theorem fusedAvx2_eq (count : ℕ) (a : ℕ → R) : fusedAvx2 base f term count a = fusedScalar base f term count a := by
  have hzero : reduce (fun _ _ => (0 : R)) = 0 := by simp only [reduce_eq, sum_const_zero]
  rw [fusedAvx2, strided_eq (foldl_registers fun j => fusedRegister_eq base f term j), hzero]
  rfl

end

end Lanes

end FortAI
