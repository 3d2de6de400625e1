import FortAI.Machine.Heap
import FortAI.Machine.Selection
import FortAI.Service.Deterministic
import Mathlib.Data.List.Nodup
import Mathlib.Data.Prod.Lex

/-!
# The best candidates

`top_candidates` keeps `k` candidates in a heap whose root is the first to go, and sorts them at the end.
The heap is ordered by value and then by index: of equal values it gives up the smallest index first,
which `comes_before` would keep.

* `isHeap_siftDown`, `sortDescending_sorted` : the heaps, for any order.
* `selects_foldl` : what the loop over the other values leaves in the heap.
* `topCandidates_eq_iff` : when the candidates are the first ones in the order `comes_before`.
-/

namespace FortAI

open Arithmetic Heap Selection

variable {R D : Type} [Arithmetic R D] {before : Candidate R → Candidate R → Bool} {heap : List (Candidate R)}
  {item : Candidate R} {count root parent child i j : ℕ}

/-! ### Positions -/

theorem candidateAt_eq (hi : 1 ≤ i) (hle : i ≤ heap.length) :
    candidateAt heap i = heap.get ⟨i - 1, by omega⟩ := by
  have hlt : i - 1 < heap.length := by omega
  rw [candidateAt, List.getD_eq_getElem?_getD, List.getElem?_eq_getElem hlt, Option.getD_some,
    List.get_eq_getElem]

theorem candidateAt_mem (hi : 1 ≤ i) (hle : i ≤ heap.length) : candidateAt heap i ∈ heap := by
  rw [candidateAt_eq hi hle]
  exact List.get_mem ..

theorem candidateAt_set (hparent : 1 ≤ parent) (hle : parent ≤ heap.length) (item : Candidate R) (hi : 1 ≤ i) :
    candidateAt (heap.set (parent - 1) item) i = if i = parent then item else candidateAt heap i := by
  rw [candidateAt, candidateAt, List.getD_eq_getElem?_getD, List.getD_eq_getElem?_getD]
  by_cases h : i = parent
  · rw [if_pos h, h, List.getElem?_set_self (by omega), Option.getD_some]
  · rw [if_neg h, List.getElem?_set_ne (by omega)]

/-- The child that is compared with the element on its way down. -/
def pick (before : Candidate R → Candidate R → Bool) (count : ℕ) (heap : List (Candidate R)) (parent : ℕ) : ℕ :=
  if 2 * parent + 1 ≤ count && before (candidateAt heap (2 * parent + 1)) (candidateAt heap (2 * parent))
  then 2 * parent + 1 else 2 * parent

theorem siftDown_succ (before : Candidate R → Candidate R → Bool) (count : ℕ) (item : Candidate R) (fuel : ℕ)
    (heap : List (Candidate R)) (parent : ℕ) : siftDown before count item (fuel + 1) heap parent =
      if 2 * parent > count then heap.set (parent - 1) item
      else if !before (candidateAt heap (pick before count heap parent)) item then heap.set (parent - 1) item
      else siftDown before count item fuel
        (heap.set (parent - 1) (candidateAt heap (pick before count heap parent)))
        (pick before count heap parent) := rfl

theorem pick_mem (h : ¬ 2 * parent > count) :
    pick before count heap parent / 2 = parent ∧ pick before count heap parent ≤ count ∧
      2 * parent ≤ pick before count heap parent := by
  rw [pick]
  split_ifs with hboth
  · rw [Bool.and_eq_true, decide_eq_true_eq] at hboth
    omega
  · omega

/-! ### Sifting -/

/-- An element that goes down changes places with others. -/
theorem siftDown_perm (fuel : ℕ) (hparent : 1 ≤ parent) (hcount : count ≤ heap.length) (hle : parent ≤ count) :
    (siftDown before count item fuel heap parent).Perm (heap.set (parent - 1) item) := by
  induction fuel generalizing heap parent with
  | zero => exact List.Perm.refl _
  | succ fuel ih =>
    rw [siftDown_succ]
    split_ifs with hleaf hstop
    · exact List.Perm.refl _
    · exact List.Perm.refl _
    · obtain ⟨-, hchild, hdouble⟩ := @pick_mem R D _ before heap count parent hleaf
      obtain ⟨child, hpick⟩ : ∃ child, child = pick before count heap parent := ⟨_, rfl⟩
      rw [← hpick] at hchild hdouble ⊢
      refine (ih (by omega) (by rw [List.length_set]; exact hcount) hchild).trans ?_
      -- the two positions are swapped behind the element's place in the first one
      have hswap := @List.set_set_perm _ (heap.set (parent - 1) item) (parent - 1) (child - 1)
        (by rw [List.length_set]; omega) (by rw [List.length_set]; omega)
      rw [List.getElem_set_self, List.getElem_set_ne (by omega), List.set_set] at hswap
      rw [candidateAt_eq (by omega) (by omega)]
      exact hswap

/-- The positions behind the heap keep what they have. -/
theorem candidateAt_siftDown_of_lt (fuel : ℕ) (hparent : 1 ≤ parent) (hcount : count ≤ heap.length)
    (hle : parent ≤ count) (hi : count < i) :
    candidateAt (siftDown before count item fuel heap parent) i = candidateAt heap i := by
  have hset (x : Candidate R) : candidateAt (heap.set (parent - 1) x) i = candidateAt heap i := by
    rw [candidateAt_set hparent (hle.trans hcount) x (by omega), if_neg (by omega)]
  induction fuel generalizing heap parent with
  | zero => exact hset item
  | succ fuel ih =>
    rw [siftDown_succ]
    split_ifs with hleaf hstop
    · exact hset item
    · exact hset item
    · obtain ⟨-, hchild, hdouble⟩ := @pick_mem R D _ before heap count parent hleaf
      have hlength : count ≤ (heap.set (parent - 1) (candidateAt heap (pick before count heap parent))).length := by
        rw [List.length_set]
        exact hcount
      rw [ih (by omega) hlength hchild fun x => ?_, hset]
      rw [candidateAt_set (by omega) (hchild.trans hlength) x (by omega), if_neg (by omega)]

/-- The positions of the heap have what they had, or the element. -/
theorem candidateAt_siftDown_cases (fuel : ℕ) {P : Candidate R → Prop} (hparent : 1 ≤ parent)
    (hcount : count ≤ heap.length) (hle : parent ≤ count)
    (hheap : ∀ i, 1 ≤ i → i ≤ count → i ≠ parent → P (candidateAt heap i)) (hitem : P item) (hi : 1 ≤ i)
    (hicount : i ≤ count) : P (candidateAt (siftDown before count item fuel heap parent) i) := by
  have hset : P (candidateAt (heap.set (parent - 1) item) i) := by
    rw [candidateAt_set hparent (hle.trans hcount) item hi]
    split_ifs with h
    · exact hitem
    · exact hheap i hi hicount h
  induction fuel generalizing heap parent with
  | zero => exact hset
  | succ fuel ih =>
    rw [siftDown_succ]
    split_ifs with hleaf hstop
    · exact hset
    · exact hset
    · obtain ⟨-, hchild, hdouble⟩ := @pick_mem R D _ before heap count parent hleaf
      obtain ⟨child, hpick⟩ : ∃ child, child = pick before count heap parent := ⟨_, rfl⟩
      rw [← hpick] at hchild hdouble ⊢
      have hlength : count ≤ (heap.set (parent - 1) (candidateAt heap child)).length := by
        rw [List.length_set]
        exact hcount
      have hmoved (j : ℕ) (hj : 1 ≤ j) (hjcount : j ≤ count) (hne : j ≠ child) :
          P (candidateAt (heap.set (parent - 1) (candidateAt heap child)) j) := by
        rw [candidateAt_set hparent (hle.trans hcount) _ hj]
        split_ifs with h
        · exact hheap child (by omega) hchild (by omega)
        · exact hheap j hj hjcount h
      refine ih (by omega) hlength hchild hmoved ?_
      rw [candidateAt_set (by omega) (hchild.trans hlength) item hi]
      split_ifs with h
      · exact hitem
      · exact hmoved i hi hicount h

/-! ### Orders -/

section
variable {β : Type*} {rank : Candidate R → β}

/-- The ranks in the positions of a list. -/
def ranksAt (rank : Candidate R → β) (heap : List (Candidate R)) (i : ℕ) : β := rank (candidateAt heap i)

theorem filled_set (rank : Candidate R → β) (hparent : 1 ≤ parent) (hle : parent ≤ heap.length)
    (item : Candidate R) : Filled (ranksAt rank heap) parent (rank item) (ranksAt rank (heap.set (parent - 1) item)) := by
  intro i hi
  rw [ranksAt, candidateAt_set hparent hle item hi, ranksAt]
  split_ifs <;> rfl

variable [LinearOrder β]

/-- The comparison goes by the ranks of these candidates. -/
def Ranks (before : Candidate R → Candidate R → Bool) (rank : Candidate R → β) (l : List (Candidate R)) : Prop :=
  ∀ c ∈ l, ∀ d ∈ l, before c d = true ↔ rank c < rank d

theorem Ranks.mono {l m : List (Candidate R)} (h : Ranks before rank l) (hsubset : ∀ c ∈ m, c ∈ l) :
    Ranks before rank m := fun c hc d hd => h c (hsubset c hc) d (hsubset d hd)

/-- The child that is compared is a smallest one. -/
theorem pick_min (hranks : Ranks before rank heap) (hcount : count ≤ heap.length) (hparent : 1 ≤ parent)
    (hi : i ≤ count) (hchild : i / 2 = parent) :
    ranksAt rank heap (pick before count heap parent) ≤ ranksAt rank heap i := by
  have hmem (j : ℕ) (hj : 1 ≤ j) (hjcount : j ≤ count) : candidateAt heap j ∈ heap :=
    candidateAt_mem hj (hjcount.trans hcount)
  have hcases : i = 2 * parent ∨ i = 2 * parent + 1 := by omega
  rw [pick]
  split_ifs with hboth
  · rw [Bool.and_eq_true, decide_eq_true_eq] at hboth
    have hlt := (hranks _ (hmem _ (by omega) hboth.1) _ (hmem _ (by omega) (by omega))).mp hboth.2
    rcases hcases with rfl | rfl
    · exact hlt.le
    · exact le_rfl
  · rcases hcases with rfl | rfl
    · exact le_rfl
    · rw [Bool.and_eq_true, decide_eq_true_eq, not_and] at hboth
      have hnot := hboth hi
      rw [hranks _ (hmem _ (by omega) hi) _ (hmem _ (by omega) (by omega))] at hnot
      exact not_lt.mp hnot

/-- An element that goes down from a hole leaves a heap. -/
theorem isHeap_siftDown (fuel : ℕ) (hranks : Ranks before rank (item :: heap)) (hcount : count ≤ heap.length)
    (hparent : 1 ≤ parent) (hle : parent ≤ count) (hroot : root ≤ parent)
    (hfuel : count < parent * 2 ^ (fuel + 1)) (h : Hole root count (rank item) (ranksAt rank heap) parent) :
    IsHeap root count (ranksAt rank (siftDown before count item fuel heap parent)) := by
  have hfill := filled_set rank hparent (hle.trans hcount)
  induction fuel generalizing heap parent with
  | zero =>
    refine h.fill hparent (fun i hi hchild => ?_) (hfill item)
    rw [Nat.zero_add, Nat.pow_one] at hfuel
    omega
  | succ fuel ih =>
    rw [siftDown_succ]
    split_ifs with hleaf hstop
    · exact h.fill hparent (fun i hi hchild => absurd hchild (by omega)) (hfill item)
    · obtain ⟨-, hchild, hdouble⟩ := @pick_mem R D _ before heap count parent hleaf
      have hmem : candidateAt heap (pick before count heap parent) ∈ heap :=
        candidateAt_mem (by omega) (by omega)
      rw [Bool.not_eq_true', ← Bool.not_eq_true,
        hranks _ (List.mem_cons_of_mem item hmem) _ List.mem_cons_self, not_lt] at hstop
      refine h.fill hparent (fun i hi hchild' => hstop.trans ?_) (hfill item)
      exact pick_min (hranks.mono fun c => List.mem_cons_of_mem item) hcount hparent hi hchild'
    · obtain ⟨hhalf, hchild, hdouble⟩ := @pick_mem R D _ before heap count parent hleaf
      have hmem : candidateAt heap (pick before count heap parent) ∈ heap :=
        candidateAt_mem (by omega) (by omega)
      have hmin (i : ℕ) (hi : i ≤ count) (hchild' : i / 2 = parent) :=
        pick_min (hranks.mono fun c => List.mem_cons_of_mem item) hcount hparent hi hchild'
      rw [Bool.not_eq_true', Bool.not_eq_false,
        hranks _ (List.mem_cons_of_mem item hmem) _ List.mem_cons_self] at hstop
      have hhole := h.down hroot hparent hhalf hchild hstop.le hmin (hfill _)
      generalize pick before count heap parent = child at *
      have hlength : count ≤ (heap.set (parent - 1) (candidateAt heap child)).length := by
        rw [List.length_set]
        exact hcount
      have hranks' : Ranks before rank (item :: heap.set (parent - 1) (candidateAt heap child)) := by
        refine hranks.mono fun c hc => ?_
        rcases List.mem_cons.mp hc with rfl | hc
        · exact List.mem_cons_self
        · rcases List.mem_or_eq_of_mem_set hc with hc | rfl
          · exact List.mem_cons_of_mem item hc
          · exact List.mem_cons_of_mem item hmem
      have hnext : count < child * 2 ^ (fuel + 1) := by
        rw [Nat.pow_succ'] at hfuel
        calc count < parent * (2 * 2 ^ (fuel + 1)) := hfuel
          _ = 2 * parent * 2 ^ (fuel + 1) := by rw [← Nat.mul_assoc, Nat.mul_comm parent 2]
          _ ≤ child * 2 ^ (fuel + 1) := Nat.mul_le_mul_right _ hdouble
      exact ih hranks' hlength (by omega) hchild (by omega) hnext hhole
        (filled_set rank (by omega) (hchild.trans hlength))

/-- The element at the root goes down. -/
theorem siftDown_root (hranks : Ranks before rank heap) (hcount : count ≤ heap.length) (hroot : 1 ≤ root)
    (hle : root ≤ count) (h : IsHeap (root + 1) count (ranksAt rank heap)) :
    IsHeap root count
      (ranksAt rank (siftDown before count (candidateAt heap root) count heap root)) := by
  have hmem : candidateAt heap root ∈ heap := candidateAt_mem hroot (hle.trans hcount)
  refine isHeap_siftDown count (hranks.mono fun c hc => ?_) hcount hroot hle le_rfl ?_ (h.hole hroot _)
  · rcases List.mem_cons.mp hc with rfl | hc
    · exact hmem
    · exact hc
  · calc count < 2 ^ (count + 1) := Nat.lt_trans (Nat.lt_succ_self count) Nat.lt_two_pow_self
      _ ≤ root * 2 ^ (count + 1) := Nat.le_mul_of_pos_left _ hroot

theorem siftDown_root_perm (before : Candidate R → Candidate R → Bool) (hcount : count ≤ heap.length)
    (hroot : 1 ≤ root) (hle : root ≤ count) :
    (siftDown before count (candidateAt heap root) count heap root).Perm heap := by
  refine (siftDown_perm count hroot hcount hle).trans ?_
  rw [candidateAt_eq hroot (hle.trans hcount), List.get_eq_getElem, List.set_getElem_self]

/-- The loop that makes a heap, from the last position with a child to the first. -/
theorem isHeap_build {n : ℕ} (hranks : Ranks before rank heap) (hcount : count ≤ heap.length) (hn : n ≤ count)
    (h : IsHeap (n + 1) count (ranksAt rank heap)) :
    let built := (List.range' 1 n).reverse.foldl
      (fun heap i => siftDown before count (candidateAt heap i) count heap i) heap
    IsHeap 1 count (ranksAt rank built) ∧ built.Perm heap := by
  induction n generalizing heap with
  | zero => exact ⟨h, List.Perm.refl heap⟩
  | succ n ih =>
    intro built
    obtain ⟨next, hnext⟩ : ∃ next, next = siftDown before count (candidateAt heap (n + 1)) count heap (n + 1) :=
      ⟨_, rfl⟩
    have hperm : next.Perm heap := hnext ▸ siftDown_root_perm before hcount (Nat.le_add_left 1 n) hn
    have hbuilt : built = (List.range' 1 n).reverse.foldl
        (fun heap i => siftDown before count (candidateAt heap i) count heap i) next := by
      show List.foldl _ _ _ = _
      rw [List.range'_1_concat, List.reverse_append, List.reverse_singleton, List.singleton_append,
        List.foldl_cons, Nat.add_comm 1 n, hnext]
    rw [hbuilt]
    have hheap := siftDown_root hranks hcount (Nat.le_add_left 1 n) hn h
    rw [← hnext] at hheap
    obtain ⟨hone, hperm'⟩ := ih (hranks.mono fun c hc => hperm.mem_iff.mp hc)
      (by rw [hperm.length_eq]; exact hcount) (by omega) hheap
    exact ⟨hone, hperm'.trans hperm⟩

/-! ### Sorting -/

/-- The positions behind `m` have been taken from the heap, the first ones last. -/
def Extracted (rank : Candidate R → β) (m : ℕ) (heap : List (Candidate R)) : Prop :=
  ∀ i j, 1 ≤ i → i < j → j ≤ heap.length → m < j → ranksAt rank heap j ≤ ranksAt rank heap i

/-- The root changes places with the last element of the heap and goes down there. -/
theorem extractLast_step {m : ℕ} (hranks : Ranks comesBefore rank heap) (hm : 1 ≤ m) (hlength : m + 1 ≤ heap.length)
    (h : IsHeap 1 (m + 1) (ranksAt rank heap)) (hextracted : Extracted rank (m + 1) heap) :
    IsHeap 1 m (ranksAt rank (extractLast heap (m + 1))) ∧ Extracted rank m (extractLast heap (m + 1)) ∧
      (extractLast heap (m + 1)).Perm heap := by
  obtain ⟨swapped, hswapped⟩ : ∃ swapped, swapped =
      (heap.set (1 - 1) (candidateAt heap (m + 1))).set (m + 1 - 1) (candidateAt heap 1) := ⟨_, rfl⟩
  have hextract : extractLast heap (m + 1) = siftDown comesBefore m (candidateAt swapped 1) m swapped 1 := by
    rw [hswapped]
    rfl
  have hsame : swapped.length = heap.length := by
    rw [hswapped, List.length_set, List.length_set]
  have hat (i : ℕ) (hi : 1 ≤ i) : candidateAt swapped i =
      if i = m + 1 then candidateAt heap 1 else if i = 1 then candidateAt heap (m + 1) else candidateAt heap i := by
    rw [hswapped, candidateAt_set (by omega) (by rw [List.length_set]; exact hlength) _ hi,
      candidateAt_set le_rfl (by omega) _ hi]
  have hperm : swapped.Perm heap := by
    have hone : candidateAt heap 1 = heap[0] := candidateAt_eq le_rfl (by omega)
    have hlast : candidateAt heap (m + 1) = heap[m] := candidateAt_eq (by omega) hlength
    rw [hswapped, hone, hlast]
    exact List.set_set_perm (by omega) (by omega)
  have hheap : IsHeap (1 + 1) m (ranksAt rank swapped) := by
    refine (h.mono (Nat.le_add_left 1 1) (Nat.le_succ m)).congr fun i hi hle => ?_
    rw [ranksAt, hat i (by omega), if_neg (by omega), if_neg (by omega), ranksAt]
  have hranks' : Ranks comesBefore rank swapped := hranks.mono fun c hc => hperm.mem_iff.mp hc
  rw [hextract]
  refine ⟨siftDown_root hranks' (by omega) le_rfl hm hheap, fun i j hi hij hj hlt => ?_,
    (siftDown_root_perm _ (by omega) le_rfl hm).trans hperm⟩
  rw [siftDown_length, hsame] at hj
  rw [ranksAt, candidateAt_siftDown_of_lt m le_rfl (by omega) hm (by omega), hat j (by omega),
    if_neg (by omega : j ≠ 1)]
  -- what is at `j` is not larger than anything in the heap nor than what stands between
  have hsmall (l : ℕ) (hl : 1 ≤ l) (hlj : l < j ∨ l ≤ m + 1) :
      rank (if j = m + 1 then candidateAt heap 1 else candidateAt heap j) ≤ rank (candidateAt heap l) := by
    split_ifs with hlast
    · exact h.root_le hl (by omega)
    · exact hextracted l j hl (by omega) hj (by omega)
  generalize rank (if j = m + 1 then candidateAt heap 1 else candidateAt heap j) = x at hsmall ⊢
  have hswap (l : ℕ) (hl : 1 ≤ l) (hlj : l < j) : x ≤ rank (candidateAt swapped l) := by
    rw [hat l hl]
    split_ifs with hlast hone
    · exact hsmall 1 le_rfl (.inl (by omega))
    · exact hsmall (m + 1) (by omega) (.inr le_rfl)
    · exact hsmall l hl (.inl hlj)
  rcases Nat.lt_or_ge m i with hbehind | hinside
  · rw [ranksAt, candidateAt_siftDown_of_lt m le_rfl (by omega) hm hbehind]
    exact hswap i hi hij
  · exact candidateAt_siftDown_cases m (P := fun c => x ≤ rank c) le_rfl (by omega) hm (fun l hl hle _ => hswap l hl (by omega))
      (hswap 1 le_rfl (by omega)) hi hinside

/-- The loop that takes the heap apart, down to the second position. -/
theorem extract_all {n : ℕ} (hranks : Ranks comesBefore rank heap) (hn : n + 1 ≤ heap.length)
    (h : IsHeap 1 (n + 1) (ranksAt rank heap)) (hextracted : Extracted rank (n + 1) heap) :
    let result := (List.range' 2 n).reverse.foldl extractLast heap
    Extracted rank 1 result ∧ result.Perm heap := by
  induction n generalizing heap with
  | zero => exact ⟨hextracted, List.Perm.refl heap⟩
  | succ n ih =>
    intro result
    obtain ⟨hheap, hnext, hperm⟩ := extractLast_step hranks (Nat.le_add_left 1 n) hn h hextracted
    have hresult : result = (List.range' 2 n).reverse.foldl extractLast (extractLast heap (n + 1 + 1)) := by
      show List.foldl _ _ _ = _
      rw [List.range'_concat, List.reverse_append, List.reverse_singleton, List.singleton_append,
        List.foldl_cons, Nat.one_mul, Nat.add_comm 2 n]
    rw [hresult]
    obtain ⟨hone, hperm'⟩ := ih (hranks.mono fun c hc => hperm.mem_iff.mp hc)
      (by rw [hperm.length_eq]; omega) hheap hnext
    exact ⟨hone, hperm'.trans hperm⟩

/-- `sort_descending` puts the first ones in front. -/
theorem sortDescending_sorted (hranks : Ranks comesBefore rank heap) :
    ((sortDescending heap heap.length).Pairwise fun c d => rank c ≤ rank d) ∧
      (sortDescending heap heap.length).Perm heap := by
  obtain ⟨hheap, hbuilt⟩ := isHeap_build (n := heap.length / 2) hranks le_rfl (Nat.div_le_self _ 2)
    (isHeap_of_lt _ (by omega))
  rcases Nat.eq_zero_or_pos heap.length with hzero | hpos
  · have hempty : sortDescending heap heap.length = [] :=
      List.length_eq_zero_iff.mp ((sortDescending_length heap heap.length).trans hzero)
    rw [hempty]
    exact ⟨List.Pairwise.nil, by rw [List.length_eq_zero_iff.mp hzero]⟩
  obtain ⟨built, hdef⟩ : ∃ built, built = (List.range' 1 (heap.length / 2)).reverse.foldl
      (fun h i => siftDown comesBefore heap.length (candidateAt h i) heap.length h i) heap := ⟨_, rfl⟩
  rw [← hdef] at hheap hbuilt
  have hlength := hbuilt.length_eq
  obtain ⟨n, hn⟩ := Nat.exists_eq_add_of_le' hpos
  have hall : Extracted rank (n + 1) built := fun i j _ _ hj hlt => absurd hj (by omega)
  rw [hn] at hheap
  obtain ⟨hextracted, hperm⟩ := extract_all (hranks.mono fun c hc => hbuilt.mem_iff.mp hc) (by omega) hheap hall
  have hresult : sortDescending heap heap.length = ((List.range' 2 n).reverse.foldl extractLast built).reverse := by
    rw [sortDescending, hdef, hn, Nat.add_sub_cancel]
    rfl
  rw [hresult]
  refine ⟨?_, (List.reverse_perm _).trans (hperm.trans hbuilt)⟩
  rw [List.pairwise_reverse, List.pairwise_iff_getElem]
  intro i j hi hj hij
  have hle := hextracted (i + 1) (j + 1) (Nat.le_add_left 1 i) (by omega) (by omega) (by omega)
  rw [ranksAt, ranksAt, candidateAt_eq (by omega) (by omega), candidateAt_eq (by omega) (by omega)] at hle
  exact hle

end

/-! ### The selection -/

section
variable {γ : Type*} [LinearOrder γ] {key : R → γ} {values : List R} {k : ℕ}

/-- The comparisons of these values are those of their keys. -/
def Compared (key : R → γ) (values : List R) : Prop :=
  ∀ a ∈ values, ∀ b ∈ values, (lt a b = true ↔ key a < key b) ∧ (eq a b = true ↔ key a = key b)

/-- The place of a candidate in the order `comes_before`. -/
def rankBefore (key : R → γ) (c : Candidate R) : Lex (γᵒᵈ × ℕ) := toLex (OrderDual.toDual (key c.1), c.2)

/-- The place in the order `comes_before_ascending`. -/
def rankAscending (key : R → γ) (c : Candidate R) : Lex (γ × ℕ) := toLex (key c.1, c.2)

theorem rankBefore_lt_iff {c d : Candidate R} :
    rankBefore key c < rankBefore key d ↔ key d.1 < key c.1 ∨ key d.1 = key c.1 ∧ c.2 < d.2 := by
  rw [rankBefore, rankBefore, Prod.Lex.toLex_lt_toLex, OrderDual.toDual_lt_toDual, OrderDual.toDual_inj,
    eq_comm (a := key c.1)]

theorem rankAscending_lt_iff {c d : Candidate R} :
    rankAscending key c < rankAscending key d ↔ key c.1 < key d.1 ∨ key c.1 = key d.1 ∧ c.2 < d.2 := by
  rw [rankAscending, rankAscending, Prod.Lex.toLex_lt_toLex]

theorem ranks_of_compared (h : Compared key values) {l : List (Candidate R)} (hl : ∀ c ∈ l, c.1 ∈ values) :
    Ranks comesBefore (rankBefore key) l ∧ Ranks comesBeforeAscending (rankAscending key) l := by
  refine ⟨fun c hc d hd => ?_, fun c hc d hd => ?_⟩
  · rw [rankBefore_lt_iff, comesBefore]
    obtain ⟨-, heq⟩ := h c.1 (hl c hc) d.1 (hl d hd)
    by_cases hkey : key c.1 = key d.1
    · rw [if_pos (heq.mpr hkey), decide_eq_true_eq, hkey, and_iff_right rfl, or_iff_right (lt_irrefl _)]
    · rw [if_neg (heq.not.mpr hkey), (h d.1 (hl d hd) c.1 (hl c hc)).1,
        or_iff_left fun hand => hkey hand.1.symm]
  · rw [rankAscending_lt_iff, comesBeforeAscending]
    obtain ⟨hlt, heq⟩ := h c.1 (hl c hc) d.1 (hl d hd)
    by_cases hkey : key c.1 = key d.1
    · rw [if_pos (heq.mpr hkey), decide_eq_true_eq, hkey, and_iff_right rfl, or_iff_right (lt_irrefl _)]
    · rw [if_neg (heq.not.mpr hkey), hlt, or_iff_left fun hand => hkey hand.1]

/-- The body of the loop over the other values. -/
def select (k : ℕ) (heap : List (Candidate R)) (item : Candidate R) : List (Candidate R) :=
  if comesBefore item (candidateAt heap 1) then siftMinHeap (heap.set 0 item) k 1 else heap

theorem topCandidates_eq (values : List R) (hk : k ≠ 0) : topCandidates values k =
    sortDescending (((values.zipIdx 1).drop k).foldl (select k)
      ((List.range' 1 (k / 2)).reverse.foldl (fun h i => siftMinHeap h k i) ((values.zipIdx 1).take k))) k := by
  rw [topCandidates, if_neg hk]
  rfl

/-- One value more. -/
theorem select_turn (hranks : Ranks comesBefore (rankBefore key) (item :: heap))
    (hranks' : Ranks comesBeforeAscending (rankAscending key) (item :: heap)) (hk : 1 ≤ k) (hlength : heap.length = k)
    (hheap : IsHeap 1 k (ranksAt (rankAscending key) heap)) (hlast : ∀ c ∈ heap, c.2 < item.2) :
    Turn (fun c : Candidate R => key c.1) Prod.snd heap item (select k heap item) ∧
      IsHeap 1 k (ranksAt (rankAscending key) (select k heap item)) := by
  obtain ⟨root, rest, rfl⟩ := List.exists_cons_of_length_pos (by omega : 0 < heap.length)
  have hroot : candidateAt (root :: rest) 1 = root := rfl
  have hmin (c : Candidate R) (hc : c ∈ rest) : key root.1 < key c.1 ∨ key root.1 = key c.1 ∧ root.2 ≤ c.2 := by
    obtain ⟨i, hi, rfl⟩ := List.getElem_of_mem hc
    have hat : candidateAt (root :: rest) (i + 2) = rest[i] :=
      candidateAt_eq (by omega) (by rw [List.length_cons]; omega)
    have hle := hheap.root_le (i := i + 2) (by omega) (by rw [← hlength, List.length_cons]; omega)
    rw [ranksAt, ranksAt, hroot, hat] at hle
    rcases hle.eq_or_lt with heq | hlt
    · obtain ⟨hkey, hindex⟩ := Prod.mk.inj (toLex.injective heq)
      exact .inr ⟨hkey, hindex.le⟩
    · exact (rankAscending_lt_iff.mp hlt).imp_right fun hand => ⟨hand.1, hand.2.le⟩
  have hbefore : comesBefore item (candidateAt (root :: rest) 1) = true ↔ key root.1 < key item.1 := by
    rw [hroot, hranks _ List.mem_cons_self _ (List.mem_cons_of_mem _ List.mem_cons_self), rankBefore_lt_iff,
      or_iff_left fun hand => absurd hand.2 (hlast root List.mem_cons_self).not_gt]
  rw [select]
  simp only [hbefore]
  split_ifs with hlt
  · have hset : (root :: rest).set 0 item = item :: rest := rfl
    have hheap' : IsHeap (1 + 1) k (ranksAt (rankAscending key) (item :: rest)) := by
      refine (hheap.mono (Nat.le_add_left 1 1) le_rfl).congr fun i hi _ => ?_
      obtain ⟨j, rfl⟩ := Nat.exists_eq_add_of_le' hi
      rfl
    have hranks'' : Ranks comesBeforeAscending (rankAscending key) (item :: rest) :=
      hranks'.mono fun c hc => by
        rcases List.mem_cons.mp hc with rfl | hc
        · exact List.mem_cons_self
        · exact List.mem_cons_of_mem _ (List.mem_cons_of_mem _ hc)
    have hle : k ≤ (item :: rest).length := hlength.ge
    rw [hset]
    exact ⟨⟨root, rest, List.Perm.refl _, hmin, .inl ⟨hlt, siftDown_root_perm _ hle le_rfl hk⟩⟩,
      siftDown_root hranks'' hle le_rfl hk hheap'⟩
  · exact ⟨⟨root, rest, List.Perm.refl _, hmin, .inr ⟨not_lt.mp hlt, List.Perm.refl _⟩⟩, hheap⟩

/-- The loop over the other values. -/
theorem selects_foldl {t : γ} {l rest : List (Candidate R)} (hranks : Ranks comesBefore (rankBefore key) (l ++ rest))
    (hranks' : Ranks comesBeforeAscending (rankAscending key) (l ++ rest)) (hk : 1 ≤ k)
    (hsorted : (l ++ rest).Pairwise fun a b => a.2 < b.2)
    (hbeyond : (beyond (fun c : Candidate R => key c.1) t (l ++ rest)).length < k)
    (h : Selects (fun c : Candidate R => key c.1) k t l heap)
    (hheap : IsHeap 1 k (ranksAt (rankAscending key) heap)) :
    Selects (fun c : Candidate R => key c.1) k t (l ++ rest) (rest.foldl (select k) heap) := by
  induction rest generalizing l heap with
  | nil =>
    rw [List.append_nil]
    exact h
  | cons x rest ih =>
    have hsplit : l ++ x :: rest = l ++ [x] ++ rest := by
      rw [List.append_assoc]
      rfl
    have hmem (c : Candidate R) (hc : c ∈ x :: heap) : c ∈ l ++ x :: rest := by
      rcases List.mem_cons.mp hc with rfl | hc
      · exact List.mem_append_right l List.mem_cons_self
      · exact List.mem_append_left _ (h.subset c hc)
    obtain ⟨hl, -, hbefore⟩ := List.pairwise_append.mp hsorted
    obtain ⟨hturn, hheap'⟩ := select_turn (hranks.mono hmem) (hranks'.mono hmem) hk h.length hheap
      fun c hc => hbefore c (h.subset c hc) x List.mem_cons_self
    rw [hsplit] at hranks hranks' hsorted hbeyond ⊢
    have hbeyond' : (beyond (fun c : Candidate R => key c.1) t (l ++ [x])).length < k := by
      rw [beyond_append, List.length_append] at hbeyond
      omega
    exact ih hranks hranks' hsorted hbeyond (h.step hturn hl hbeyond') hheap'

/-! ### The first candidates -/

theorem fst_mem_of_mem_zipIdx {c : Candidate R} (hc : c ∈ values.zipIdx 1) : c.1 ∈ values := by
  rw [← List.zipIdx_map_fst 1 values]
  exact List.mem_map_of_mem hc

omit [LinearOrder γ] in
theorem map_filter_key {l : List (Candidate R)} {p : γ → Prop} [DecidablePred p] {q : R → Bool}
    (h : ∀ c ∈ l, p (key c.1) ↔ q c.1 = true) :
    (l.filter fun c => decide (p (key c.1))).map Prod.fst = (l.map Prod.fst).filter q := by
  rw [List.filter_map]
  refine congrArg (List.map Prod.fst) (List.filter_congr fun c hc => ?_)
  rw [Bool.eq_iff_iff, decide_eq_true_eq]
  exact h c hc

/-- The parts of the candidates are those of the values. -/
theorem parts_zipIdx (hkey : Compared key values) {t : R} (ht : t ∈ values) :
    (beyond (fun c : Candidate R => key c.1) (key t) (values.zipIdx 1)).length = (values.filter (lt t)).length ∧
      (late (fun c : Candidate R => key c.1) k (key t) (values.zipIdx 1) = [] ↔
        ∀ x ∈ (values.filter fun v => !lt v t).drop k, lt t x = false) := by
  have hfst : (values.zipIdx 1).map Prod.fst = values := List.zipIdx_map_fst 1 values
  have hmem (c : Candidate R) (hc : c ∈ values.zipIdx 1) : c.1 ∈ values := fst_mem_of_mem_zipIdx hc
  have hbeyond (l : List (Candidate R)) (hl : ∀ c ∈ l, c ∈ values.zipIdx 1) :
      (beyond (fun c : Candidate R => key c.1) (key t) l).map Prod.fst = (l.map Prod.fst).filter (lt t) :=
    map_filter_key fun c hc => (hkey t ht c.1 (hmem c (hl c hc))).1.symm
  have habove : (above (fun c : Candidate R => key c.1) (key t) (values.zipIdx 1)).map Prod.fst =
      values.filter fun v => !lt v t := by
    refine Eq.trans (map_filter_key fun c hc => ?_) (congrArg (List.filter _) hfst)
    rw [Bool.not_eq_true', ← Bool.not_eq_true, (hkey c.1 (hmem c hc) t ht).1, not_lt]
  constructor
  · have hlength := congrArg List.length (hbeyond _ fun c hc => hc)
    rw [List.length_map, hfst] at hlength
    exact hlength
  · have hlate := hbeyond ((above (fun c : Candidate R => key c.1) (key t) (values.zipIdx 1)).drop k)
      fun c hc => (mem_above.mp (List.mem_of_mem_drop hc)).1
    rw [List.map_drop, habove] at hlate
    rw [← @List.map_eq_nil_iff _ _ Prod.fst, late, hlate, List.filter_eq_nil_iff]
    exact forall₂_congr fun x _ => by rw [Bool.not_eq_true]

/-- What is selected, sorted, is the beginning of the sorted candidates when none came late. -/
theorem topCandidates_eq_take_iff (hkey : Compared key values) (hk : 1 ≤ k) {sorted : List (Candidate R)}
    (hperm : sorted.Perm (values.zipIdx 1))
    (hsorted : sorted.Pairwise fun a b => rankBefore key a < rankBefore key b) {t : γ}
    (habove : k ≤ (above (fun c : Candidate R => key c.1) t (values.zipIdx 1)).length)
    (hbeyond : (beyond (fun c : Candidate R => key c.1) t (values.zipIdx 1)).length < k) :
    topCandidates values k = sorted.take k ↔
      late (fun c : Candidate R => key c.1) k t (values.zipIdx 1) = [] := by
  have hle : k ≤ (values.zipIdx 1).length := habove.trans (List.length_filter_le ..)
  have hindex : (values.zipIdx 1).Pairwise fun a b => a.2 < b.2 := by
    have hrange : ((values.zipIdx 1).map Prod.snd).Pairwise (· < ·) := by
      rw [List.zipIdx_map_snd]
      exact List.pairwise_lt_range'
    exact List.pairwise_map.mp hrange
  have hdistinct (a : Candidate R) (ha : a ∈ values.zipIdx 1) (b : Candidate R) (hb : b ∈ values.zipIdx 1)
      (hab : a.2 = b.2) : a = b := by
    refine List.inj_on_of_nodup_map ?_ ha hb hab
    rw [List.zipIdx_map_snd]
    exact List.nodup_range'
  obtain ⟨hranks, hranks'⟩ := ranks_of_compared hkey (l := values.zipIdx 1) fun c hc => fst_mem_of_mem_zipIdx hc
  have hsplit : (values.zipIdx 1).take k ++ (values.zipIdx 1).drop k = values.zipIdx 1 := List.take_append_drop ..
  have hfirst : ((values.zipIdx 1).take k).length = k := by rw [List.length_take, Nat.min_eq_left hle]
  -- the heap of the first `k`, and what the others leave in it
  obtain ⟨hheap, hbuilt⟩ := isHeap_build (n := k / 2) (hranks'.mono fun c hc => List.mem_of_mem_take (i := k) hc)
    hfirst.ge (Nat.div_le_self k 2) (isHeap_of_lt _ (by omega))
  have hselects : Selects (fun c : Candidate R => key c.1) k t ((values.zipIdx 1).take k ++ (values.zipIdx 1).drop k)
      (((values.zipIdx 1).drop k).foldl (select k) _) := selects_foldl
    (by rw [hsplit]; exact hranks) (by rw [hsplit]; exact hranks') hk (by rw [hsplit]; exact hindex)
    (by rw [hsplit]; exact hbeyond) (selects_of_perm hfirst hbuilt) hheap
  rw [hsplit] at hselects
  have htop : topCandidates values k = sortDescending (((values.zipIdx 1).drop k).foldl (select k)
      ((List.range' 1 (k / 2)).reverse.foldl
        (fun heap i => siftDown comesBeforeAscending k (candidateAt heap i) k heap i) ((values.zipIdx 1).take k))) k :=
    topCandidates_eq values (Nat.ne_of_gt hk)
  generalize List.foldl (@select R D _ k) _ _ = heap at hselects htop
  obtain ⟨hdescending, hresult⟩ := sortDescending_sorted (hranks.mono hselects.subset)
  rw [hselects.length, ← htop] at hdescending hresult
  have hlength : (topCandidates values k).length = k := hresult.length_eq.trans hselects.length
  have hmem (c : Candidate R) : c ∈ topCandidates values k ↔ c ∈ heap := hresult.mem_iff
  have hne : (topCandidates values k).Pairwise fun a b => rankBefore key a ≠ rankBefore key b := by
    have hnodup := hselects.nodup habove hbeyond (hindex.imp fun hlt heq => absurd (congrArg Prod.snd heq) hlt.ne)
    refine List.Nodup.pairwise_of_forall_ne (hresult.nodup_iff.mpr hnodup) fun a ha b hb hab heq => hab ?_
    exact hdistinct a (hselects.subset a ((hmem a).mp ha)) b (hselects.subset b ((hmem b).mp hb))
      (Prod.mk.inj (toLex.injective heq)).2
  have hstrict := hdescending.imp₂ (fun _ _ hle hne => lt_of_le_of_ne hle hne) hne
  have htake := eq_take_iff hsorted hstrict fun c hc => hperm.mem_iff.mpr (hselects.subset c ((hmem c).mp hc))
  rw [hlength] at htake
  rw [htake, ← hselects.closed_iff habove hbeyond hindex]
  simp only [hmem, hperm.mem_iff, rankBefore_lt_iff]

/-- The candidates are the first `k` in the order `comes_before` exactly when no element larger than the `k`-th
largest one comes behind the first `k` elements that are not smaller: such an element takes the place of the
first of those that are equal to it. -/
theorem topCandidates_eq_iff (hkey : Compared key values) (hk : 1 ≤ k) (hle : k ≤ values.length) :
    ∃ sorted : List (Candidate R), sorted.Perm (values.zipIdx 1) ∧
      (sorted.Pairwise fun a b => comesBefore a b = true) ∧
      (topCandidates values k = sorted.take k ↔
        ∀ t ∈ values, (values.filter (lt t)).length < k →
          ∀ x ∈ (values.filter fun v => !lt v t).drop k, lt t x = false) := by
  have hindex : ((values.zipIdx 1).map Prod.snd).Pairwise (· ≠ ·) := by
    rw [List.zipIdx_map_snd]
    exact List.nodup_range'
  have hne : (values.zipIdx 1).Pairwise fun a b => rankBefore key a ≠ rankBefore key b :=
    (List.pairwise_map.mp hindex).imp fun hne heq => hne (Prod.mk.inj (toLex.injective heq)).2
  obtain ⟨sorted, hperm, hsorted⟩ := exists_sorted hne
  obtain ⟨hranks, -⟩ := ranks_of_compared hkey (l := sorted) fun c hc =>
    fst_mem_of_mem_zipIdx (hperm.mem_iff.mp hc)
  refine ⟨sorted, hperm, hsorted.imp_of_mem fun ha hb hlt => (hranks _ ha _ hb).mpr hlt, ?_⟩
  -- the candidate in the position `k` has the threshold
  have hfalls : sorted.Pairwise fun a b : Candidate R => key b.1 ≤ key a.1 :=
    hsorted.imp fun hlt => (rankBefore_lt_iff.mp hlt).elim le_of_lt fun h => h.1.le
  have hlength : k ≤ sorted.length := by
    rw [hperm.length_eq, List.length_zipIdx]
    exact hle
  obtain ⟨a, ha, habove, hbeyond⟩ := exists_threshold hk hlength hfalls
  rw [(Perm.above hperm).length_eq] at habove
  rw [(Perm.beyond hperm).length_eq] at hbeyond
  rw [topCandidates_eq_take_iff hkey hk hperm hsorted habove hbeyond,
    late_eq_nil_iff (hperm.mem_iff.mp ha) habove hbeyond]
  constructor
  · intro h t ht hfew x hx
    obtain ⟨hlength, hlate⟩ := parts_zipIdx (k := k) hkey ht
    rw [← List.zipIdx_map_fst 1 values, List.mem_map] at ht
    obtain ⟨b, hb, rfl⟩ := ht
    exact hlate.mp (h b hb (hlength ▸ hfew)) x hx
  · intro h b hb hfew
    obtain ⟨hlength, hlate⟩ := parts_zipIdx (k := k) hkey (fst_mem_of_mem_zipIdx hb)
    exact hlate.mpr (h b.1 (fst_mem_of_mem_zipIdx hb) (hlength ▸ hfew))

/-- Two of the larger values: the third element is above the second place. -/
theorem topCandidates_distinct : ∃ sorted : List (Candidate ℚ), sorted.Perm ([3, 1, 2].zipIdx 1) ∧
    (sorted.Pairwise fun a b => comesBefore a b = true) ∧
    (topCandidates [3, 1, 2] 2 = sorted.take 2 ↔
      ∀ t ∈ [(3 : ℚ), 1, 2], ([(3 : ℚ), 1, 2].filter (lt t)).length < 2 →
        ∀ x ∈ ([(3 : ℚ), 1, 2].filter fun v => !lt v t).drop 2, lt t x = false) :=
  @topCandidates_eq_iff ℚ ℚ _ ℚ _ id _ _
    (fun _ _ _ _ => ⟨decide_eq_true_iff, decide_eq_true_iff⟩) (by decide) (by decide)

/-- Two of `1, 1, 2` : the first `1` comes before the second, which is returned. -/
theorem topCandidates_ties : ∃ sorted : List (Candidate ℚ), sorted.Perm ([1, 1, 2].zipIdx 1) ∧
    (sorted.Pairwise fun a b => comesBefore a b = true) ∧ topCandidates [1, 1, 2] 2 ≠ sorted.take 2 := by
  refine ⟨[(2, 3), (1, 1), (1, 2)], ?_, ?_, ?_⟩ <;> decide

end

end FortAI
