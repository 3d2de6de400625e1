import FortAI.Llama.Fast
import FortAI.Machine.FirstBest
import Mathlib.Algebra.Order.Monoid.Unbundled.WithTop

/-!
# The largest logit

The vector loop of `fortai_argmax_avx2` searches eight sets of indices, one in every lane.  Its offset is an
`int`, and the test of the loop adds 8 to it.

* `argmaxLoop_spec`, `laneLoop_spec` : what the two loops find.
* `argmax_isFirstLargest` : both routines find the first largest logit, for all counts at which the sum is an `int`.
-/

namespace FortAI

namespace Llama

open Arithmetic

/-! ### The offset -/

section
variable {R D : Type} [Arithmetic R D]

/-- `laneLoop` with its offset; `none` where `offset + 8` is no `int`, so that the language gives the test no
value. -/
def offsetLoop (offset : ℕ) (lanes : List (Lane R)) : List R → Option (List (Lane R) × List R)
  | a :: b :: c :: d :: e :: f :: g :: h :: values =>
    if offset + 8 ≤ 2147483647 then
      offsetLoop (offset + 8) (lanes.zipWith Lane.add [a, b, c, d, e, f, g, h]) values
    else none
  | values => if offset + 8 ≤ 2147483647 then some (lanes, values) else none

/-- `fortai_argmax_avx2` with its offset. -/
def offsetArgmax (negativeInfinity : R) (values : List R) : Option (ℕ × R) :=
  let start : List (Lane R) := (List.range 8).map fun i => ⟨negativeInfinity, zero, 0, i⟩
  (offsetLoop 0 start values).map fun _ => argmaxAvx2 negativeInfinity values

/-- Fewer than eight values are left where they are. -/
theorem length_lt_of_ne_block {values : List R}
    (h : ∀ a b c d e f g h rest, values = a :: b :: c :: d :: e :: f :: g :: h :: rest → False) :
    values.length < 8 ∧ ∀ lanes : List (Lane R), laneLoop lanes values = (lanes, values) := by
  rcases values with _ | ⟨a, _ | ⟨b, _ | ⟨c, _ | ⟨d, _ | ⟨e, _ | ⟨f, _ | ⟨g, _ | ⟨i, rest⟩⟩⟩⟩⟩⟩⟩⟩
  case cons.cons.cons.cons.cons.cons.cons.cons => exact (h _ _ _ _ _ _ _ _ _ rfl).elim
  all_goals exact ⟨by simp only [List.length_cons, List.length_nil]; omega, fun _ => rfl⟩

theorem offsetLoop_eq (offset : ℕ) (lanes : List (Lane R)) (values : List R) :
    offsetLoop offset lanes values =
      if offset + 8 * (values.length / 8) + 8 ≤ 2147483647 then some (laneLoop lanes values) else none := by
  fun_induction offsetLoop offset lanes values with
  | case1 offset lanes a b c d e f g h values hle ih =>
    have hlength : (a :: b :: c :: d :: e :: f :: g :: h :: values).length / 8 = values.length / 8 + 1 := by
      simp only [List.length_cons]
      omega
    rw [ih, hlength, laneLoop, mul_add, add_right_comm offset 8, ← add_assoc]
  | case2 offset lanes a b c d e f g h values hgt =>
    exact (if_neg fun hle => hgt (by omega)).symm
  | case3 offset lanes values hvalues hle =>
    obtain ⟨hlt, hloop⟩ := length_lt_of_ne_block hvalues
    rw [Nat.div_eq_of_lt hlt, hloop]
    exact (if_pos hle).symm
  | case4 offset lanes values hvalues hgt =>
    exact (if_neg fun hle => hgt (by omega)).symm

end

/-! ### What the loops find -/

/-- Numbers that are compared as extended numbers unless they are NaN. -/
structure Numbers (R α : Type) {D : Type} [Arithmetic R D] [LinearOrder α] [OrderBot α] where
  number : R → α
  IsNaN : R → Prop
  negativeInfinity : R
  lt_iff : ∀ {a b : R}, ¬ IsNaN a → ¬ IsNaN b → (lt a b = true ↔ number a < number b)
  eq_iff : ∀ {a b : R}, ¬ IsNaN a → ¬ IsNaN b → (Arithmetic.eq a b = true ↔ number a = number b)
  not_isNaN_negativeInfinity : ¬ IsNaN negativeInfinity
  number_negativeInfinity : number negativeInfinity = ⊥

section
variable {R D α : Type} [Arithmetic R D] [LinearOrder α] [OrderBot α] (c : Numbers R α) (all : List R)

/-- The number at an index. -/
def Numbers.at (i : ℕ) : α := c.number (all.getD i c.negativeInfinity)

/-- A search in these indices has found this value. -/
def Numbers.Found (S : Set ℕ) (i : ℕ) (v : R) : Prop :=
  ¬ c.IsNaN v ∧ FirstBest (c.at all) S i (c.number v)

/-- A lane in front of the block at an offset. -/
def Numbers.LaneAt (offset l : ℕ) (lane : Lane R) : Prop :=
  lane.nextIndex = offset + l ∧ c.Found all {j | j < offset ∧ j % 8 = l} lane.index lane.maximum

variable {c all}

theorem Numbers.Found.insert {S : Set ℕ} {i j : ℕ} {v w : R} (h : c.Found all S i v)
    (hlater : ∀ k ∈ S, k < j) (hw : ¬ c.IsNaN w) (hat : c.at all j = c.number w) :
    c.Found all (insert j S) (if lt v w then j else i) (if lt v w then w else v) := by
  by_cases hlt : lt v w = true
  · have hlt' : c.number v < c.at all j := hat ▸ (c.lt_iff h.1 hw).mp hlt
    rw [if_pos hlt, if_pos hlt]
    exact ⟨hw, hat ▸ h.2.insert_of_lt hlt'⟩
  · have hle : c.at all j ≤ c.number v := hat ▸ not_lt.mp fun hlt' => hlt ((c.lt_iff h.1 hw).mpr hlt')
    rw [if_neg hlt, if_neg hlt]
    exact ⟨h.1, h.2.insert_of_le hlater hle⟩

/-- Of two lanes the better one has what a search in both sets would have found. -/
theorem Numbers.Found.better {S T : Set ℕ} {best lane : Lane R} (h : c.Found all S best.index best.maximum)
    (h' : c.Found all T lane.index lane.maximum) :
    c.Found all (S ∪ T) (best.better lane).index (best.better lane).maximum := by
  have hiff : (lt best.maximum lane.maximum ||
      (Arithmetic.eq lane.maximum best.maximum && decide (lane.index < best.index))) = true ↔
      c.number best.maximum < c.number lane.maximum ∨
        (c.number lane.maximum = c.number best.maximum ∧ lane.index < best.index) := by
    rw [Bool.or_eq_true, Bool.and_eq_true, decide_eq_true_iff, c.lt_iff h.1 h'.1, c.eq_iff h'.1 h.1]
  rw [Lane.better]
  split_ifs with hbetter
  · exact ⟨h'.1, h.2.merge_right h'.2 (hiff.mp hbetter)⟩
  · exact ⟨h.1, h.2.merge_left h'.2 (hiff.not.mp hbetter)⟩

/-- A block of values puts one into every lane. -/
theorem Numbers.LaneAt.add {offset l : ℕ} {lane : Lane R} {v : R} (h : c.LaneAt all offset l lane)
    (hoffset : 8 ∣ offset) (hl : l < 8) (hv : ¬ c.IsNaN v) (hat : c.at all (offset + l) = c.number v) :
    c.LaneAt all (offset + 8) l (lane.add v) := by
  have hset : insert (offset + l) {j | j < offset ∧ j % 8 = l} = {j | j < offset + 8 ∧ j % 8 = l} := by
    ext j
    simp only [Set.mem_insert_iff, Set.mem_ofPred_eq]
    omega
  refine ⟨?_, ?_⟩
  · rw [Lane.add, h.1, add_right_comm]
  · have hfound := h.2.insert (j := offset + l) (fun k hk => Nat.lt_add_right l hk.1) hv hat
    rw [hset] at hfound
    simp only [Lane.add, h.1]
    exact hfound

/-- Where a list goes on with a block behind an index. -/
theorem drop_block (block : List R) {i : ℕ} {rest : List R} (h : all.drop i = block ++ rest)
    (hi : i ≤ all.length) (fallback : R) :
    i + block.length ≤ all.length ∧ (∀ l (hl : l < block.length), all.getD (i + l) fallback = block[l]) ∧
      all.drop (i + block.length) = rest := by
  have hlength := congrArg List.length h
  rw [List.length_drop, List.length_append] at hlength
  refine ⟨by omega, fun l hl => ?_, ?_⟩
  · rw [List.getD_eq_getElem?_getD, ← List.getElem?_drop, h, List.getElem?_append_left hl,
      List.getElem?_eq_getElem hl, Option.getD_some]
  · rw [← List.drop_drop, h, List.drop_left]

/-- The scalar loop goes on with the search through the rest. -/
theorem argmaxLoop_spec (hnan : ∀ v ∈ all, ¬ c.IsNaN v) (rest : List R) (i best : ℕ) (bestValue total : R)
    (hi : i ≤ all.length) (hrest : all.drop i = rest) (h : c.Found all {j | j < i} best bestValue) :
    ∃ v, c.Found all {j | j < all.length} (argmaxLoop best bestValue total i rest).1 v := by
  induction rest generalizing i best bestValue total with
  | nil =>
    have heq : i = all.length := Nat.le_antisymm hi (List.drop_eq_nil_iff.mp hrest)
    exact ⟨bestValue, heq ▸ h⟩
  | cons v rest ih =>
    obtain ⟨hlt, hat, hnext⟩ := drop_block [v] hrest hi c.negativeInfinity
    have hv : v ∈ all := List.mem_of_mem_drop (hrest ▸ List.mem_cons_self)
    have hset : insert i {j | j < i} = {j | j < i + 1} := by
      ext j
      simp only [Set.mem_insert_iff, Set.mem_ofPred_eq]
      omega
    have hfound := h.insert (fun k hk => hk) (hnan v hv) (congrArg c.number (hat 0 Nat.one_pos))
    rw [hset] at hfound
    rw [argmaxLoop]
    split_ifs at hfound ⊢ with hlarger
    · exact ih (i + 1) i v _ hlt hnext hfound
    · exact ih (i + 1) best bestValue _ hlt hnext hfound

/-- The vector loop leaves less than a block, and every lane has found the best of its indices in front. -/
theorem laneLoop_spec (hnan : ∀ v ∈ all, ¬ c.IsNaN v) (lanes : List (Lane R)) (values : List R) (offset : ℕ)
    (hoffset : 8 ∣ offset) (hle : offset ≤ all.length) (hvalues : all.drop offset = values)
    (hlength : lanes.length = 8) (h : ∀ l (hl : l < lanes.length), c.LaneAt all offset l lanes[l]) :
    ∃ offset' ≤ all.length, all.drop offset' = (laneLoop lanes values).2 ∧
      (laneLoop lanes values).1.length = 8 ∧
      ∀ l (hl : l < (laneLoop lanes values).1.length),
        c.LaneAt all offset' l (laneLoop lanes values).1[l] := by
  fun_induction laneLoop lanes values generalizing offset with
  | case1 lanes a b c' d e f g i values ih =>
    let block := [a, b, c', d, e, f, g, i]
    obtain ⟨hlt, hat, hnext⟩ := drop_block block hvalues hle c.negativeInfinity
    have hlanes : (lanes.zipWith Lane.add [a, b, c', d, e, f, g, i]).length = 8 := by
      rw [List.length_zipWith, hlength]
      rfl
    refine ih (offset + 8) (Nat.dvd_add_self_right.mpr hoffset) hlt hnext hlanes fun l hl => ?_
    have hl8 : l < 8 := hlanes ▸ hl
    have hmem : block[l] ∈ all := by
      refine List.mem_of_mem_drop (i := offset) ?_
      rw [hvalues]
      exact List.mem_append_left values (List.getElem_mem hl8)
    rw [List.getElem_zipWith]
    exact (h l (hlength ▸ hl8)).add hoffset hl8 (hnan _ hmem) (congrArg c.number (hat l hl8))
  | case2 lanes values hvalues => exact ⟨offset, hle, by assumption, hlength, h⟩

/-- The best of the lanes has what a search in all their sets would have found. -/
theorem foldl_better (T : ℕ → Set ℕ) (others : List (Lane R)) (m : ℕ) (S : Set ℕ) (lane : Lane R)
    (hlane : c.Found all S lane.index lane.maximum)
    (h : ∀ k (hk : k < others.length), c.Found all (T (m + k)) others[k].index others[k].maximum) :
    c.Found all (S ∪ {j | ∃ k < others.length, j ∈ T (m + k)}) (others.foldl Lane.better lane).index
      (others.foldl Lane.better lane).maximum := by
  induction others generalizing m S lane with
  | nil =>
    have hset : {j | ∃ k < ([] : List (Lane R)).length, j ∈ T (m + k)} = ∅ := by
      ext j
      exact iff_of_false (fun ⟨k, hk, _⟩ => Nat.not_lt_zero k hk) (Set.notMem_empty j)
    rw [hset, Set.union_empty]
    exact hlane
  | cons next others ih =>
    have hfirst := hlane.better (h 0 (Nat.succ_pos _))
    have hrest := ih (m + 1) _ (lane.better next) hfirst fun k hk => by
      have := h (k + 1) (Nat.succ_lt_succ hk)
      rw [List.getElem_cons_succ, ← add_assoc, add_right_comm] at this
      exact this
    have hset : S ∪ T (m + 0) ∪ {j | ∃ k < others.length, j ∈ T (m + 1 + k)} =
        S ∪ {j | ∃ k < (next :: others).length, j ∈ T (m + k)} := by
      rw [Set.union_assoc]
      congr 1
      ext j
      constructor
      · rintro (hj | ⟨k, hk, hj⟩)
        · exact ⟨0, Nat.succ_pos _, hj⟩
        · exact ⟨k + 1, Nat.succ_lt_succ hk, by rwa [← add_assoc, add_right_comm]⟩
      · rintro ⟨k, hk, hj⟩
        cases k with
        | zero => exact .inl hj
        | succ k => exact .inr ⟨k, Nat.lt_of_succ_lt_succ hk, by rwa [add_assoc, add_comm 1]⟩
    rw [hset] at hrest
    exact hrest

/-! ### The two routines -/

/-- The first index of a largest value. -/
structure IsFirstLargest (c : Numbers R α) (values : List R) (i : ℕ) : Prop where
  lt : i < values.length
  le : ∀ j < values.length, c.at values j ≤ c.at values i
  first : ∀ j < i, c.at values j < c.at values i

theorem IsFirstLargest.unique {i j : ℕ} (hi : IsFirstLargest c all i) (hj : IsFirstLargest c all j) : i = j := by
  rcases Nat.lt_trichotomy i j with hlt | heq | hgt
  · exact absurd (hj.first i hlt) (hi.le j hj.lt).not_gt
  · exact heq
  · exact absurd (hi.first j hgt) (hj.le i hi.lt).not_gt

theorem Numbers.Found.isFirstLargest {i : ℕ} {v : R} (hne : all ≠ [])
    (h : c.Found all {j | j < all.length} i v) : IsFirstLargest c all i := by
  obtain ⟨hlt, hle, hfirst⟩ := h.2.isFirst (List.length_pos_iff.mpr hne)
  exact ⟨hlt, hle, fun j hj => hfirst j (hj.trans hlt) hj⟩

theorem argmaxScalar_isFirstLargest (hnan : ∀ v ∈ all, ¬ c.IsNaN v) (hne : all ≠ []) :
    IsFirstLargest c all (argmaxScalar all).1 := by
  cases all with
  | nil => exact absurd rfl hne
  | cons v rest =>
    have hone (k : ℕ) (hk : k ∈ {j | j < 1}) : k = 0 := Nat.lt_one_iff.mp hk
    have hstart : c.Found (v :: rest) {j | j < 1} 0 v := by
      refine ⟨hnan v List.mem_cons_self, ⟨fun k hk => ?_, fun k _ hlt => ?_, .inl ⟨Nat.one_pos, rfl⟩⟩⟩
      · rw [hone k hk]
        exact le_rfl
      · exact absurd hlt (Nat.not_lt_zero k)
    obtain ⟨w, hfound⟩ := argmaxLoop_spec hnan rest 1 0 v v (Nat.succ_pos _) rfl hstart
    exact hfound.isFirstLargest hne

theorem argmaxAvx2_isFirstLargest (hnan : ∀ v ∈ all, ¬ c.IsNaN v) (hne : all ≠ []) :
    IsFirstLargest c all (argmaxAvx2 c.negativeInfinity all).1 := by
  let start : List (Lane R) := (List.range 8).map fun i => ⟨c.negativeInfinity, zero, 0, i⟩
  have hstart (l : ℕ) (hl : l < start.length) : c.LaneAt all 0 l start[l] := by
    have hlane : start[l] = ⟨c.negativeInfinity, zero, 0, l⟩ := by
      rw [List.getElem_map, List.getElem_range]
    rw [hlane]
    exact ⟨(zero_add l).symm, c.not_isNaN_negativeInfinity,
      fun j hj => absurd hj.1 (Nat.not_lt_zero j), fun j hj => absurd hj.1 (Nat.not_lt_zero j),
      .inr ⟨rfl, c.number_negativeInfinity⟩⟩
  obtain ⟨offset, hoffset, hrest, hlength, hlanes⟩ :=
    laneLoop_spec hnan start all 0 (Nat.dvd_zero 8) (Nat.zero_le _) rfl rfl hstart
  obtain ⟨⟨lanes, rest⟩, hloop⟩ : ∃ result, laneLoop start all = result := ⟨_, rfl⟩
  rw [hloop] at hrest hlength hlanes
  cases lanes with
  | nil => cases hlength
  | cons lane others =>
    have hothers : others.length = 7 := Nat.succ.inj hlength
    have hbest := foldl_better (fun l => {j | j < offset ∧ j % 8 = l}) others 1 _ lane
      (hlanes 0 (Nat.succ_pos _)).2 fun k hk => by
        have := (hlanes (k + 1) (Nat.succ_lt_succ hk)).2
        rw [add_comm 1 k]
        exact this
    -- the sets of the lanes are the indices in front of the tail
    have hset : ({j | j < offset ∧ j % 8 = 0} : Set ℕ) ∪
        {j | ∃ k < others.length, j ∈ {j | j < offset ∧ j % 8 = 1 + k}} = {j | j < offset} := by
      rw [hothers]
      ext j
      constructor
      · rintro (hj | ⟨k, -, hj⟩)
        · exact hj.1
        · exact hj.1
      · intro hj
        rcases Nat.eq_zero_or_pos (j % 8) with hzero | hpos
        · exact .inl ⟨hj, hzero⟩
        · exact .inr ⟨j % 8 - 1, by omega, hj, by omega⟩
    rw [hset] at hbest
    have htail : all.length - rest.length = offset := by
      have htotal : all.length - offset = rest.length := by
        rw [← List.length_drop, hrest]
      omega
    have hresult : argmaxAvx2 c.negativeInfinity all =
        argmaxLoop (others.foldl Lane.better lane).index (others.foldl Lane.better lane).maximum
          ((lane :: others).foldl (fun total lane => Arithmetic.add total lane.sum) zero) offset rest := by
      rw [argmaxAvx2, hloop, ← htail]
    rw [hresult]
    obtain ⟨v, hfound⟩ := argmaxLoop_spec hnan rest offset _ _ _ hoffset hrest hbest
    exact hfound.isFirstLargest hne

/-- **Both routines find the first largest value**, as long as the offset of the vector loop is an `int`. -/
theorem argmax_isFirstLargest (c : Numbers R α) (values : List R) (hne : values ≠ []) (hnan : ∀ v ∈ values, ¬ c.IsNaN v)
    (hlength : values.length < 2147483640) :
    ∃ result, offsetArgmax c.negativeInfinity values = some result ∧ result.1 = (argmaxScalar values).1 ∧
      IsFirstLargest c values result.1 ∧ IsFirstLargest c values (argmaxScalar values).1 := by
  have hscalar := argmaxScalar_isFirstLargest hnan hne
  have hvector := argmaxAvx2_isFirstLargest hnan hne
  have hoffset : 0 + 8 * (values.length / 8) + 8 ≤ 2147483647 := by omega
  refine ⟨argmaxAvx2 c.negativeInfinity values, ?_, hvector.unique hscalar, hvector, hscalar⟩
  rw [offsetArgmax, offsetLoop_eq, if_pos hoffset, Option.map_some]

/-- A processor without the vectors finds the same token. -/
theorem Handle.argmax_eq {H : Type} (h : Handle H R) (hinfinity : h.negativeInfinity = c.negativeInfinity)
    (hne : all ≠ []) (hnan : ∀ v ∈ all, ¬ c.IsNaN v) : (h.argmax all).1 = (argmaxScalar all).1 := by
  rw [Handle.argmax, hinfinity]
  split_ifs
  · exact (argmaxAvx2_isFirstLargest hnan hne).unique (argmaxScalar_isFirstLargest hnan hne)
  · rfl

end

/-! ### Integers with a number below them -/

/-- Only what the two routines do with their values. -/
instance : Arithmetic (WithBot ℤ) Unit where
  zero := 0
  one := 1
  add := (· + ·)
  sub a _ := a
  mul a _ := a
  div a _ := a
  exp a := a
  log a := a
  ofCount n := (n : ℤ)
  lt a b := (WithBot.decidableLT a b).decide
  le a b := (WithBot.decidableLE a b).decide
  eq a b := decide (a = b)
  finite a := decide (a ≠ ⊥)
  zeroD := ()
  addD _ _ := ()
  mulD _ _ := ()
  leD _ _ := true
  widen _ := ()
  unit64 _ _ := ()
  not_lt_of_eq h := by
    rw [of_decide_eq_true h]
    exact decide_eq_false (lt_irrefl _)

/-- None of them is NaN. -/
def integers : Numbers (WithBot ℤ) (WithBot ℤ) where
  number := id
  IsNaN _ := False
  negativeInfinity := ⊥
  lt_iff _ _ := decide_eq_true_iff
  eq_iff _ _ := decide_eq_true_iff
  not_isNaN_negativeInfinity := not_false
  number_negativeInfinity := rfl

/-- Ties between the lanes and behind them: the first one counts. -/
theorem argmax_ties :
    let values : List (WithBot ℤ) := [⊥, 1, 5, 2, ⊥, 5, 3, 4, 5, 5]
    ∃ result, offsetArgmax ⊥ values = some result ∧ result.1 = (argmaxScalar values).1 ∧
      IsFirstLargest integers values result.1 ∧ IsFirstLargest integers values (argmaxScalar values).1 := by
  intro values
  have hlength : values.length < 2147483640 := by
    show 10 < 2147483640
    omega
  exact argmax_isFirstLargest integers values (List.cons_ne_nil _ _) (fun _ _ => not_false) hlength

end Llama

end FortAI
