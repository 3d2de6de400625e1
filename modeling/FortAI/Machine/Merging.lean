import Mathlib.Data.List.Infix
import Mathlib.Logic.Function.Basic

/-!
# Merging neighbours by rank

A list is reduced by merging neighbours whose pair has a rank, a lower rank first.  Two ways to do it:
one pair at a time, always the first one of the lowest rank (`Step`), or in rounds, each of which
merges all occurrences of the pair of the lowest rank from left to right (`rounds`).

* `mergeAll_step` : a step with the pair of a round does not change what the round makes.
* `eq_rounds` : a function that follows the steps computes the rounds, as long as no merge makes an
  element of a pair of the same or a lower rank.
-/

namespace FortAI

namespace Merging

variable {α : Type*} (rank : α → α → Option ℕ) (join : α → α → α)

/-- The elements stand next to each other. -/
def Adjacent (x y : α) (w : List α) : Prop := [x, y] <:+: w

/-- No pair of the list has a rank below `r`. -/
def Least (r : ℕ) (w : List α) : Prop := ∀ a b s, Adjacent a b w → rank a b = some s → r ≤ s

/-- The first pair of the lowest rank is merged. -/
structure Step (u : List α) (x y : α) (t : List α) (r : ℕ) : Prop where
  rank_eq : rank x y = some r
  least : Least rank r (u ++ x :: y :: t)
  first : ∀ a b s, Adjacent a b (u ++ [x]) → rank a b = some s → r < s

/-- The rank of a pair is above that of the merges that make one of its elements. -/
def Ordered : Prop :=
  ∀ x y r, rank x y = some r →
    ∀ z s, rank (join x y) z = some s ∨ rank z (join x y) = some s → r < s

/-- No two pairs have the same rank. -/
def Distinct : Prop :=
  ∀ x y x' y' r, rank x y = some r → rank x' y' = some r → x = x' ∧ y = y'

/-! ### Pairs of a list -/

section
variable {x y a b c : α} {u t w : List α}

theorem adjacent_cons_cons (a b : α) (t : List α) : Adjacent a b (a :: b :: t) := ⟨[], t, rfl⟩

theorem Adjacent.cons (h : Adjacent a b t) : Adjacent a b (c :: t) := h.trans (List.suffix_cons c t).isInfix

/-- A pair in a list is in front of an element, behind it, or it has the element. -/
theorem adjacent_append_cons (h : Adjacent a b (u ++ c :: t)) :
    Adjacent a b u ∨ Adjacent a b t ∨ a = c ∨ b = c := by
  obtain ⟨p, q, hpq⟩ := h
  rw [List.append_assoc] at hpq
  rcases List.append_eq_append_iff.mp hpq with ⟨s, rfl, hs⟩ | ⟨s, rfl, hs⟩
  · -- `u` reaches into the pair or beyond
    cases s with
    | nil => exact .inr (.inr (.inl (List.cons.inj hs).1))
    | cons d s =>
      obtain ⟨hd, hs⟩ := List.cons.inj hs
      cases s with
      | nil => exact .inr (.inr (.inr (List.cons.inj hs).1))
      | cons e s =>
        have he := (List.cons.inj hs).1
        exact .inl ⟨p, s, by rw [hd, he]; simp⟩
  · cases s with
    | nil => exact .inr (.inr (.inl (List.cons.inj hs).1.symm))
    | cons d s =>
      obtain ⟨-, rfl⟩ := List.cons.inj hs
      exact .inr (.inl ⟨s, q, by simp⟩)

/-- The pair that ends at an element is in the list. -/
theorem adjacent_of_left (h : Adjacent a b u) (t : List α) : Adjacent a b (u ++ t) :=
  h.trans (List.prefix_append u t).isInfix

theorem adjacent_of_right (h : Adjacent a b t) (u : List α) : Adjacent a b (u ++ t) :=
  h.trans (List.suffix_append u t).isInfix

/-- A pair that occurs occurs first somewhere. -/
theorem exists_first [DecidableEq α] (h : Adjacent x y w) :
    ∃ u t, w = u ++ x :: y :: t ∧ ¬ Adjacent x y (u ++ [x]) := by
  induction w with
  | nil =>
    obtain ⟨p, q, hpq⟩ := h
    simp at hpq
  | cons a w ih =>
    cases w with
    | nil =>
      obtain ⟨p, q, hpq⟩ := h
      have := congrArg List.length hpq
      simp only [List.length_append, List.length_cons, List.length_nil] at this
      omega
    | cons b t =>
      by_cases hab : a = x ∧ b = y
      · obtain ⟨rfl, rfl⟩ := hab
        refine ⟨[], t, rfl, ?_⟩
        rintro ⟨p, q, hpq⟩
        have := congrArg List.length hpq
        simp only [List.length_append, List.length_cons, List.length_nil] at this
        omega
      · have hrest : Adjacent x y (b :: t) := by
          rcases List.infix_cons_iff.mp h with hprefix | hrest
          · obtain ⟨hxa, hprefix⟩ := List.cons_prefix_cons.mp hprefix
            exact absurd ⟨hxa.symm, (List.cons_prefix_cons.mp hprefix).1.symm⟩ hab
          · exact hrest
        obtain ⟨u, t', heq, hnone⟩ := ih hrest
        refine ⟨a :: u, t', by rw [heq]; rfl, fun hadjacent => ?_⟩
        rcases List.infix_cons_iff.mp hadjacent with hprefix | hrest
        · obtain ⟨hxa, hprefix⟩ := List.cons_prefix_cons.mp hprefix
          cases u with
          | nil =>
            obtain ⟨hb, -⟩ := List.cons.inj heq
            exact hab ⟨hxa.symm, hb.trans (List.cons_prefix_cons.mp hprefix).1.symm⟩
          | cons c u =>
            obtain ⟨hb, -⟩ := List.cons.inj heq
            exact hab ⟨hxa.symm, hb.trans (List.cons_prefix_cons.mp hprefix).1.symm⟩
        · exact hnone hrest

end

/-- The lowest rank of the pairs of a list, with its pair. -/
def lowest : List α → Option (ℕ × α × α)
  | a :: b :: t =>
    match rank a b, lowest (b :: t) with
    | none, rest => rest
    | some r, none => some (r, a, b)
    | some r, some (s, x, y) => if s < r then some (s, x, y) else some (r, a, b)
  | _ => none

section
variable {rank} {x y a b : α} {t w : List α} {r : ℕ}

/-- A pair of a list is the first one, or in the rest. -/
theorem adjacent_cons_iff : Adjacent x y (a :: b :: t) ↔ x = a ∧ y = b ∨ Adjacent x y (b :: t) := by
  rw [Adjacent, List.infix_cons_iff, List.cons_prefix_cons, List.cons_prefix_cons]
  simp [Adjacent]

theorem least_cons (hpair : ∀ s, rank a b = some s → r ≤ s) (hrest : Least rank r (b :: t)) :
    Least rank r (a :: b :: t) := by
  intro c d s hadjacent hrank
  rcases adjacent_cons_iff.mp hadjacent with ⟨rfl, rfl⟩ | hadjacent
  · exact hpair s hrank
  · exact hrest c d s hadjacent hrank

/-- What `lowest` returns is a pair of the list with the lowest rank; with none, no pair has a rank. -/
theorem lowest_spec (w : List α) :
    match lowest rank w with
    | none => ∀ a b, Adjacent a b w → rank a b = none
    | some (r, x, y) => rank x y = some r ∧ Adjacent x y w ∧ Least rank r w := by
  induction w with
  | nil =>
    rintro a b ⟨p, q, hpq⟩
    simp at hpq
  | cons a w ih =>
    cases w with
    | nil =>
      rintro a b ⟨p, q, hpq⟩
      have := congrArg List.length hpq
      simp only [List.length_append, List.length_cons, List.length_nil] at this
      omega
    | cons b t =>
      rw [lowest]
      cases hab : rank a b with
      | none =>
        cases hrest : lowest rank (b :: t) with
        | none =>
          rw [hrest] at ih
          intro c d hadjacent
          rcases adjacent_cons_iff.mp hadjacent with ⟨rfl, rfl⟩ | hadjacent
          · exact hab
          · exact ih c d hadjacent
        | some p =>
          rw [hrest] at ih
          exact ⟨ih.1, ih.2.1.cons, least_cons (fun s hs => by rw [hab] at hs; cases hs) ih.2.2⟩
      | some r =>
        have hfirst : ∀ s, rank a b = some s → r ≤ s := fun s hs =>
          Nat.le_of_eq (Option.some.inj (hab.symm.trans hs))
        cases hrest : lowest rank (b :: t) with
        | none =>
          rw [hrest] at ih
          refine ⟨hab, adjacent_cons_cons a b t, least_cons hfirst fun c d s hadjacent hrank => ?_⟩
          rw [ih c d hadjacent] at hrank
          cases hrank
        | some p =>
          obtain ⟨s, x, y⟩ := p
          rw [hrest] at ih
          obtain ⟨hxy, hadjacent, hleast⟩ := ih
          simp only
          split_ifs with hs
          · exact ⟨hxy, hadjacent.cons,
              least_cons (fun q hq => Nat.le_trans (Nat.le_of_lt hs) (hfirst q hq)) hleast⟩
          · refine ⟨hab, adjacent_cons_cons a b t, least_cons hfirst fun c d q hadjacent hrank => ?_⟩
            exact Nat.le_trans (Nat.le_of_not_lt hs) (hleast c d q hadjacent hrank)

theorem lowest_eq_none (h : lowest rank w = none) (hadjacent : Adjacent a b w) : rank a b = none := by
  have hspec := @lowest_spec α rank w
  rw [h] at hspec
  exact hspec a b hadjacent

theorem lowest_eq_some (h : lowest rank w = some (r, x, y)) :
    rank x y = some r ∧ Adjacent x y w ∧ Least rank r w := by
  have hspec := @lowest_spec α rank w
  rw [h] at hspec
  exact hspec

end

/-! ### Rounds -/

section
variable [DecidableEq α]

/-- All occurrences of a pair, from left to right, are merged. -/
def mergeAll (x y : α) : List α → List α
  | a :: b :: t => if a = x ∧ b = y then join x y :: mergeAll x y t else a :: mergeAll x y (b :: t)
  | w => w

variable {rank join} {x y : α} {u t w : List α} {r : ℕ}

theorem mergeAll_cons_of_ne {a : α} (h : ∀ b t', t = b :: t' → ¬ (a = x ∧ b = y)) :
    mergeAll join x y (a :: t) = a :: mergeAll join x y t := by
  cases t with
  | nil => rfl
  | cons b t => rw [mergeAll, if_neg (h b t rfl)]

/-- Elements in front of which no pair ends are kept. -/
theorem mergeAll_append {c : α} (hnone : ¬ Adjacent x y (u ++ [c])) :
    mergeAll join x y (u ++ c :: t) = u ++ mergeAll join x y (c :: t) := by
  induction u with
  | nil => rfl
  | cons a u ih =>
    have hrest : ¬ Adjacent x y (u ++ [c]) := fun h => hnone h.cons
    rw [List.cons_append, mergeAll_cons_of_ne, ih hrest, List.cons_append]
    rintro b t' heq ⟨rfl, rfl⟩
    refine hnone ?_
    cases u with
    | nil =>
      obtain ⟨rfl, -⟩ := List.cons.inj heq
      exact adjacent_cons_cons a _ []
    | cons d u =>
      obtain ⟨rfl, -⟩ := List.cons.inj heq
      exact adjacent_cons_cons a _ _

theorem mergeAll_of_not_adjacent (h : ¬ Adjacent x y w) : mergeAll join x y w = w := by
  rcases List.eq_nil_or_concat w with rfl | ⟨u, c, rfl⟩
  · rfl
  · rw [List.concat_eq_append] at h ⊢
    exact mergeAll_append h

theorem length_mergeAll_le (w : List α) : (mergeAll join x y w).length ≤ w.length := by
  fun_induction mergeAll join x y w with
  | case1 a b t h ih =>
    simp only [List.length_cons]
    omega
  | case2 a b t h ih =>
    simp only [List.length_cons] at ih ⊢
    omega
  | case3 w => exact Nat.le_refl _

theorem length_mergeAll_lt (h : Adjacent x y w) : (mergeAll join x y w).length < w.length := by
  obtain ⟨u, t, rfl, hnone⟩ := exists_first h
  have hle : (mergeAll join x y t).length ≤ t.length := length_mergeAll_le t
  rw [mergeAll_append hnone, mergeAll, if_pos ⟨rfl, rfl⟩]
  simp only [List.length_append, List.length_cons]
  omega

variable (rank join) in
/-- Rounds until no pair has a rank. -/
def rounds (w : List α) : List α :=
  match _h : lowest rank w with
  | none => w
  | some (_, x, y) => rounds (mergeAll join x y w)
termination_by w.length
decreasing_by exact length_mergeAll_lt (lowest_eq_some _h).2.1

theorem rounds_of_none (h : lowest rank w = none) : rounds rank join w = w := by
  rw [rounds]
  split
  · rfl
  · next hsome =>
    rw [h] at hsome
    cases hsome

theorem rounds_of_some (h : lowest rank w = some (r, x, y)) :
    rounds rank join w = rounds rank join (mergeAll join x y w) := by
  rw [rounds]
  split
  · next hnone =>
    rw [h] at hnone
    cases hnone
  · next hsome =>
    rw [h] at hsome
    cases hsome
    rfl

/-! ### Steps -/

omit [DecidableEq α] in
/-- What a merge makes is neither of its elements. -/
theorem Ordered.ne (h : Ordered rank join) (hxy : rank x y = some r) :
    join x y ≠ x ∧ join x y ≠ y := by
  refine ⟨fun heq => ?_, fun heq => ?_⟩
  · exact Nat.lt_irrefl r (h x y r hxy y r (.inl (by rw [heq]; exact hxy)))
  · exact Nat.lt_irrefl r (h x y r hxy x r (.inr (by rw [heq]; exact hxy)))

/-- A step with the pair of a round does not change what the round makes. -/
theorem mergeAll_step (h : Ordered rank join) (hxy : rank x y = some r)
    (hnone : ¬ Adjacent x y (u ++ [x])) :
    mergeAll join x y (u ++ join x y :: t) = mergeAll join x y (u ++ x :: y :: t) := by
  obtain ⟨hx, hy⟩ := h.ne hxy
  have hjoin : ¬ Adjacent x y (u ++ [join x y]) := by
    intro hadjacent
    rcases adjacent_append_cons hadjacent with hu | hnil | heq | heq
    · exact hnone (adjacent_of_left hu [x])
    · obtain ⟨p, q, hpq⟩ := hnil
      simp at hpq
    · exact hx heq.symm
    · exact hy heq.symm
  rw [mergeAll_append hnone, mergeAll_append hjoin, mergeAll, if_pos ⟨rfl, rfl⟩,
    mergeAll_cons_of_ne fun b t' _ heq => hx heq.1]

omit [DecidableEq α] in
/-- No pair of the list gets a rank below that of the pair of the step. -/
theorem least_step (h : Ordered rank join) (hxy : rank x y = some r)
    (hleast : Least rank r (u ++ x :: y :: t)) : Least rank r (u ++ join x y :: t) := by
  intro a b s hadjacent hrank
  rcases adjacent_append_cons hadjacent with hu | ht | rfl | rfl
  · exact hleast a b s (adjacent_of_left hu _) hrank
  · exact hleast a b s (adjacent_of_right ht.cons.cons u) hrank
  · exact Nat.le_of_lt (h x y r hxy b s (.inl hrank))
  · exact Nat.le_of_lt (h x y r hxy a s (.inr hrank))

section
variable {f : List α → List α}
  (hstep : ∀ u x y t r, Step rank u x y t r → f (u ++ x :: y :: t) = f (u ++ join x y :: t))

include hstep

/-- The steps of a round. -/
theorem eq_mergeAll (hordered : Ordered rank join) (hdistinct : Distinct rank)
    (hxy : rank x y = some r) (w : List α) (hleast : Least rank r w) :
    f w = f (mergeAll join x y w) := by
  induction hn : w.length using Nat.strong_induction_on generalizing w with
  | _ n ih =>
    by_cases hadjacent : Adjacent x y w
    · obtain ⟨u, t, rfl, hnone⟩ := exists_first hadjacent
      have hfirst : Step rank u x y t r := by
        refine ⟨hxy, hleast, fun a b s hab hrank => ?_⟩
        have hle : r ≤ s := by
          refine hleast a b s ?_ hrank
          rw [show u ++ x :: y :: t = (u ++ [x]) ++ (y :: t) by simp]
          exact adjacent_of_left hab _
        refine Nat.lt_of_le_of_ne hle ?_
        rintro rfl
        obtain ⟨rfl, rfl⟩ := hdistinct a b x y r hrank hxy
        exact hnone hab
      rw [hstep u x y t r hfirst, ← mergeAll_step hordered hxy hnone]
      refine ih _ ?_ _ (least_step hordered hxy hleast) rfl
      rw [← hn]
      simp only [List.length_append, List.length_cons]
      omega
    · rw [mergeAll_of_not_adjacent hadjacent]

/-- What follows the steps computes the rounds. -/
theorem eq_rounds (hdone : ∀ w, (∀ a b, Adjacent a b w → rank a b = none) → f w = w)
    (hordered : Ordered rank join) (hdistinct : Distinct rank) (w : List α) :
    f w = rounds rank join w := by
  induction hn : w.length using Nat.strong_induction_on generalizing w with
  | _ n ih =>
    cases hlowest : lowest rank w with
    | none => rw [rounds_of_none hlowest, hdone w fun a b => lowest_eq_none hlowest]
    | some p =>
      obtain ⟨r, x, y⟩ := p
      obtain ⟨hxy, hadjacent, hleast⟩ := lowest_eq_some hlowest
      rw [rounds_of_some hlowest, eq_mergeAll hstep hordered hdistinct hxy w hleast]
      exact ih _ (hn ▸ length_mergeAll_lt hadjacent) _ rfl

end

end

end Merging

end FortAI
