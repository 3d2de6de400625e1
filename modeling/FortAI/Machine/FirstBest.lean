import Mathlib.Data.Set.Insert
import Mathlib.Order.BoundedOrder.Basic
import Mathlib.Order.Lattice

/-!
# The first largest value

A search for the largest value of a function starts below all values and at index 0.  It can go through
several sets of indices apart from each other and compare what was found in them.

* `FirstBest.insert` : a later index.
* `FirstBest.merge` : two sets.
* `FirstBest.isFirst` : what is found in a set with index 0.
-/

namespace FortAI

variable {α : Type*} [LinearOrder α] [OrderBot α] {f : ℕ → α} {S T : Set ℕ} {i j : ℕ} {a b : α}

/-- What a search in the indices of a set has found: a value and the first index it is at, or still what
it started with. -/
structure FirstBest (f : ℕ → α) (S : Set ℕ) (i : ℕ) (a : α) : Prop where
  le : ∀ j ∈ S, f j ≤ a
  lt : ∀ j ∈ S, j < i → f j < a
  found : (i ∈ S ∧ f i = a) ∨ (i = 0 ∧ a = ⊥)

namespace FirstBest

theorem empty : FirstBest f ∅ 0 ⊥ := ⟨fun _ h => h.elim, fun _ h => h.elim, .inr ⟨rfl, rfl⟩⟩

/-- The value of a later index is taken if it is larger. -/
theorem insert_of_lt (h : FirstBest f S i a) (hlt : a < f j) : FirstBest f (insert j S) j (f j) where
  le k hk := by
    rcases hk with rfl | hk
    · exact le_rfl
    · exact (h.le k hk).trans hlt.le
  lt k hk hkj := by
    rcases hk with rfl | hk
    · exact absurd hkj (lt_irrefl k)
    · exact (h.le k hk).trans_lt hlt
  found := .inl ⟨Set.mem_insert j S, rfl⟩

theorem insert_of_le (h : FirstBest f S i a) (hlater : ∀ k ∈ S, k < j) (hle : f j ≤ a) :
    FirstBest f (insert j S) i a where
  le k hk := by
    rcases hk with rfl | hk
    · exact hle
    · exact h.le k hk
  lt k hk hki := by
    rcases hk with rfl | hk
    · -- what was found before is not behind the later index
      rcases h.found with ⟨hi, -⟩ | ⟨rfl, -⟩
      · exact absurd hki (hlater i hi).not_gt
      · exact absurd hki (Nat.not_lt_zero k)
    · exact h.lt k hk hki
  found := h.found.imp_left fun hi => ⟨Set.mem_insert_of_mem j hi.1, hi.2⟩

/-- The second one is better. -/
theorem merge_right (h : FirstBest f S i a) (h' : FirstBest f T j b)
    (hbetter : a < b ∨ (b = a ∧ j < i)) : FirstBest f (S ∪ T) j b where
  le k hk := by
    rcases hk with hk | hk
    · exact (h.le k hk).trans (hbetter.elim le_of_lt fun heq => heq.1.ge)
    · exact h'.le k hk
  lt k hk hkj := by
    rcases hk with hk | hk
    · rcases hbetter with hlt | ⟨heq, hji⟩
      · exact (h.le k hk).trans_lt hlt
      · rw [heq]
        exact h.lt k hk (hkj.trans hji)
    · exact h'.lt k hk hkj
  found := h'.found.imp_left fun hj => ⟨.inr hj.1, hj.2⟩

theorem merge_left (h : FirstBest f S i a) (h' : FirstBest f T j b)
    (hbetter : ¬ (a < b ∨ (b = a ∧ j < i))) : FirstBest f (S ∪ T) i a := by
  obtain ⟨hle, hfirst⟩ := not_or.mp hbetter
  refine ⟨fun k hk => ?_, fun k hk hki => ?_, h.found.imp_left fun hi => ⟨.inl hi.1, hi.2⟩⟩
  · rcases hk with hk | hk
    · exact h.le k hk
    · exact (h'.le k hk).trans (not_lt.mp hle)
  · rcases hk with hk | hk
    · exact h.lt k hk hki
    · rcases (not_lt.mp hle).lt_or_eq with hlt | heq
      · exact (h'.le k hk).trans_lt hlt
      · have hij : i ≤ j := not_lt.mp fun hji => hfirst ⟨heq, hji⟩
        rw [← heq]
        exact h'.lt k hk (hki.trans_le hij)

/-- In a set with index 0 it is the first index of a largest value. -/
theorem isFirst (h : FirstBest f S i a) (hzero : 0 ∈ S) :
    i ∈ S ∧ (∀ j ∈ S, f j ≤ f i) ∧ ∀ j ∈ S, j < i → f j < f i := by
  rcases h.found with ⟨hi, rfl⟩ | ⟨rfl, rfl⟩
  · exact ⟨hi, h.le, h.lt⟩
  · have hbot : f 0 = ⊥ := le_bot_iff.mp (h.le 0 hzero)
    exact ⟨hzero, fun j hj => (h.le j hj).trans bot_le, fun j _ hlt => absurd hlt (Nat.not_lt_zero j)⟩

end FirstBest

end FortAI
