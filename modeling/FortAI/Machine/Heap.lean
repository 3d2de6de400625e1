import Mathlib.Data.Nat.Basic
import Mathlib.Order.Basic
import Mathlib.Order.Defs.LinearOrder
import Mathlib.Order.Lattice

/-!
# Heaps

A binary heap in the positions from 1: the children of `i` are in `2 * i` and `2 * i + 1`, and no element
is larger than its children.  An element moves down through a hole, which a child fills as long as one is
smaller.

* `Hole.down`, `Hole.fill` : a move of the hole, and its end.
* `IsHeap.root_le` : the first element is a smallest one.
-/

namespace FortAI

namespace Heap

variable {β : Type*}

/-- The positions from 1 with one of them changed. -/
def Filled (a : ℕ → β) (position : ℕ) (x : β) (a' : ℕ → β) : Prop :=
  ∀ i, 1 ≤ i → a' i = if i = position then x else a i

theorem Filled.self {a a' : ℕ → β} {position : ℕ} {x : β} (h : Filled a position x a')
    (hposition : 1 ≤ position) : a' position = x := by
  rw [h position hposition, if_pos rfl]

theorem Filled.other {a a' : ℕ → β} {position i : ℕ} {x : β} (h : Filled a position x a') (hi : 1 ≤ i)
    (hne : i ≠ position) : a' i = a i := by
  rw [h i hi, if_neg hne]

variable [LinearOrder β]

/-- No element from `root` on is larger than its children in the first `count` positions. -/
def IsHeap (root count : ℕ) (a : ℕ → β) : Prop := ∀ i, 1 < i → i ≤ count → root ≤ i / 2 → a (i / 2) ≤ a i

/-- The position `parent` is a hole on the way of `item`. -/
structure Hole (root count : ℕ) (item : β) (a : ℕ → β) (parent : ℕ) : Prop where
  except : ∀ i, 1 < i → i ≤ count → root ≤ i / 2 → i ≠ parent → i / 2 ≠ parent → a (i / 2) ≤ a i
  above : root ≤ parent / 2 → a (parent / 2) ≤ item
  below : root ≤ parent / 2 → ∀ i ≤ count, i / 2 = parent → a (parent / 2) ≤ a i

variable {root count parent child : ℕ} {item : β} {a a' : ℕ → β}

/-- Without children there is nothing to keep. -/
theorem isHeap_of_lt (a : ℕ → β) (h : count < 2 * root) : IsHeap root count a := by
  intro i _ hi habove
  omega

theorem IsHeap.congr (h : IsHeap root count a)
    (ha : ∀ i, root ≤ i → i ≤ count → a' i = a i) : IsHeap root count a' := by
  intro i hi hle hparent
  rw [ha i (by omega) hle, ha (i / 2) hparent (by omega)]
  exact h i hi hle hparent

theorem IsHeap.mono {root' count' : ℕ} (h : IsHeap root count a) (hroot : root ≤ root')
    (hcount : count' ≤ count) : IsHeap root' count' a :=
  fun i hi hle hparent => h i hi (Nat.le_trans hle hcount) (Nat.le_trans hroot hparent)

/-- What stands at the root does not matter. -/
theorem IsHeap.hole (h : IsHeap (root + 1) count a) (hroot : 1 ≤ root) (item : β) :
    Hole root count item a root where
  except i hi hle hparent _ hne := h i hi hle (by omega)
  above habove := absurd habove (by omega)
  below habove := absurd habove (by omega)

/-- The smaller child fills the hole and leaves another one. -/
theorem Hole.down (h : Hole root count item a parent) (hroot : root ≤ parent) (hparent : 1 ≤ parent)
    (hchild : child / 2 = parent) (hle : child ≤ count) (hitem : a child ≤ item)
    (hmin : ∀ i ≤ count, i / 2 = parent → a child ≤ a i) (ha : Filled a parent (a child) a') :
    Hole root count item a' child := by
  refine ⟨fun i hi hicount hiroot hne hne' => ?_, fun _ => ?_, fun _ i hicount hi => ?_⟩
  · by_cases hip : i = parent
    · rw [hip] at hi hiroot ⊢
      rw [ha.self hparent, ha.other (by omega) (by omega)]
      exact h.below hiroot child hle hchild
    · rw [ha.other (Nat.le_of_lt hi) hip]
      by_cases hsibling : i / 2 = parent
      · rw [hsibling, ha.self hparent]
        exact hmin i hicount hsibling
      · rw [ha.other (by omega) hsibling]
        exact h.except i hi hicount hiroot hip hsibling
  · rw [hchild, ha.self hparent]
    exact hitem
  · rw [hchild, ha.self hparent, ha.other (by omega) (by omega), ← hi]
    exact h.except i (by omega) hicount (by omega) (by omega) (by omega)

/-- The element fills the hole when no child is smaller. -/
theorem Hole.fill (h : Hole root count item a parent) (hparent : 1 ≤ parent)
    (hmin : ∀ i ≤ count, i / 2 = parent → item ≤ a i) (ha : Filled a parent item a') :
    IsHeap root count a' := by
  intro i hi hle hroot
  by_cases hip : i = parent
  · rw [hip] at hi hroot ⊢
    rw [ha.self hparent, ha.other (by omega) (by omega)]
    exact h.above hroot
  · rw [ha.other (Nat.le_of_lt hi) hip]
    by_cases hchild : i / 2 = parent
    · rw [hchild, ha.self hparent]
      exact hmin i hle hchild
    · rw [ha.other (by omega) hchild]
      exact h.except i hi hle hroot hip hchild

/-- The first element is a smallest one. -/
theorem IsHeap.root_le (h : IsHeap 1 count a) {i : ℕ} (hi : 1 ≤ i) (hle : i ≤ count) : a 1 ≤ a i := by
  induction i using Nat.strongRec with
  | ind i ih =>
    rcases Nat.eq_or_lt_of_le hi with rfl | hlt
    · exact le_rfl
    · exact (ih (i / 2) (by omega) (by omega) (by omega)).trans (h i hlt hle (by omega))

end Heap

end FortAI
