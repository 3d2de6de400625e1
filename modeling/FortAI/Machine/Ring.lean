import Mathlib.Data.List.Range
import Mathlib.Data.Nat.ModEq
import Mathlib.Logic.Function.Basic

/-!
# Ring buffers

A ring of `capacity` slots with the positions of its first element and of the slot behind its last.

* `Ring.Ordered` : the positions are those of `count` elements in a row.
* `Ring.Ordered.put`, `Ring.Ordered.take` : putting in appends to the contents, taking out removes
  their first element.
-/

namespace FortAI

/-- A ring buffer; only the slots below `capacity` are used. -/
structure Ring (α : Type*) (capacity : ℕ) where
  slots : ℕ → α
  head : ℕ
  tail : ℕ
  count : ℕ

namespace Ring

variable {α : Type*} {capacity : ℕ}

def put (r : Ring α capacity) (x : α) : Ring α capacity :=
  { r with
    slots := Function.update r.slots r.tail x
    tail := (r.tail + 1) % capacity
    count := r.count + 1 }

/-- The element that is taken out next. -/
def front (r : Ring α capacity) : α := r.slots r.head

def take (r : Ring α capacity) : Ring α capacity :=
  { r with head := (r.head + 1) % capacity, count := r.count - 1 }

/-- The elements in the order in which they are taken out. -/
def contents (r : Ring α capacity) : List α :=
  (List.range r.count).map fun i => r.slots ((r.head + i) % capacity)

structure Ordered (r : Ring α capacity) : Prop where
  count_le : r.count ≤ capacity
  head_mod : r.head % capacity = r.head
  tail_eq : r.tail = (r.head + r.count) % capacity

/-- Two elements stand in different slots. -/
theorem slot_ne {head i j : ℕ} (hi : i < j) (hj : j < capacity) :
    (head + i) % capacity ≠ (head + j) % capacity := by
  intro h
  have hmod : i ≡ j [MOD capacity] := Nat.ModEq.add_left_cancel' head h
  exact Nat.ne_of_lt hi (hmod.eq_of_lt_of_lt (hi.trans hj) hj)

theorem contents_put {r : Ring α capacity} (h : r.Ordered) (hroom : r.count < capacity) (x : α) :
    (r.put x).contents = r.contents ++ [x] := by
  have hold (i : ℕ) (hi : i ∈ List.range r.count) :
      Function.update r.slots r.tail x ((r.head + i) % capacity) =
        r.slots ((r.head + i) % capacity) := by
    rw [h.tail_eq]
    exact Function.update_of_ne (slot_ne (List.mem_range.mp hi) hroom) x r.slots
  have hnew : Function.update r.slots r.tail x ((r.head + r.count) % capacity) = x := by
    rw [← h.tail_eq]
    exact Function.update_self r.tail x r.slots
  have hput : (r.put x).contents = (List.range (r.count + 1)).map fun i =>
      Function.update r.slots r.tail x ((r.head + i) % capacity) := rfl
  rw [hput, List.range_succ, List.map_append, List.map_singleton, List.map_congr_left hold, hnew]
  rfl

theorem contents_take {r : Ring α capacity} (h : r.Ordered) (hpos : 0 < r.count) :
    r.contents = r.front :: r.take.contents := by
  obtain ⟨n, hn⟩ : ∃ n, r.count = n + 1 := ⟨r.count - 1, by omega⟩
  have hrest (i : ℕ) : ((r.head + 1) % capacity + i) % capacity = (r.head + (i + 1)) % capacity := by
    rw [Nat.mod_add_mod, Nat.add_assoc, Nat.add_comm 1 i]
  have htake : r.take.contents = (List.range n).map fun i => r.slots ((r.head + (i + 1)) % capacity) := by
    show (List.range (r.count - 1)).map _ = _
    rw [hn, Nat.add_sub_cancel]
    exact List.map_congr_left fun i _ => congrArg r.slots (hrest i)
  rw [htake, contents, hn, List.range_succ_eq_map, List.map_cons, List.map_map, Nat.add_zero,
    h.head_mod]
  rfl

theorem Ordered.put {r : Ring α capacity} (h : r.Ordered) (hroom : r.count < capacity) (x : α) :
    (r.put x).Ordered where
  count_le := hroom
  head_mod := h.head_mod
  tail_eq := by
    show (r.tail + 1) % capacity = (r.head + (r.count + 1)) % capacity
    rw [h.tail_eq, Nat.mod_add_mod, Nat.add_assoc]

theorem Ordered.take {r : Ring α capacity} (h : r.Ordered) (hpos : 0 < r.count) : r.take.Ordered where
  count_le := (Nat.sub_le _ _).trans h.count_le
  head_mod := Nat.mod_mod _ _
  tail_eq := by
    show r.tail = ((r.head + 1) % capacity + (r.count - 1)) % capacity
    rw [h.tail_eq, Nat.mod_add_mod, Nat.add_assoc, Nat.add_sub_cancel' hpos]

end Ring

end FortAI
