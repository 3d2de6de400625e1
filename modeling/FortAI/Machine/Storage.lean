import Mathlib.Data.List.Basic

/-!
# Strings and arrays with bounds

Every substring and every element is checked against the bounds, and an array is allocated once.

* `substring_eq`, `load_eq`, `store_eq` : what is inside.
* `foldlM_store` : a loop that stores the elements of an array one after the other.
* `overlay_eq` : an assignment to a part of an array.
-/

namespace FortAI

namespace Storage

universe u

/-- What ends a procedure before its end. -/
inductive Stop (E : Type*)
  /-- An index out of bounds. -/
  | outside
  /-- ALLOCATE of an array that is allocated. -/
  | allocated
  /-- The procedure reports an error and returns. -/
  | refused (e : E)
  deriving DecidableEq

abbrev Checked (E : Type*) := Except (Stop E)

variable {E α : Type*}

theorem ok_bind {ε : Type*} {α β : Type u} (a : α) (f : α → Except ε β) :
    ((.ok a : Except ε α) >>= f) = f a := rfl

theorem bind_eq_ok {ε : Type*} {α β : Type u} {x : Except ε α} {f : α → Except ε β} {b : β} :
    x >>= f = .ok b ↔ ∃ a, x = .ok a ∧ f a = .ok b := by
  constructor
  · intro h
    cases x with
    | error e => cases h
    | ok a => exact ⟨a, rfl, h⟩
  · rintro ⟨a, rfl, hf⟩
    exact hf

/-- `s(first:last)` -/
def substring (s : List α) (first last : ℕ) : Checked E (List α) :=
  if 1 ≤ first ∧ last ≤ s.length then .ok ((s.drop (first - 1)).take (last + 1 - first)) else .error .outside

/-- The state of an allocatable array. -/
abbrev Allocatable (α : Type*) := Option (List α)

/-- `allocate(array(n))` -/
def allocate [Inhabited α] (array : Allocatable α) (n : ℕ) : Checked E (Allocatable α) :=
  match array with
  | none => .ok (some (List.replicate n default))
  | some _ => .error .allocated

/-- `array(i)` -/
def load (array : Allocatable α) (i : ℕ) : Checked E α :=
  match array with
  | none => .error .outside
  | some xs => if h : 1 ≤ i ∧ i ≤ xs.length then .ok (xs.get ⟨i - 1, by omega⟩) else .error .outside

/-- `array(i) = x` -/
def store (array : Allocatable α) (i : ℕ) (x : α) : Checked E (Allocatable α) :=
  match array with
  | none => .error .outside
  | some xs => if 1 ≤ i ∧ i ≤ xs.length then .ok (some (xs.set (i - 1) x)) else .error .outside

/-- `array(first:first+n-1) = xs`, where `n` is the length of `xs` -/
def overlay (array : Allocatable α) (first : ℕ) (xs : List α) : Checked E (Allocatable α) :=
  match array with
  | none => .error .outside
  | some ys =>
    if 1 ≤ first ∧ first - 1 + xs.length ≤ ys.length then
      .ok (some (ys.take (first - 1) ++ xs ++ ys.drop (first - 1 + xs.length)))
    else .error .outside

theorem overlay_eq {ys xs : List α} {i : ℕ} (h : i + xs.length ≤ ys.length) :
    (overlay (some ys) (i + 1) xs : Checked E (Allocatable α)) =
      .ok (some (ys.take i ++ xs ++ ys.drop (i + xs.length))) := by
  rw [overlay, if_pos ⟨Nat.le_add_left 1 i, h⟩, Nat.add_sub_cancel]

theorem substring_eq {s : List α} {i n : ℕ} (h : i + n ≤ s.length) :
    (substring s (i + 1) (i + n) : Checked E (List α)) = .ok ((s.drop i).take n) := by
  have hn : i + n + 1 - (i + 1) = n := by omega
  rw [substring, if_pos ⟨Nat.le_add_left 1 i, h⟩, Nat.add_sub_cancel, hn]

theorem load_eq {f : ℕ → α} {n i : ℕ} (h : i < n) :
    (load (some ((List.range n).map f)) (i + 1) : Checked E α) = .ok (f i) := by
  have hlength : ((List.range n).map f).length = n := by rw [List.length_map, List.length_range]
  rw [load, dif_pos ⟨Nat.le_add_left 1 i, by omega⟩, List.get_eq_getElem, List.getElem_map,
    List.getElem_range]
  rfl

theorem load_getD {xs : List α} {i : ℕ} (h : i < xs.length) (d : α) :
    (load (some xs) (i + 1) : Checked E α) = .ok (xs.getD i d) := by
  rw [load, dif_pos ⟨Nat.le_add_left 1 i, h⟩, List.getD_eq_getElem?_getD, List.getElem?_eq_getElem h]
  rfl

theorem store_eq {xs : List α} {i : ℕ} (h : i < xs.length) (x : α) :
    (store (some xs) (i + 1) x : Checked E (Allocatable α)) = .ok (some (xs.set i x)) := by
  rw [store, if_pos ⟨Nat.le_add_left 1 i, h⟩]
  rfl

/-- A loop whose turns go well. -/
theorem foldlM_eq_foldl {σ β : Type*} {body : σ → β → Checked E σ} {step : σ → β → σ} {l : List β}
    (h : ∀ s, ∀ b ∈ l, body s b = .ok (step s b)) (s : σ) :
    l.foldlM body s = .ok (l.foldl step s) := by
  induction l generalizing s with
  | nil => rfl
  | cons b l ih =>
    rw [List.foldlM_cons, h s b List.mem_cons_self, List.foldl_cons]
    exact ih (fun s c hc => h s c (List.mem_cons_of_mem b hc)) (step s b)

/-- The elements at the front of an array are stored one after the other. -/
theorem foldlM_store_front {f : ℕ → α} {n : ℕ} {body : Allocatable α → ℕ → Checked E (Allocatable α)}
    (h : ∀ array, ∀ i < n, body array i = store array (i + 1) (f i)) {xs : List α} (hlength : n ≤ xs.length) :
    (List.range n).foldlM body (some xs) = .ok (some ((List.range n).map f ++ xs.drop n)) := by
  -- after `m` turns the first `m` elements are stored and the others are as they were
  have hturns (m : ℕ) (hm : m ≤ n) : (List.range m).foldlM body (some xs) =
      .ok (some ((List.range m).map f ++ xs.drop m)) := by
    induction m with
    | zero => rfl
    | succ m ih =>
      have hlt : m < ((List.range m).map f ++ xs.drop m).length := by
        rw [List.length_append, List.length_map, List.length_range, List.length_drop]
        omega
      rw [List.range_succ, List.foldlM_append, ih (by omega)]
      show (List.foldlM body _ [m]) = _
      rw [List.foldlM_cons, h _ m hm, store_eq hlt]
      show Except.ok _ = _
      have hdrop : xs.drop m = xs.get ⟨m, by omega⟩ :: xs.drop (m + 1) := List.drop_eq_getElem_cons (by omega)
      have hmap : ((List.range m).map f).length = m := by rw [List.length_map, List.length_range]
      rw [List.set_append_right _ _ (Nat.le_of_eq hmap), hmap, Nat.sub_self, hdrop, List.set_cons_zero,
        List.map_append,
        List.append_assoc]
      rfl
  exact hturns n (Nat.le_refl n)

/-- The elements are stored one after the other. -/
theorem foldlM_store {f : ℕ → α} {n : ℕ} {body : Allocatable α → ℕ → Checked E (Allocatable α)}
    (h : ∀ array, ∀ i < n, body array i = store array (i + 1) (f i)) {xs : List α} (hlength : xs.length = n) :
    (List.range n).foldlM body (some xs) = .ok (some ((List.range n).map f)) := by
  rw [foldlM_store_front h (Nat.le_of_eq hlength.symm), List.drop_eq_nil_of_le (Nat.le_of_eq hlength),
    List.append_nil]

/-- A loop over the positions of a part of an array is a loop over its elements. -/
theorem foldlM_load {α σ : Type u} {body : σ → α → Checked E σ} {xs : List α} (first : ℕ) {n : ℕ}
    (h : first + n ≤ xs.length) (s : σ) :
    (List.range' (first + 1) n).foldlM (fun s i => load (some xs) i >>= body s) s =
      ((xs.drop first).take n).foldlM body s := by
  induction n generalizing first s with
  | zero =>
    rw [List.take_zero]
    rfl
  | succ n ih =>
    have hlt : first < xs.length := by omega
    have hload : (load (some xs) (first + 1) : Checked E α) = .ok xs[first] := by
      rw [load, dif_pos ⟨Nat.le_add_left 1 first, hlt⟩]
      rfl
    rw [List.range'_succ, List.foldlM_cons, List.drop_eq_getElem_cons hlt, List.take_succ_cons,
      List.foldlM_cons, hload,
      ok_bind]
    congr 1
    funext s
    exact ih (first + 1) (by omega) s

/-- The elements of an array are changed one after the other, each turn by its own element. -/
theorem foldlM_update {f : ℕ → α} {body : Allocatable α → ℕ → Checked E (Allocatable α)} {xs : List α}
    (h : ∀ ys : List α, ∀ i, (hi : i < xs.length) → ys[i]? = some xs[i] →
      body (some ys) (i + 1) = .ok (some (ys.set i (f i)))) :
    (List.range' 1 xs.length).foldlM body (some xs) = .ok (some ((List.range xs.length).map f)) := by
  -- after `m` turns the first `m` elements are changed
  have hturns (m : ℕ) (hm : m ≤ xs.length) : (List.range' 1 m).foldlM body (some xs) =
      .ok (some ((List.range m).map f ++ xs.drop m)) := by
    induction m with
    | zero => rfl
    | succ m ih =>
      have hmap : ((List.range m).map f).length = m := by rw [List.length_map, List.length_range]
      have hdrop : xs.drop m = xs[m] :: xs.drop (m + 1) := List.drop_eq_getElem_cons (by omega)
      have hget : ((List.range m).map f ++ xs.drop m)[m]? = some xs[m] := by
        rw [List.getElem?_append_right (Nat.le_of_eq hmap), hmap, Nat.sub_self, hdrop]
        rfl
      have hplace : 1 + m = m + 1 := Nat.add_comm 1 m
      rw [List.range'_concat, List.foldlM_append, ih (by omega), Nat.one_mul, hplace]
      show (List.foldlM body _ [m + 1]) = _
      rw [List.foldlM_cons, h _ m (by omega) hget]
      show Except.ok _ = _
      rw [List.set_append_right _ _ (Nat.le_of_eq hmap), hmap, Nat.sub_self, hdrop, List.set_cons_zero,
        List.range_succ,
        List.map_append, List.append_assoc]
      rfl
  rw [hturns xs.length (Nat.le_refl _), List.drop_length, List.append_nil]

end Storage

end FortAI
