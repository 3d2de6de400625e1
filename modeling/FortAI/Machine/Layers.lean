import Mathlib.Data.List.Basic

/-!
# Layers on sequences

A layer turns every row of a sequence into one that depends on the rows up to it.  A machine gets the rows one by
one.  It keeps a state for each layer, and has scratch memory that all layers share.

* `along` : a layer on a sequence.  `through` : one layer after the other.
* `Kept` : a layer of the machine with what it keeps of the rows so far.
* `pass_kept` : a row passes all layers of the machine as the last row of the whole sequence does.
-/

namespace FortAI

namespace Layers

variable {α β σ ω ε : Type}

/-! ### Sequences -/

/-- Every row with those in front of it. -/
def along (f : List α → β) (xs : List α) : List β := (List.range xs.length).map fun k => f (xs.take (k + 1))

/-- One layer after the other, each on the whole sequence. -/
def through : List (List α → α) → List α → List α
  | [], xs => xs
  | f :: fs, xs => through fs (along f xs)

@[simp] theorem along_nil (f : List α → β) : along f [] = [] := rfl

@[simp] theorem length_along (f : List α → β) (xs : List α) : (along f xs).length = xs.length := by simp [along]

/-- The rows in front do not depend on the last one. -/
theorem along_concat (f : List α → β) (xs : List α) (x : α) : along f (xs ++ [x]) = along f xs ++ [f (xs ++ [x])] := by
  have hfront : ∀ k ∈ List.range xs.length, f ((xs ++ [x]).take (k + 1)) = f (xs.take (k + 1)) := fun k hk => by
    rw [List.take_append_of_le_length (List.mem_range.mp hk)]
  rw [along, List.length_append, List.length_singleton, List.range_succ, List.map_append, List.map_congr_left hfront]
  simp [along, List.take_of_length_le]

@[simp] theorem length_through (fs : List (List α → α)) (xs : List α) : (through fs xs).length = xs.length := by
  induction fs generalizing xs with
  | nil => rfl
  | cons f fs ih => simp [through, ih]

/-! ### Machines -/

/-- A layer of a machine: its state, the scratch memory and a row. -/
abbrev Step (σ ω ε α : Type) := σ → ω → α → Except ε (σ × ω × α)

/-- A row through all layers; without a state for each of them the rest is left out. -/
def pass : List (Step σ ω ε α) → List σ → ω → α → Except ε (List σ × ω × α)
  | l :: ls, s :: ss, w, x => do
    let (s, w, x) ← l s w x
    let (ss, w, x) ← pass ls ss w x
    .ok (s :: ss, w, x)
  | _, ss, w, x => .ok (ss, w, x)

/-- A layer of a machine and what it makes of the rows so far, up to `bound` of them.  It is given the place of a
row, and needs nothing of the scratch memory. -/
structure Kept (σ ω ε α : Type) (bound : ℕ) where
  step : Fin bound → Step σ ω ε α
  row : List α → α
  Holds : List α → σ → Prop
  next : ∀ {xs s} {place : Fin bound}, Holds xs s → (place : ℕ) = xs.length → ∀ w x,
    ∃ s' w', step place s w x = .ok (s', w', row (xs ++ [x])) ∧ Holds (xs ++ [x]) s'

variable {bound : ℕ}

/-- Every layer has kept the rows that have come to it. -/
def AllHold : List (Kept σ ω ε α bound) → List α → List σ → Prop
  | [], _, ss => ss = []
  | l :: ls, xs, ss => ∃ s rest, ss = s :: rest ∧ l.Holds xs s ∧ AllHold ls (along l.row xs) rest

theorem AllHold.length_eq {ls : List (Kept σ ω ε α bound)} {xs : List α} {ss : List σ} (h : AllHold ls xs ss) :
    ss.length = ls.length := by
  induction ls generalizing xs ss with
  | nil => exact congrArg List.length h
  | cons l ls ih =>
    obtain ⟨s, rest, rfl, -, htail⟩ := h
    rw [List.length_cons, List.length_cons, ih htail]

/-- In front of the first row. -/
theorem allHold_nil (ls : List (Kept σ ω ε α bound)) (zero : σ) (h : ∀ l ∈ ls, l.Holds [] zero) :
    AllHold ls [] (List.replicate ls.length zero) := by
  induction ls with
  | nil => rfl
  | cons l ls ih =>
    refine ⟨zero, List.replicate ls.length zero, rfl, h l List.mem_cons_self, ?_⟩
    exact ih fun l' hl' => h l' (List.mem_cons_of_mem _ hl')

/-- **One more row.** -/
theorem pass_kept (ls : List (Kept σ ω ε α bound)) {xs : List α} {ss : List σ} (place : Fin bound)
    (h : AllHold ls xs ss) (hplace : (place : ℕ) = xs.length) (w : ω) (x : α) :
    ∃ ss' w' y, pass (ls.map fun l => l.step place) ss w x = .ok (ss', w', y) ∧ AllHold ls (xs ++ [x]) ss' ∧
      through (ls.map Kept.row) (xs ++ [x]) = through (ls.map Kept.row) xs ++ [y] := by
  induction ls generalizing xs ss w x with
  | nil => exact ⟨ss, w, x, rfl, h, rfl⟩
  | cons l ls ih =>
    obtain ⟨s, rest, rfl, hhead, htail⟩ := h
    obtain ⟨s', w', hstep, hnext⟩ := l.next hhead hplace w x
    obtain ⟨rest', w'', y, hpass, hall, hrows⟩ := ih htail (by rwa [length_along]) w' (l.row (xs ++ [x]))
    refine ⟨s' :: rest', w'', y, ?_, ⟨s', rest', rfl, hnext, ?_⟩, ?_⟩
    · rw [List.map_cons, pass, hstep]
      exact congrArg (fun r => r >>= fun r => Except.ok (s' :: r.1, r.2.1, r.2.2)) hpass
    · rwa [along_concat]
    · rw [List.map_cons, through, through, along_concat]
      exact hrows

end Layers

end FortAI
