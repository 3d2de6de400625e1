import FortAI.Machine.Storage

/-!
# Positions in a text

A reader that works with positions looks at one element of a text at a time, and every look is checked
against the bounds.  The same reader can be written on what stands from its position on; then there is
nothing to check.

* `At` : what stands from a position on, with what one look or one step does (`At.load`, `At.next`).
* `Reads` : the reader at positions does what the other one does, and so never looks outside of the
  text; with a rule for two readers in a row (`Reads.bind`).
-/

namespace FortAI

namespace Position

open Storage

universe u

variable {α β : Type u} {ρ : Type u}

/-- The position is in the text or right behind it, and `s` is what stands from there on. -/
def At (text : List ρ) (p : ℕ) (s : List ρ) : Prop := ∃ front, text = front ++ s ∧ p = front.length + 1

namespace At

variable {text s : List ρ} {b : ρ} {p : ℕ}

theorem start (text : List ρ) : At text 1 text := ⟨[], rfl, rfl⟩

theorem length_eq (h : At text p s) : p + s.length = text.length + 1 := by
  obtain ⟨front, rfl, rfl⟩ := h
  rw [List.length_append]
  omega

theorem pos (h : At text p s) : 1 ≤ p := by
  obtain ⟨front, -, rfl⟩ := h
  exact Nat.le_add_left 1 _

theorem load (h : At text p (b :: s)) {E : Type} : (load (some text) p : Checked E ρ) = .ok b := by
  obtain ⟨front, rfl, rfl⟩ := h
  have hlt : front.length < (front ++ b :: s).length := by rw [List.length_append, List.length_cons]; omega
  rw [load_getD hlt b, List.getD_eq_getElem?_getD, List.getElem?_append_right (Nat.le_refl _), Nat.sub_self]
  rfl

theorem next (h : At text p (b :: s)) : At text (p + 1) s := by
  obtain ⟨front, rfl, rfl⟩ := h
  exact ⟨front ++ [b], by rw [List.append_assoc]; rfl, by rw [List.length_append]; rfl⟩

theorem skip {t : List ρ} (h : At text p (t ++ s)) : At text (p + t.length) s := by
  obtain ⟨front, rfl, rfl⟩ := h
  exact ⟨front ++ t, by rw [List.append_assoc], by rw [List.length_append]; omega⟩

theorem drop (h : At text p s) {n : ℕ} (hn : n ≤ s.length) : At text (p + n) (s.drop n) := by
  have hskip : At text (p + (s.take n).length) (s.drop n) := skip (by rwa [List.take_append_drop])
  rwa [List.length_take_of_le hn] at hskip

/-- A part of the text. -/
theorem substring (h : At text p s) {n : ℕ} (hn : n ≤ s.length) {E : Type} :
    (substring text p (p + n - 1) : Checked E (List ρ)) = .ok (s.take n) := by
  obtain ⟨front, rfl, rfl⟩ := h
  have hlast : front.length + 1 + n - 1 = front.length + n := by omega
  rw [hlast, substring_eq (by rw [List.length_append]; omega), List.drop_left]

/-- The position is in the text as long as something stands there. -/
theorem le_iff (h : At text p s) : p ≤ text.length ↔ s ≠ [] := by
  have hlength := h.length_eq
  rw [← List.length_pos_iff]
  omega

/-- What stands at a position is determined. -/
theorem unique {s' : List ρ} (h : At text p s) (h' : At text p s') : s = s' := by
  obtain ⟨front, hs, hp⟩ := h
  obtain ⟨front', hs', hp'⟩ := h'
  exact (List.append_inj (hs.symm.trans hs') (by omega)).2

end At

/-- A reader that gives up leaves its caller no result. -/
def refuse : Checked Unit α := .error (.refused ())

/-- The reader at positions returns what the reader of the rest of the text returns, and it stops where
that one stops. -/
def Reads (text : List ρ) (x : Checked Unit (α × ℕ)) (r : Option (α × List ρ)) : Prop :=
  r.elim (x = refuse) fun r => ∃ p, x = .ok (r.1, p) ∧ At text p r.2

namespace Reads

variable {text : List ρ} {x : Checked Unit (α × ℕ)} {r : Option (α × List ρ)}

theorem none : Reads text (refuse : Checked Unit (α × ℕ)) none := rfl

theorem some {a : α} {p : ℕ} {s : List ρ} (h : At text p s) :
    Reads text (.ok (a, p)) (.some (a, s)) := ⟨p, rfl, h⟩

/-- Two readers in a row. -/
theorem bind (h : Reads text x r) {f : α × ℕ → Checked Unit (β × ℕ)} {g : α × List ρ → Option (β × List ρ)}
    (hf : ∀ a p s, r = .some (a, s) → At text p s → Reads text (f (a, p)) (g (a, s))) :
    Reads text (x >>= f) (r.bind g) := by
  cases r with
  | none =>
    have hx : x = refuse := h
    rw [hx]
    exact none
  | some r =>
    obtain ⟨p, hx, hat⟩ := h
    rw [hx, ok_bind]
    exact hf r.1 p r.2 rfl hat

end Reads

end Position

end FortAI
