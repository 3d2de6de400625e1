import Mathlib.Data.List.Basic

/-!
# Systems that answer one request at a time

A `System` is a state machine driven from outside: each input is answered with an output and
changes the state.  `System.after` runs a list of inputs, and `System.Along` says that a property of
state and input holds at every step of such a run.

* `System.invariant_along` : what every step that meets a condition preserves holds after every run of such steps.
* `System.forall_prefix_iff` : a property holds all along a run exactly when every step keeps it.
-/

namespace FortAI

/-- A state machine with inputs `J` and outputs `O`. -/
structure System (S J O : Type*) where
  /-- The answer to an input, and the state it leaves. -/
  step : S → J → O × S

namespace System

variable {S J O : Type*} (A : System S J O)

/-- The state after a list of inputs. -/
def after : S → List J → S
  | s, [] => s
  | s, i :: is => after (A.step s i).2 is

/-- Every step of the run of `is` from `s` meets `P` (of the state before it and its input). -/
def Along (P : S → J → Prop) : S → List J → Prop
  | _, [] => True
  | s, i :: is => P s i ∧ Along P (A.step s i).2 is

instance decidableAlong (P : S → J → Prop) [∀ s i, Decidable (P s i)] :
    ∀ (s : S) (is : List J), Decidable (A.Along P s is)
  | _, [] => .isTrue trivial
  | s, i :: is =>
    have := decidableAlong P (A.step s i).2 is
    inferInstanceAs (Decidable (_ ∧ _))

variable {A}

@[simp] theorem after_nil (s : S) : A.after s [] = s := rfl

@[simp] theorem after_cons (s : S) (i : J) (is : List J) :
    A.after s (i :: is) = A.after (A.step s i).2 is := rfl

theorem invariant_along {I : S → Prop} {P : S → J → Prop}
    (hstep : ∀ s i, I s → P s i → I (A.step s i).2) :
    ∀ (is : List J) (s : S), I s → A.Along P s is → I (A.after s is) := by
  intro is
  induction is with
  | nil => intro s h _; exact h
  | cons i is ih => intro s h hP; exact ih _ (hstep s i h hP.1) hP.2

/-- What a step keeps exactly when `Q` holds of it, as long as `K` does, holds all along the runs of
such steps and no others. -/
theorem forall_prefix_iff {I K : S → Prop} {P Q : S → J → Prop}
    (hkeep : ∀ s i, K s → P s i → K (A.step s i).2)
    (hstep : ∀ s i, K s → I s → P s i → (I (A.step s i).2 ↔ Q s i)) :
    ∀ (is : List J) (s : S), K s → I s → A.Along P s is →
      ((∀ is', is' <+: is → I (A.after s is')) ↔ A.Along Q s is) := by
  intro is
  induction is with
  | nil =>
    intro s _ h _
    exact iff_of_true (fun is' his' => List.prefix_nil.mp his' ▸ h) trivial
  | cons i is ih =>
    rintro s hK h ⟨hP, hPs⟩
    have hrest := ih _ (hkeep s i hK hP)
    constructor
    · intro hall
      have hnext : I (A.step s i).2 := hall [i] (List.cons_prefix_cons.mpr ⟨rfl, List.nil_prefix⟩)
      exact ⟨(hstep s i hK h hP).mp hnext, (hrest hnext hPs).mp fun is' his' =>
        hall (i :: is') (List.cons_prefix_cons.mpr ⟨rfl, his'⟩)⟩
    · rintro ⟨hQ, hQs⟩ is' his'
      have hnext := (hstep s i hK h hP).mpr hQ
      cases is' with
      | nil => exact h
      | cons i' is' =>
        obtain ⟨rfl, hprefix⟩ := List.cons_prefix_cons.mp his'
        exact (hrest hnext hPs).mpr hQs is' hprefix

end System

end FortAI
