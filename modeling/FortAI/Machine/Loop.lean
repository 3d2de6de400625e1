import Mathlib.Algebra.GroupWithZero.Nat
import Mathlib.Data.List.Basic

/-!
# Loops with early exits

A loop body decides, from the state at the head of the loop, whether to go round again, to leave
the loop, or to give up and return from the enclosing function.  `Loop.run` iterates a body for
a bounded number of passes; `Loop.trace` records what each pass did.  `Loop.emit` is the same for a
loop that appends to an output.

* `Loop.run_induction` : the invariant rule.  What every pass preserves, as long as the passes
  recorded in the trace meet a side condition, holds when the loop ends.
* `Loop.passes_iff` : all passes end well exactly when all start well.
* `Loop.run_tally` : a counter against what the passes are worth, one by one.
* `Loop.run_ne_exhausted` : a measure that drops with every pass bounds the number of passes.
-/

namespace FortAI

/-- What one pass through a loop body decides; `e` records which branch was taken. -/
inductive Flow (S E : Type*)
  /-- Go round again. -/
  | next (e : E) (s : S)
  /-- Leave the loop. -/
  | done (e : E) (s : S)
  /-- Return from the enclosing function with an error. -/
  | abort (e : E) (s : S)

/-- How a loop ended. -/
inductive Ending (S : Type*)
  | finished (s : S)
  | aborted (s : S)
  /-- The bound on the number of passes was reached at `s`. -/
  | exhausted (s : S)

namespace Loop

variable {S E : Type*} (body : S → Flow S E)

/-- At most `n` passes through `body`. -/
def run : ℕ → S → Ending S
  | 0, s => .exhausted s
  | n + 1, s =>
    match body s with
    | .next _ s' => run n s'
    | .done _ s' => .finished s'
    | .abort _ s' => .aborted s'

/-- What the passes of `run` did, in order. -/
def trace : ℕ → S → List E
  | 0, _ => []
  | n + 1, s =>
    match body s with
    | .next e s' => e :: trace n s'
    | .done e _ => [e]
    | .abort e _ => [e]

/-- The passes of `run` that did not give up: head state, branch, state after the pass. -/
def passes : ℕ → S → List (S × E × S)
  | 0, _ => []
  | n + 1, s =>
    match body s with
    | .next e s' => (s, e, s') :: passes n s'
    | .done e s' => [(s, e, s')]
    | .abort _ _ => []

variable {body}

theorem run_of_next {n : ℕ} {s s' : S} {e : E} (h : body s = .next e s') :
    run body (n + 1) s = run body n s' := by
  rw [run, h]

theorem run_of_done {n : ℕ} {s s' : S} {e : E} (h : body s = .done e s') :
    run body (n + 1) s = .finished s' := by
  rw [run, h]

theorem run_of_abort {n : ℕ} {s s' : S} {e : E} (h : body s = .abort e s') :
    run body (n + 1) s = .aborted s' := by
  rw [run, h]

/-- **Invariant rule.**  `I` holds at every loop head; `P` is what a pass that leaves the loop
establishes and `Q` what a pass that gives up establishes. -/
theorem run_induction (body : S → Flow S E) (I P Q : S → Prop) (C : E → Prop)
    (hnext : ∀ s e s', I s → C e → body s = .next e s' → I s')
    (hdone : ∀ s e s', I s → C e → body s = .done e s' → P s')
    (habort : ∀ s e s', I s → C e → body s = .abort e s' → Q s') :
    ∀ (n : ℕ) (s : S), I s → (∀ e ∈ trace body n s, C e) →
      match run body n s with
      | .finished s' => P s'
      | .aborted s' => Q s'
      | .exhausted s' => I s' := by
  intro n
  induction n with
  | zero => intro s hI _; exact hI
  | succ n ih =>
    intro s hI hC
    cases hb : body s with
    | next e s' =>
      simp only [trace, hb, List.mem_cons, forall_eq_or_imp] at hC
      have := ih s' (hnext s e s' hI hC.1 hb) hC.2
      simpa only [run, hb] using this
    | done e s' =>
      simp only [trace, hb, List.mem_singleton, forall_eq] at hC
      simpa only [run, hb] using hdone s e s' hI hC hb
    | abort e s' =>
      simp only [trace, hb, List.mem_singleton, forall_eq] at hC
      simpa only [run, hb] using habort s e s' hI hC hb

/-- If a pass from a state in `P` ends in `P` exactly when its head state meets `C`, then all passes
of a run end in `P` exactly when all their head states meet `C`. -/
theorem passes_iff {P C : S → Prop}
    (hnext : ∀ s e s', P s → body s = .next e s' → (P s' ↔ C s))
    (hdone : ∀ s e s', P s → body s = .done e s' → (P s' ↔ C s)) :
    ∀ (n : ℕ) (s : S), P s →
      ((∀ p ∈ passes body n s, P p.2.2) ↔ ∀ p ∈ passes body n s, C p.1) := by
  intro n
  induction n with
  | zero => intro s _; simp [passes]
  | succ n ih =>
    intro s hP
    cases hb : body s with
    | next e s' =>
      simp only [passes, hb, List.mem_cons, forall_eq_or_imp]
      constructor
      · rintro ⟨h, hrest⟩
        exact ⟨(hnext s e s' hP hb).mp h, (ih s' h).mp hrest⟩
      · rintro ⟨h, hrest⟩
        have hP' := (hnext s e s' hP hb).mpr h
        exact ⟨hP', (ih s' hP').mpr hrest⟩
    | done e s' => simpa only [passes, hb, List.mem_singleton, forall_eq] using hdone s e s' hP hb
    | abort e s' => simp [passes, hb]

theorem of_mem_passes {n : ℕ} {s : S} {p : S × E × S} (h : p ∈ passes body n s) :
    body p.1 = .next p.2.1 p.2.2 ∨ body p.1 = .done p.2.1 p.2.2 := by
  induction n generalizing s with
  | zero => cases h
  | succ n ih =>
    cases hb : body s with
    | next e s' =>
      simp only [passes, hb, List.mem_cons] at h
      rcases h with rfl | h
      · exact .inl hb
      · exact ih h
    | done e s' =>
      simp only [passes, hb, List.mem_singleton] at h
      subst h
      exact .inr hb
    | abort e s' => simp [passes, hb] at h

/-- A counter that no pass leaves below its weight is, at the end, what all passes weigh exactly when it
is in every pass. -/
theorem run_tally {f w : S → ℕ} {C : S → Prop}
    (hpass : ∀ s e s', body s = .next e s' ∨ body s = .done e s' →
      f s + w s ≤ f s' ∧ (f s' = f s + w s ↔ C s)) :
    ∀ {n : ℕ} {s s' : S}, run body n s = .finished s' →
      f s + ((passes body n s).map fun p => w p.1).sum ≤ f s' ∧
        (f s' = f s + ((passes body n s).map fun p => w p.1).sum ↔ ∀ p ∈ passes body n s, C p.1) := by
  intro n
  induction n with
  | zero => intro s s' h; cases h
  | succ n ih =>
    intro s s' h
    cases hb : body s with
    | next e s₁ =>
      simp only [run, hb] at h
      obtain ⟨hle, heq⟩ := hpass s e s₁ (.inl hb)
      obtain ⟨hrest, hiff⟩ := ih h
      simp only [passes, hb, List.map_cons, List.sum_cons, List.mem_cons, forall_eq_or_imp]
      -- nothing is made up for in later passes
      rw [← heq, ← hiff]
      omega
    | done e s₁ =>
      simp only [run, hb, Ending.finished.injEq] at h
      subst h
      simpa only [passes, hb, List.map_cons, List.map_nil, List.sum_cons, List.sum_nil, List.mem_singleton,
        forall_eq, Nat.add_zero] using hpass s e s₁ (.inr hb)
    | abort e s₁ => simp [run, hb] at h

/-- A counter that every pass moves by its weight moves by the weight of all passes. -/
theorem run_sum {f w : S → ℕ}
    {n : ℕ} {s s' : S} (hpass : ∀ p ∈ passes body n s, f p.2.2 = f p.1 + w p.1)
    (h : run body n s = .finished s') : f s' = f s + ((passes body n s).map fun p => w p.1).sum := by
  induction n generalizing s with
  | zero => cases h
  | succ n ih =>
    cases hb : body s with
    | next e s₁ =>
      simp only [run, hb] at h
      simp only [passes, hb, List.mem_cons, forall_eq_or_imp] at hpass ⊢
      rw [ih hpass.2 h, hpass.1, List.map_cons, List.sum_cons, Nat.add_assoc]
    | done e s₁ =>
      simp only [run, hb, Ending.finished.injEq] at h
      subst h
      simp only [passes, hb, List.mem_singleton, forall_eq] at hpass ⊢
      rw [hpass, List.map_singleton, List.sum_singleton]
    | abort e s₁ => simp [run, hb] at h

/-- A loop that finished only took passes that went round again or left the loop. -/
theorem trace_of_finished :
    ∀ {n : ℕ} {s s' : S}, run body n s = .finished s' → ∀ e ∈ trace body n s,
      ∃ s₁ s₂, body s₁ = .next e s₂ ∨ body s₁ = .done e s₂ := by
  intro n
  induction n with
  | zero => intro s s' h; cases h
  | succ n ih =>
    intro s s' h e he
    cases hb : body s with
    | next e₁ s₁ =>
      simp only [run, hb] at h
      simp only [trace, hb, List.mem_cons] at he
      rcases he with rfl | he
      · exact ⟨s, s₁, .inl hb⟩
      · exact ih h e he
    | done e₁ s₁ =>
      simp only [trace, hb, List.mem_singleton] at he
      exact ⟨s, s₁, .inr (he ▸ hb)⟩
    | abort e₁ s₁ => simp [run, hb] at h

/-- A measure that drops with every round is a bound on the number of passes. -/
theorem run_ne_exhausted (I : S → Prop) (μ : S → ℕ)
    (hnext : ∀ s e s', I s → body s = .next e s' → I s' ∧ μ s' < μ s) :
    ∀ (n : ℕ) (s : S), I s → μ s < n → ∀ s', run body n s ≠ .exhausted s' := by
  intro n
  induction n with
  | zero => intro s _ h; omega
  | succ n ih =>
    intro s hI hn s'
    cases hb : body s with
    | next e s₁ =>
      obtain ⟨hI₁, hμ⟩ := hnext s e s₁ hI hb
      simpa only [run, hb] using ih s₁ hI₁ (by omega) s'
    | done e s₁ => simp [run, hb]
    | abort e s₁ => simp [run, hb]

/-! ### Loops that append to an output -/

section Emit

variable {O : Type*}

/-- At most `n` turns of a loop whose turns append to an output and name the next state; `none` when
it has not ended by then. -/
def emit (turn : S → List O × Option S) : ℕ → S → Option (List O)
  | 0, _ => none
  | n + 1, s =>
    match turn s with
    | (out, none) => some out
    | (out, some s') => (emit turn n s').map (out ++ ·)

end Emit

end Loop

end FortAI
