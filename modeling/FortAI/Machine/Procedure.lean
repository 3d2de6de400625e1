import Mathlib.Data.List.Basic

/-!
# Procedures

A procedure changes a state and returns a result or stops at an error; what it has changed by then
stays changed.

* `Procedure` : a monad, with a rule for each operation.
* `Procedure.run_bind` and the like : what a run returns.
* `Procedure.Ends` : what holds behind a procedure, with a rule for each operation.
* `Procedure.Faults` : which errors a procedure stops at, with a rule for each operation.
-/

namespace FortAI

/-- A procedure on states `σ` with errors `ε`. -/
def Procedure (σ ε α : Type) := σ → Except ε α × σ

namespace Procedure

variable {σ ε α β γ : Type}

/-! ### Operations -/

/-- The second procedure runs in the state that the first one leaves, unless that one fails. -/
def andThen (x : Procedure σ ε α) (f : α → Procedure σ ε β) : Procedure σ ε β := fun s =>
  match x s with
  | (.error e, s) => (.error e, s)
  | (.ok a, s) => f a s

instance : Monad (Procedure σ ε) where
  pure a s := (.ok a, s)
  bind := andThen

def fail (e : ε) : Procedure σ ε α := fun s => (.error e, s)

/-- The state. -/
def state : Procedure σ ε σ := fun s => (.ok s, s)

def modify (f : σ → σ) : Procedure σ ε Unit := fun s => (.ok (), f s)

/-- Stop with an error if a condition does not hold. -/
def require (c : Bool) (e : ε) : Procedure σ ε Unit := if c then pure () else fail e

/-! ### Runs -/

variable {s s' : σ} {x : Procedure σ ε α} {f : α → Procedure σ ε β}

@[simp] theorem run_pure (a : α) (s : σ) : (pure a : Procedure σ ε α) s = (.ok a, s) := rfl

@[simp] theorem run_fail (e : ε) (s : σ) : (fail e : Procedure σ ε α) s = (.error e, s) := rfl

@[simp] theorem run_state (s : σ) : (state : Procedure σ ε σ) s = (.ok s, s) := rfl

@[simp] theorem run_modify (g : σ → σ) (s : σ) : (modify g : Procedure σ ε Unit) s = (.ok (), g s) := rfl

@[simp] theorem run_ite (c : Prop) [Decidable c] (x y : Procedure σ ε α) (s : σ) :
    (if c then x else y) s = if c then x s else y s := by
  split_ifs <;> rfl

@[simp] theorem run_require (c : Bool) (e : ε) (s : σ) :
    (require c e : Procedure σ ε Unit) s = if c then (.ok (), s) else (.error e, s) := by
  cases c <;> rfl

@[simp] theorem run_bind (x : Procedure σ ε α) (f : α → Procedure σ ε β) (s : σ) : (x >>= f) s =
    match x s with
    | (.error e, s) => (.error e, s)
    | (.ok a, s) => f a s := rfl

@[simp] theorem run_map (g : α → β) (x : Procedure σ ε α) (s : σ) : (g <$> x) s =
    match x s with
    | (.error e, s) => (.error e, s)
    | (.ok a, s) => (.ok (g a), s) := rfl

theorem run_bind_of_ok {a : α} (h : x s = (.ok a, s')) : (x >>= f) s = f a s' := by
  show andThen x f s = f a s'
  rw [andThen, h]

theorem run_bind_of_error {e : ε} (h : x s = (.error e, s')) : (x >>= f) s = (.error e, s') := by
  show andThen x f s = (.error e, s')
  rw [andThen, h]

/-- A sequence returns what its second procedure returns behind the first one. -/
theorem run_bind_eq_ok {b : β} : (x >>= f) s = (.ok b, s') ↔ ∃ a s₁, x s = (.ok a, s₁) ∧ f a s₁ = (.ok b, s') := by
  refine ⟨fun h => ?_, fun ⟨a, s₁, hx, hf⟩ => (run_bind_of_ok hx).trans hf⟩
  rcases hx : x s with ⟨e | a, s₁⟩
  · rw [run_bind_of_error hx] at h
    cases h
  · exact ⟨a, s₁, rfl, (run_bind_of_ok hx).symm.trans h⟩

/-- A sequence stops in its first procedure or in its second one. -/
theorem run_bind_eq_error {e : ε} : (x >>= f) s = (.error e, s') ↔
    x s = (.error e, s') ∨ ∃ a s₁, x s = (.ok a, s₁) ∧ f a s₁ = (.error e, s') := by
  constructor
  · intro h
    rcases hx : x s with ⟨e' | a, s₁⟩
    · rw [run_bind_of_error hx] at h
      cases h
      exact .inl rfl
    · exact .inr ⟨a, s₁, rfl, (run_bind_of_ok hx).symm.trans h⟩
  · rintro (hx | ⟨a, s₁, hx, hf⟩)
    · exact run_bind_of_error hx
    · exact (run_bind_of_ok hx).trans hf

theorem andThen_pure (x : Procedure σ ε α) : andThen x (fun a => pure a) = x := by
  funext s
  rw [andThen]
  cases x s with
  | mk r s' => cases r <;> rfl

theorem andThen_assoc (x : Procedure σ ε α) (f : α → Procedure σ ε β) (g : β → Procedure σ ε γ) :
    andThen (andThen x f) g = andThen x fun a => andThen (f a) g := by
  funext s
  simp only [andThen]
  cases x s with
  | mk r s' => cases r <;> rfl

instance : LawfulMonad (Procedure σ ε) :=
  LawfulMonad.mk' (Procedure σ ε) andThen_pure (fun _ _ => rfl) andThen_assoc

/-! ### How a procedure ends -/

/-- The procedure returns a result in a state with `ok`, or it fails and leaves a state with `failed`. -/
def Ends (x : Procedure σ ε α) (s : σ) (ok : α → σ → Prop) (failed : σ → Prop) : Prop :=
  match x s with
  | (.ok a, s') => ok a s'
  | (.error _, s') => failed s'

variable {ok ok' : α → σ → Prop} {failed failed' : σ → Prop}

@[simp] theorem ends_pure {a : α} : (pure a : Procedure σ ε α).Ends s ok failed ↔ ok a s := Iff.rfl

@[simp] theorem ends_fail {e : ε} : (fail e : Procedure σ ε α).Ends s ok failed ↔ failed s := Iff.rfl

@[simp] theorem ends_state {ok : σ → σ → Prop} :
    (state : Procedure σ ε σ).Ends s ok failed ↔ ok s s := Iff.rfl

@[simp] theorem ends_modify {g : σ → σ} {ok : Unit → σ → Prop} :
    (modify g : Procedure σ ε Unit).Ends s ok failed ↔ ok () (g s) := Iff.rfl

@[simp] theorem ends_bind {ok : β → σ → Prop} :
    (x >>= f).Ends s ok failed ↔ x.Ends s (fun a s' => (f a).Ends s' ok failed) failed := by
  simp only [Ends, run_bind]
  cases x s with
  | mk r s' => cases r <;> rfl

/-- A condition that is required holds behind it. -/
@[simp] theorem ends_require {c : Bool} {e : ε} {ok : Unit → σ → Prop} :
    (require c e : Procedure σ ε Unit).Ends s ok failed ↔
      (c = true → ok () s) ∧ (c = false → failed s) := by
  cases c with
  | true => exact ⟨fun h => ⟨fun _ => h, nofun⟩, fun h => h.1 rfl⟩
  | false => exact ⟨fun h => ⟨nofun, fun _ => h⟩, fun h => h.2 rfl⟩

theorem ends_ite {c : Prop} [Decidable c] {x y : Procedure σ ε α} :
    (if c then x else y).Ends s ok failed ↔ (c → x.Ends s ok failed) ∧ (¬ c → y.Ends s ok failed) := by
  split_ifs with h
  · exact ⟨fun hx => ⟨fun _ => hx, fun hc => absurd h hc⟩, fun hx => hx.1 h⟩
  · exact ⟨fun hy => ⟨fun hc => absurd hc h, fun _ => hy⟩, fun hy => hy.2 h⟩

theorem Ends.mono (h : x.Ends s ok failed) (hok : ∀ a s, ok a s → ok' a s)
    (hfailed : ∀ s, failed s → failed' s) : x.Ends s ok' failed' := by
  unfold Ends at *
  split at h
  · exact hok _ _ h
  · exact hfailed _ h

theorem Ends.of_ok (h : x.Ends s ok failed) {a : α} (hrun : x s = (.ok a, s')) : ok a s' := by
  rw [Ends, hrun] at h
  exact h

/-! ### The errors of a procedure -/

/-- The procedure stops at no other errors than these, from whatever state. -/
def Faults (x : Procedure σ ε α) (E : ε → Prop) : Prop := ∀ s e s', x s = (.error e, s') → E e

variable {E : ε → Prop}

theorem faults_pure (a : α) : (pure a : Procedure σ ε α).Faults E := by
  intro s e s' h
  cases h

theorem faults_state : (state : Procedure σ ε σ).Faults E := by
  intro s e s' h
  cases h

theorem faults_modify (g : σ → σ) : (modify g : Procedure σ ε Unit).Faults E := by
  intro s e s' h
  cases h

theorem faults_fail {e : ε} (he : E e) : (fail e : Procedure σ ε α).Faults E := by
  intro s e' s' h
  cases h
  exact he

theorem faults_require {c : Bool} {e : ε} (he : c = false → E e) :
    (require c e : Procedure σ ε Unit).Faults E := by
  cases c with
  | true => exact faults_pure ()
  | false => exact faults_fail (he rfl)

theorem Faults.bind (hx : x.Faults E) (hf : ∀ a, (f a).Faults E) : (x >>= f).Faults E := by
  intro s e s' h
  rcases run_bind_eq_error.mp h with h | ⟨a, s₁, -, h⟩
  · exact hx s e s' h
  · exact hf a s₁ e s' h

theorem Faults.ite {c : Prop} [Decidable c] {x y : Procedure σ ε α} (hx : c → x.Faults E)
    (hy : ¬ c → y.Faults E) : (if c then x else y).Faults E := by
  split_ifs with h
  · exact hx h
  · exact hy h

end Procedure

end FortAI
