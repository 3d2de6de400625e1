import FortAI.Machine.Binary
import Mathlib.Data.List.Forall2

/-!
# Scanners

A program that reads a file from the front to the back, asks for resources on the way, and stops at
the first error.

* `Scanner` : such a program; it leaves a suffix of what it is given.
* `Yields` : what it returns, with a rule for each operation.
* `Ensures` : a property of all that it may return.
-/

namespace FortAI

open Binary

/-- A program that reads a file: what it asks for, in the order of the requests, and the error it
stops with or its result and what is left of the file. -/
structure Scanner (ρ ε α : Type) where
  run : Bytes → List ρ × Except ε (α × Bytes)
  suffix : ∀ rest a after, (run rest).2 = .ok (a, after) → after <:+ rest

namespace Scanner

variable {ρ ε α β : Type}

/-- The scanner stops at `after` with this result. -/
def Yields (x : Scanner ρ ε α) (rest : Bytes) (a : α) (after : Bytes) : Prop :=
  (x.run rest).2 = .ok (a, after)

/-! ### Operations -/

theorem suffix_of_ok {rest after : Bytes} {a b : α}
    (h : (Except.ok (a, rest) : Except ε (α × Bytes)) = .ok (b, after)) : after <:+ rest :=
  (Prod.mk.inj (Except.ok.inj h)).2 ▸ List.suffix_rfl

/-- Return a value. -/
def ret (a : α) : Scanner ρ ε α := ⟨fun rest => ([], .ok (a, rest)), fun _ _ _ => suffix_of_ok⟩

/-- Run one scanner, and then another one on what it leaves. -/
def runThen (x : Scanner ρ ε α) (f : α → Scanner ρ ε β) (rest : Bytes) :
    List ρ × Except ε (β × Bytes) :=
  match (x.run rest).2 with
  | .error e => ((x.run rest).1, .error e)
  | .ok (a, after) => ((x.run rest).1 ++ ((f a).run after).1, ((f a).run after).2)

theorem runThen_eq_ok {x : Scanner ρ ε α} {f : α → Scanner ρ ε β} {rest : Bytes} {b : β}
    {after : Bytes} : (runThen x f rest).2 = .ok (b, after) ↔
      ∃ a mid, x.Yields rest a mid ∧ (f a).Yields mid b after := by
  rw [runThen]
  constructor
  · intro h
    cases hx : (x.run rest).2 with
    | error e =>
      rw [hx] at h
      cases h
    | ok r =>
      rw [hx] at h
      exact ⟨r.1, r.2, hx, h⟩
  · rintro ⟨a, mid, hx, hf⟩
    rw [Yields] at hx
    rw [hx]
    exact hf

theorem suffix_runThen (x : Scanner ρ ε α) (f : α → Scanner ρ ε β) (rest : Bytes) (b : β)
    (after : Bytes) (h : (runThen x f rest).2 = .ok (b, after)) : after <:+ rest := by
  obtain ⟨a, mid, hx, hf⟩ := runThen_eq_ok.mp h
  exact ((f a).suffix mid b after hf).trans (x.suffix rest a mid hx)

instance : Monad (Scanner ρ ε) where
  pure := ret
  bind x f := ⟨runThen x f, suffix_runThen x f⟩

/-- Stop with an error. -/
def fail (e : ε) : Scanner ρ ε α := ⟨fun _ => ([], .error e), fun _ _ _ h => nomatch h⟩

/-- Ask for something. -/
def ask (r : ρ) : Scanner ρ ε Unit := ⟨fun rest => ([r], .ok ((), rest)), fun _ _ _ => suffix_of_ok⟩

/-- How much is left. -/
def left : Scanner ρ ε ℕ := ⟨fun rest => ([], .ok (rest.length, rest)), fun _ _ _ => suffix_of_ok⟩

/-- The bytes that are read, or this error. -/
def readOr (n : ℕ) (e : ε) (rest : Bytes) : Except ε (Bytes × Bytes) :=
  match Binary.read n rest with
  | none => .error e
  | some r => .ok r

theorem readOr_eq_ok {n : ℕ} {e : ε} {rest s after : Bytes} :
    readOr n e rest = .ok (s, after) ↔ rest = s ++ after ∧ s.length = n := by
  rw [readOr, ← read_eq_some]
  cases Binary.read n rest with
  | none => exact iff_of_false (fun h => nomatch h) (fun h => nomatch h)
  | some r => exact ⟨fun h => congrArg some (Except.ok.inj h), fun h => congrArg Except.ok (Option.some.inj h)⟩

theorem suffix_readOr {n : ℕ} {e : ε} (rest s after : Bytes) (h : readOr n e rest = .ok (s, after)) :
    after <:+ rest := ⟨s, (readOr_eq_ok.mp h).1.symm⟩

/-- The next bytes. -/
def next (n : ℕ) (e : ε) : Scanner ρ ε Bytes := ⟨fun rest => ([], readOr n e rest), suffix_readOr⟩

/-- The next integer. -/
def nextInt (w : Width) (e : ε) : Scanner ρ ε ℤ := do
  let s ← next w.size e
  pure (signed w (unsigned s))

/-- The same for each element of a list. -/
def each (f : β → Scanner ρ ε α) : List β → Scanner ρ ε (List α)
  | [] => pure []
  | b :: bs => do
    let a ← f b
    let as ← each f bs
    pure (a :: as)

/-- The same some number of times. -/
def times (n : ℕ) (x : Scanner ρ ε α) : Scanner ρ ε (List α) := each (fun _ => x) (List.replicate n ())

/-! ### Rules -/

variable {rest after : Bytes}

@[simp] theorem yields_pure {a b : α} :
    (pure a : Scanner ρ ε α).Yields rest b after ↔ a = b ∧ rest = after :=
  ⟨fun h => Prod.mk.inj (Except.ok.inj h), fun h => by rw [h.1, h.2]; rfl⟩

@[simp] theorem yields_bind {x : Scanner ρ ε α} {f : α → Scanner ρ ε β} {b : β} :
    (x >>= f).Yields rest b after ↔ ∃ a mid, x.Yields rest a mid ∧ (f a).Yields mid b after :=
  runThen_eq_ok

@[simp] theorem yields_fail {e : ε} {a : α} : ¬ (fail e : Scanner ρ ε α).Yields rest a after :=
  fun h => nomatch h

@[simp] theorem yields_ask {r : ρ} : (ask r : Scanner ρ ε Unit).Yields rest () after ↔ rest = after :=
  ⟨fun h => (Prod.mk.inj (Except.ok.inj h)).2, fun h => by rw [h]; rfl⟩

@[simp] theorem yields_left {n : ℕ} :
    (left : Scanner ρ ε ℕ).Yields rest n after ↔ rest.length = n ∧ rest = after :=
  ⟨fun h => Prod.mk.inj (Except.ok.inj h), fun h => by rw [← h.1, h.2]; rfl⟩

@[simp] theorem yields_next {n : ℕ} {e : ε} {s : Bytes} :
    (next n e : Scanner ρ ε Bytes).Yields rest s after ↔ rest = s ++ after ∧ s.length = n := readOr_eq_ok

theorem Yields.bind {x : Scanner ρ ε α} {f : α → Scanner ρ ε β} {a : α} {mid : Bytes} {b : β}
    (hx : x.Yields rest a mid) (hf : (f a).Yields mid b after) : (x >>= f).Yields rest b after :=
  yields_bind.mpr ⟨a, mid, hx, hf⟩

theorem yields_encode (w : Width) (e : ε) (x : ℤ) (after : Bytes) :
    (nextInt w e : Scanner ρ ε ℤ).Yields (encode w x ++ after) (wrap w x) after :=
  (yields_next.mpr ⟨rfl, length_encode w x⟩).bind (yields_pure.mpr ⟨signed_unsigned_encode w x, rfl⟩)

/-- What is returned for the encodings of elements, one behind the other. -/
theorem yields_times {γ : Type} {x : Scanner ρ ε α} {encoding : γ → Bytes} {R : γ → α → Prop} {l : List γ}
    (h : ∀ c ∈ l, ∀ after, ∃ a, x.Yields (encoding c ++ after) a after ∧ R c a) (after : Bytes) :
    ∃ as, (times l.length x).Yields (l.flatMap encoding ++ after) as after ∧ List.Forall₂ R l as := by
  induction l with
  | nil => exact ⟨[], yields_pure.mpr ⟨rfl, rfl⟩, List.Forall₂.nil⟩
  | cons c l ih =>
    obtain ⟨a, ha, hR⟩ := h c List.mem_cons_self (l.flatMap encoding ++ after)
    obtain ⟨as, has, hall⟩ := ih fun c' hc' => h c' (List.mem_cons_of_mem c hc')
    refine ⟨a :: as, ?_, List.Forall₂.cons hR hall⟩
    rw [List.flatMap_cons, List.append_assoc]
    exact ha.bind (has.bind (yields_pure.mpr ⟨rfl, rfl⟩))

theorem Yields.length_le {x : Scanner ρ ε α} {a : α} (h : x.Yields rest a after) :
    after.length ≤ rest.length := (x.suffix rest a after h).length_le

/-- What the scanner returns for each element of a list it may return for that element. -/
theorem Yields.forall₂ {f : β → Scanner ρ ε α} {bs : List β} {as : List α}
    (h : (each f bs).Yields rest as after) :
    List.Forall₂ (fun b a => ∃ rest after, (f b).Yields rest a after) bs as := by
  induction bs generalizing rest after as with
  | nil =>
    rw [each, yields_pure] at h
    rw [← h.1]
    exact List.Forall₂.nil
  | cons b bs ih =>
    rw [each, yields_bind] at h
    obtain ⟨a, mid, ha, h⟩ := h
    rw [yields_bind] at h
    obtain ⟨as', mid', has, h⟩ := h
    rw [← (yields_pure.mp h).1]
    exact List.Forall₂.cons ⟨rest, mid, ha⟩ (ih has)

/-! ### What holds of a result -/

/-- What the scanner returns has a property. -/
def Ensures (x : Scanner ρ ε α) (P : α → Prop) : Prop := ∀ ⦃rest a after⦄, x.Yields rest a after → P a

variable {P : α → Prop} {Q : β → Prop}

theorem ensures_true (x : Scanner ρ ε α) : x.Ensures fun _ => True := fun _ _ _ _ => trivial

theorem ensures_pure {a : α} (h : P a) : (pure a : Scanner ρ ε α).Ensures P :=
  fun _ _ _ hyields => (yields_pure.mp hyields).1 ▸ h

theorem ensures_fail {e : ε} : (fail e : Scanner ρ ε α).Ensures P :=
  fun _ _ _ hyields => absurd hyields yields_fail

theorem Ensures.bind {x : Scanner ρ ε α} {f : α → Scanner ρ ε β} (hx : x.Ensures P)
    (hf : ∀ a, P a → (f a).Ensures Q) : (x >>= f).Ensures Q := by
  intro rest b after h
  obtain ⟨a, mid, ha, hb⟩ := yields_bind.mp h
  exact hf a (hx ha) hb

/-- Of the first result nothing has to be known. -/
theorem ensures_bind {x : Scanner ρ ε α} {f : α → Scanner ρ ε β} (hf : ∀ a, (f a).Ensures Q) :
    (x >>= f).Ensures Q := (ensures_true x).bind fun a _ => hf a

theorem Ensures.ite {c : Prop} [Decidable c] {x y : Scanner ρ ε α} (hx : c → x.Ensures P)
    (hy : ¬ c → y.Ensures P) : (if c then x else y).Ensures P := by
  split_ifs with hc
  · exact hx hc
  · exact hy hc

theorem ensures_next {n : ℕ} {e : ε} : (next n e : Scanner ρ ε Bytes).Ensures fun s => s.length = n :=
  fun _ _ _ h => (yields_next.mp h).2

theorem ensures_nextInt {w : Width} {e : ε} :
    (nextInt w e : Scanner ρ ε ℤ).Ensures fun x => -(w.limit : ℤ) ≤ x ∧ x < w.limit :=
  ensures_next.bind fun _ hs => ensures_pure (signed_mem w (unsigned_lt w hs))

theorem Ensures.times {x : Scanner ρ ε α} {n : ℕ} (hx : x.Ensures P) :
    (times n x).Ensures fun as => as.length = n ∧ ∀ a ∈ as, P a := by
  intro rest as after h
  have hall := Yields.forall₂ h
  refine ⟨by rw [← hall.length_eq, List.length_replicate], fun a ha => ?_⟩
  have hand := hall.flip.imp fun _ _ ha => And.intro ha trivial
  obtain ⟨rest', after', hyields⟩ := ((List.forall₂_and_left as _).mp hand).1 a ha
  exact hx hyields

end Scanner

end FortAI
