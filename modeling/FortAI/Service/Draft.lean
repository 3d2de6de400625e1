import FortAI.Service.Deterministic
import FortAI.Service.Prompt

/-!
# The standalone draft

A standalone draft model is to consume what the target consumes.  In the prompt phase it does.  In
the generation loop the draft is fed after `CURRENT` has been overwritten with the target's answer,
so the two stay level only as long as the target answers every token with that same token.

* `greedyAnswer` : the tokens the target answers in a pass, from the state before it.
* `advance_synced_iff` : one pass.
* `draft_synced_iff` : a whole request.
-/

namespace FortAI

open Arithmetic

variable {Ω Δ R D : Type} [Arithmetic R D]

/-- The draft has consumed the tokens the target has, at the same positions. -/
def Synced (g : Locals Ω Δ R) : Prop := g.draft.consumed = g.model.consumed

instance (g : Locals Ω Δ R) : Decidable (Synced g) := inferInstanceAs (Decidable (_ = _))

/-- What the target answers to the current token on the scalar path. -/
def scalarAnswer (A : Answers Ω R) (model : Live Ω) (current : Token) (position : ℕ) :
    Option (List Token) :=
  match (model.forwardGreedy A current position true).1 with
  | .ok next => some [next]
  | .error _ => none

/-- What the target answers to the current token in a request without logits: the tokens of a
verification batch, or the next token. -/
def greedyAnswer (A : Answers Ω R) (c : Call R) (position : ℕ) (g : Locals Ω Δ R) :
    Option (List Token) :=
  if g.useNativeMtp && decide (c.maxTokens.toNat - g.generatedIds.length ≥ 2) then
    match g.model.forwardGreedySpeculative A g.current position with
    | (.ok tokens, _) => some tokens
    | (.error .unsupported, model) => scalarAnswer A model g.current position
    | (.error _, _) => none
  else scalarAnswer A g.model g.current position

/-- The pass from the loop head `g` emits the current token and advances the model. -/
def advances (setup : Setup) (c : Call R) (ids : List Token) (g : Locals Ω Δ R) : Bool :=
  decide (g.generatedIds.length + 1 < c.maxTokens.toNat) &&
    decide (ids.length + g.generatedIds.length < setup.maxContext) && decide (0 ≤ g.current) &&
    !stops setup c g.current

/-- In the pass from the loop head `g` the target, if it is called, consumes the current token alone
and answers with that same token. -/
def RepeatsCurrent (setup : Setup) (A : Answers Ω R) (c : Call R) (ids : List Token)
    (g : Locals Ω Δ R) : Prop :=
  advances setup c ids g = true →
    greedyAnswer A c (ids.length + g.generatedIds.length) (emit ids g.current g) = some [g.current]

variable {setup : Setup} {A : Answers Ω R} {B : Answers Δ R} {c : Call R}
variable {s : Service Ω Δ R} {ids : List Token} {position : ℕ} {g g' : Locals Ω Δ R} {e : Branch}

theorem useExternalDraft_needsLogits (h : c.useExternalDraft setup = true) :
    c.needsLogits = false := by
  simp only [Call.useExternalDraft, Bool.and_eq_true, Bool.not_eq_true'] at h
  exact needsLogits_eq_false.mpr ⟨not_lt_of_eq h.1.2, h.2⟩

/-! ### One pass -/

theorem scalarStep_answer (hneeds : c.needsLogits = false)
    (h : scalarStep setup A B c ids position g = .next e g') :
    scalarAnswer A g.model g.current position = some [g'.current] := by
  obtain ⟨ht, hp⟩ := needsLogits_eq_false.mp hneeds
  rcases scalarStep_next h with
    ⟨ht', -⟩ | ⟨-, hp', -⟩ | ⟨-, -, -, -, model, draft, next, hnext, -, -, rfl⟩
  · simp [ht] at ht'
  · simp [hp] at hp'
  · obtain ⟨m, hm⟩ := Live.answered_of_ok g.model (fun _ => feedAt position [g.current]) hnext
    simp only [scalarAnswer, Live.forwardGreedy, hm]

/-- What a pass did, in terms of the tokens the target answered: they were consumed but for the
last, and the draft was fed the last one, or nothing when the pass stopped inside a verified run. -/
theorem advance_answer (hneeds : c.needsLogits = false) {flow : Flow (Locals Ω Δ R) Branch}
    (h : advance setup A B c ids g = flow) (hflow : flow = .next e g' ∨ flow = .done e g') :
    ∃ tokens, greedyAnswer A c (ids.length + g.generatedIds.length - 1) g = some tokens ∧
      g'.model.consumed = g.model.consumed ++
        feedAt (ids.length + g.generatedIds.length - 1) (g.current :: tokens.dropLast) ∧
      tokens ≠ [] ∧
      (c.useExternalDraft setup = true →
        g'.draft.consumed = g.draft.consumed ++
            feedAt (ids.length + g.generatedIds.length - 1) [tokens.getLastD 0] ∨
          g'.draft.consumed = g.draft.consumed ∧ tokens.dropLast ≠ []) := by
  have hscalar : ∀ {position : ℕ} {g : Locals Ω Δ R},
      scalarStep setup A B c ids position g = flow →
      ∃ tokens, scalarAnswer A g.model g.current position = some tokens ∧
        g'.model.consumed = g.model.consumed ++ feedAt position (g.current :: tokens.dropLast) ∧
        tokens ≠ [] ∧
        (c.useExternalDraft setup = true →
          g'.draft.consumed = g.draft.consumed ++ feedAt position [tokens.getLastD 0] ∨
            g'.draft.consumed = g.draft.consumed ∧ tokens.dropLast ≠ []) := by
    intro position g h
    rcases hflow with rfl | rfl
    · obtain ⟨next, hstep, rfl, -, hdraft⟩ := scalarStep_stepped h
      exact ⟨[g'.current], scalarStep_answer hneeds h, hstep.consumed, by simp,
        fun hd => .inl (hdraft hd)⟩
    · exact absurd h scalarStep_not_done
  unfold advance at h
  unfold greedyAnswer
  dsimp only at h
  split_ifs at h ⊢
  · have hspeculate : speculate setup A c ids (ids.length + g.generatedIds.length - 1) g =
        speculateGreedy A (ids.length + g.generatedIds.length - 1) g := by
      simp [speculate, hneeds]
    rw [hspeculate, speculateGreedy] at h
    rcases hm : g.model.forwardGreedySpeculative A g.current
      (ids.length + g.generatedIds.length - 1) with ⟨f | tokens, model⟩
    · simp only [hm] at h ⊢
      cases f with
      | unsupported =>
        have hkept := (Live.answered_error hm).2 rfl
        obtain ⟨tokens, hanswer, hmodel, hne, hdraft⟩ := hscalar h
        exact ⟨tokens, hanswer, by rw [hmodel]; simp only [hkept], hne, hdraft⟩
      | invalid => rcases hflow with rfl | rfl <;> cases h
      | ioError => rcases hflow with rfl | rfl <;> cases h
      | outOfMemory => rcases hflow with rfl | rfl <;> cases h
      | deviceError => rcases hflow with rfl | rfl <;> cases h
    · simp only [hm] at h ⊢
      obtain ⟨-, hfed, -⟩ := Live.answered_ok hm
      refine ⟨tokens, rfl, ?_⟩
      rcases hflow with rfl | rfl
      · obtain ⟨hne, -, -, draft, history, hdraft, rfl⟩ := commitSpeculation_next h
        exact ⟨hfed, hne, fun hd => .inl (hdraft hd)⟩
      · obtain ⟨hne, -, -, hmore, emitted, history, -, rfl⟩ := commitSpeculation_done h
        exact ⟨hfed, hne, fun _ => .inr ⟨rfl, hmore⟩⟩
  · exact hscalar h

/-- From a synchronised state, a pass keeps the draft level with the target exactly when the target
consumes the current token alone and answers with that same token. -/
theorem advance_synced_iff (hd : c.useExternalDraft setup = true) (hs : Synced g)
    {flow : Flow (Locals Ω Δ R) Branch} (h : advance setup A B c ids g = flow)
    (hflow : flow = .next e g' ∨ flow = .done e g') :
    Synced g' ↔
      greedyAnswer A c (ids.length + g.generatedIds.length - 1) g = some [g.current] := by
  obtain ⟨tokens, hanswer, hmodel, hne, hdraft⟩ :=
    advance_answer (useExternalDraft_needsLogits hd) h hflow
  rw [hanswer, Option.some.injEq, Synced, hmodel]
  unfold Synced at hs
  rcases hdraft hd with hdraft | ⟨hdraft, hmore⟩
  · rw [hdraft, hs, List.append_cancel_left_eq]
    constructor
    · intro hfed
      have htokens := congrArg (List.map Prod.fst) hfed
      rw [feedAt_map_fst, feedAt_map_fst, List.cons.injEq] at htokens
      have hone : tokens.length = 1 := by
        have := length_dropLast_add_one hne
        rw [← htokens.2] at this
        simpa using this.symm
      obtain ⟨t, rfl⟩ := List.length_eq_one_iff.mp hone
      rw [← htokens.1]
      rfl
    · rintro rfl
      rfl
  · rw [hdraft, hs]
    constructor
    · intro hfed
      have := congrArg List.length hfed
      simp [feedAt] at this
    · rintro rfl
      exact absurd rfl hmore

/-! ### A whole request -/

theorem generationStep_synced_iff (hd : c.useExternalDraft setup = true) (hs : Synced g)
    (h : generationStep setup A B c ids g = .next e g' ∨
      generationStep setup A B c ids g = .done e g') :
    Synced g' ↔ RepeatsCurrent setup A c ids g := by
  have hposition : ids.length + (emit ids g.current g).generatedIds.length - 1 =
      ids.length + g.generatedIds.length := by
    simp [emit]
  have hadvance : ∀ {flow : Flow (Locals Ω Δ R) Branch},
      advance setup A B c ids (emit ids g.current g) = flow →
      (flow = .next e g' ∨ flow = .done e g') →
      (Synced g' ↔ greedyAnswer A c (ids.length + g.generatedIds.length)
        (emit ids g.current g) = some [g.current]) := by
    intro flow hadv hflow
    rw [← hposition]
    exact advance_synced_iff hd (g := emit ids g.current g) hs hadv hflow
  rcases h with h | h
  · obtain ⟨hlt, hcontext, hcur, hstop, hadv⟩ := generationStep_next h
    have hadvances : advances setup c ids g = true := by
      simp [advances, hlt, hcontext, hcur, hstop]
    rw [hadvance hadv (.inl rfl), RepeatsCurrent]
    simp [hadvances]
  · rcases generationStep_done h with
      ⟨rfl, ⟨-, hlimit⟩ | ⟨-, hneg⟩⟩ | ⟨-, hstop, rfl⟩ |
      ⟨hcur, hstop, ⟨-, hlast, rfl⟩ | ⟨hlt, hcontext, hadv⟩⟩
    · refine iff_of_true hs fun hadvances => absurd ?_ hlimit
      simp only [advances, Bool.and_eq_true, decide_eq_true_eq] at hadvances
      exact ⟨by omega, hadvances.1.1.2⟩
    · refine iff_of_true hs fun hadvances => absurd hneg ?_
      simp only [advances, Bool.and_eq_true, decide_eq_true_eq] at hadvances
      exact Int.not_lt.mpr hadvances.1.2
    · refine iff_of_true hs fun hadvances => ?_
      simp [advances, hstop] at hadvances
    · refine iff_of_true hs fun hadvances => ?_
      simp [advances, hlast] at hadvances
    · have hadvances : advances setup c ids g = true := by
        simp [advances, hlt, hcontext, hcur, hstop]
      rw [hadvance hadv (.inr rfl), RepeatsCurrent]
      simp [hadvances]

/-- With a standalone draft, the two models are level after the prompt.  They are level after every
pass of the generation loop if and only if the target answers every token it is given with that
same token. -/
theorem draft_synced_iff (setup : Setup) (A : Answers Ω R) (B : Answers Δ R) (s : Service Ω Δ R)
    (c : Call R) (hd : c.useExternalDraft setup = true) (ids : List Token)
    (hi : admitted setup c = .ok ids) (g : Locals Ω Δ R)
    (hp : promptPhase setup A B c ids (claim setup c s ids) = .ok g) :
    let passes := Loop.passes (generationStep setup A B c ids) (c.maxTokens.toNat + 1) g
    Synced g ∧
      ((∀ p ∈ passes, Synced p.2.2) ↔ ∀ p ∈ passes, RepeatsCurrent setup A c ids p.1) := by
  have hsynced : Synced g := (promptPhase_prompting (admitted_ok hi).1 hp).1.draft hd
  refine ⟨hsynced, Loop.passes_iff ?_ ?_ _ g hsynced⟩
  · exact fun g e g' hs hb => generationStep_synced_iff hd hs (.inl hb)
  · exact fun g e g' hs hb => generationStep_synced_iff hd hs (.inr hb)

/-- The counting model with itself as a standalone draft. -/
def Counting.withDraft : Setup := { Counting.setup with externalDraftActive := true }

/-- The passes of a request to the counting model from its state after the prompt. -/
def Counting.draftPasses (g : Locals Unit Unit ℚ) :
    List (Locals Unit Unit ℚ × Branch × Locals Unit Unit ℚ) :=
  Loop.passes (generationStep Counting.withDraft Counting.answers Counting.answers
    (Counting.call [1] 4 0 0 false) [1]) 5 g

theorem draft_synced_iff_counting :
    ∃ g, promptPhase Counting.withDraft Counting.answers Counting.answers
        (Counting.call [1] 4 0 0 false) [1]
        (claim Counting.withDraft (Counting.call [1] 4 0 0 false) Counting.idle [1]) = .ok g ∧
      Synced g ∧ ((∀ p ∈ Counting.draftPasses g, Synced p.2.2) ↔ ∀ p ∈ Counting.draftPasses g,
        RepeatsCurrent Counting.withDraft Counting.answers (Counting.call [1] 4 0 0 false) [1]
          p.1) := by
  have hok : (promptPhase Counting.withDraft Counting.answers Counting.answers
      (Counting.call [1] 4 0 0 false) [1] (claim Counting.withDraft
        (Counting.call [1] 4 0 0 false) Counting.idle [1])).isOk = true := by decide +kernel
  cases hp : promptPhase Counting.withDraft Counting.answers Counting.answers
      (Counting.call [1] 4 0 0 false) [1]
      (claim Counting.withDraft (Counting.call [1] 4 0 0 false) Counting.idle [1]) with
  | error g =>
    rw [hp] at hok
    cases hok
  | ok g =>
    exact ⟨g, rfl, draft_synced_iff Counting.withDraft Counting.answers Counting.answers
      Counting.idle (Counting.call [1] 4 0 0 false) (by decide +kernel) [1] (by decide +kernel) g hp⟩

/-- The counting model never repeats a token: the draft is fed the next token in place of the
current one, from the first pass on. -/
theorem not_synced_counting :
    ¬∀ g, promptPhase Counting.withDraft Counting.answers Counting.answers
        (Counting.call [1] 4 0 0 false) [1]
        (claim Counting.withDraft (Counting.call [1] 4 0 0 false) Counting.idle [1]) = .ok g →
      ∀ p ∈ Counting.draftPasses g, Synced p.2.2 := by
  intro h
  have hfails : (match promptPhase Counting.withDraft Counting.answers Counting.answers
      (Counting.call [1] 4 0 0 false) [1] (claim Counting.withDraft
        (Counting.call [1] 4 0 0 false) Counting.idle [1]) with
      | .ok g => decide (∀ p ∈ Counting.draftPasses g, Synced p.2.2)
      | .error _ => true) = false := by decide +kernel
  split at hfails
  · rename_i g hp
    exact of_decide_eq_false hfails (h g hp)
  · cases hfails

end FortAI
