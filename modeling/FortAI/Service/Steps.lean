import FortAI.Service.Completion

/-!
# What a pass through the generation loop does

Inversion lemmas for the functions of `FortAI.Service.Completion`: what is known when one of them
succeeds.  A successful pass is summed up in `Stepped`; what holds at every loop head follows from
it alone.

* `advance_next`, `advance_done` : a pass that advanced the model, as a `Stepped`.
* `generationStep_next`, `generationStep_done` : the same for a whole pass.
-/

namespace FortAI

open Arithmetic

variable {Ω Δ R D : Type} [Arithmetic R D]
variable {setup : Setup} {A : Answers Ω R} {B : Answers Δ R} {c : Call R}
variable {ids : List Token} {position : ℕ} {g g' : Locals Ω Δ R} {tokens : List Token}

/-! ### Verification -/

theorem Drafts.length_toList (d : Drafts) : d.toList.length = 2 := rfl

theorem verifySampled_accepted_le {α : Type}
    (pick : α → Mt19937 → List Token → ℕ → Token × Mt19937) (rows : Rows α) (drafts : Drafts)
    (generator : Mt19937) (history : List Token) (n : ℕ) :
    (verifySampled pick rows drafts generator history n).accepted ≤ 2 := by
  unfold verifySampled
  dsimp only
  split_ifs <;> simp

/-- What a committed verification leaves behind. -/
theorem acceptVerified_ok {drafts : Drafts} {v : Verified}
    (h : acceptVerified A drafts position v g = (.ok tokens, g')) :
    tokens = drafts.toList.take v.accepted ++ [v.next] ∧
      ∃ model : Live Ω,
        model.consumed =
            g.model.consumed ++ feedAt position (g.model.prepared :: tokens.dropLast) ∧
          g' = { g with
            model := model, generator := v.generator, history := v.history
            draftTokens := g.draftTokens + 2
            draftAccepted := g.draftAccepted + v.accepted } := by
  unfold acceptVerified at h
  dsimp only at h
  rcases hm : g.model.acceptSampledSpeculative A drafts position v.accepted with ⟨(f | u), model⟩
  · simp [hm] at h
  · simp only [hm, Prod.mk.injEq, Except.ok.injEq] at h
    obtain ⟨rfl, rfl⟩ := h
    obtain ⟨-, hfed, -⟩ := Live.answered_ok hm
    exact ⟨rfl, model, by simpa using hfed, rfl⟩

theorem acceptVerified_error {drafts : Drafts} {v : Verified} {f : Fault}
    (h : acceptVerified A drafts position v g = (.error f, g')) :
    ∃ model : Live Ω, (f = .unsupported → model.consumed = g.model.consumed) ∧
      g' = { g with model := model, generator := v.generator, history := v.history } := by
  unfold acceptVerified at h
  dsimp only at h
  rcases hm : g.model.acceptSampledSpeculative A drafts position v.accepted with ⟨(f' | u), model⟩
  · simp only [hm, Prod.mk.injEq, Except.error.injEq] at h
    obtain ⟨rfl, rfl⟩ := h
    exact ⟨model, (Live.answered_error hm).2, rfl⟩
  · simp [hm] at h

/-- A sampled verification that succeeds, for a batch prepared from the current token. -/
theorem speculateSampled_ok {α : Type} {reply : Except Failure (Drafts × Rows α) × Ω}
    {pick : α → Mt19937 → List Token → ℕ → Token × Mt19937}
    {keep : α → Locals Ω Δ R → Locals Ω Δ R}
    (h : speculateSampled A
      ({ g.model with prepared := g.current }.answered reply fun _ => []) pick keep ids position g =
        (.ok tokens, g')) :
    ∃ (drafts : Drafts) (rows : Rows α) (v : Verified) (model : Live Ω),
      reply.1 = .ok (drafts, rows) ∧
        v = verifySampled pick rows drafts g.generator g.history
          (ids.length + g.generatedIds.length) ∧
        tokens = drafts.toList.take v.accepted ++ [v.next] ∧
        model.consumed = g.model.consumed ++ feedAt position (g.current :: tokens.dropLast) ∧
        g' = keep (rows.get v.accepted) { g with
          model := model, generator := v.generator, history := v.history
          draftTokens := g.draftTokens + 2, draftAccepted := g.draftAccepted + v.accepted } := by
  unfold speculateSampled at h
  split at h
  · simp at h
  · rename_i drafts rows m hp
    obtain ⟨hrows, hfed, hprep, -, -⟩ := Live.answered_ok hp
    dsimp only at h
    split at h
    · simp at h
    · rename_i ts g₁ ha
      simp only [Prod.mk.injEq, Except.ok.injEq] at h
      obtain ⟨rfl, rfl⟩ := h
      obtain ⟨htokens, model, hmodel, rfl⟩ := acceptVerified_ok ha
      exact ⟨drafts, rows, _, model, hrows, rfl, htokens, by simpa [hfed, hprep] using hmodel, rfl⟩

theorem speculateSampled_unsupported {α : Type} {reply : Except Failure (Drafts × Rows α) × Ω}
    {pick : α → Mt19937 → List Token → ℕ → Token × Mt19937}
    {keep : α → Locals Ω Δ R → Locals Ω Δ R}
    (h : speculateSampled A
      ({ g.model with prepared := g.current }.answered reply fun _ => []) pick keep ids position g =
        (.error .unsupported, g')) :
    ∃ (model : Live Ω) (generator : Mt19937) (history : List Token),
      model.consumed = g.model.consumed ∧
        g' = { g with model := model, generator := generator, history := history } := by
  unfold speculateSampled at h
  split at h
  · rename_i f m hp
    simp only [Prod.mk.injEq, Except.error.injEq] at h
    obtain ⟨rfl, rfl⟩ := h
    exact ⟨m, _, _, (Live.answered_error hp).2 rfl, rfl⟩
  · rename_i drafts rows m hp
    obtain ⟨-, hfed, -⟩ := Live.answered_ok hp
    dsimp only at h
    split at h
    · rename_i f g₁ ha
      simp only [Prod.mk.injEq, Except.error.injEq] at h
      obtain ⟨rfl, rfl⟩ := h
      obtain ⟨model, hmodel, rfl⟩ := acceptVerified_error ha
      exact ⟨model, _, _, by simpa [hfed] using hmodel rfl, rfl⟩
    · simp at h

theorem speculateGreedy_ok (h : speculateGreedy A position g = (.ok tokens, g')) :
    ∃ model : Live Ω,
      (A.forwardGreedySpeculative g.model.oracle g.model.consumed g.current position).1 =
          .ok tokens ∧
        model.consumed = g.model.consumed ++ feedAt position (g.current :: tokens.dropLast) ∧
        g' = { g with
          model := model, draftTokens := g.draftTokens + 2
          draftAccepted := g.draftAccepted + (tokens.length - 1) } := by
  unfold speculateGreedy at h
  rcases hp : g.model.forwardGreedySpeculative A g.current position with ⟨(f | ts), m⟩
  · simp [hp] at h
  · simp only [hp, Prod.mk.injEq, Except.ok.injEq] at h
    obtain ⟨rfl, rfl⟩ := h
    obtain ⟨hts, hfed, -⟩ := Live.answered_ok hp
    exact ⟨m, hts, hfed, rfl⟩

/-- A verification that succeeds consumes the current token and the accepted drafts, and touches
neither the token log nor the generated tokens. -/
theorem speculate_ok (h : speculate setup A c ids position g = (.ok tokens, g')) :
    ∃ (model : Live Ω) (generator : Mt19937) (history : List Token) (logits : Option (List R))
        (valid : Bool) (draftTokens draftAccepted : ℕ),
      model.consumed = g.model.consumed ++ feedAt position (g.current :: tokens.dropLast) ∧
        g' = { g with
          model := model, generator := generator, history := history, logits := logits
          cacheResultLogitsValid := valid, draftTokens := draftTokens
          draftAccepted := draftAccepted } := by
  unfold speculate at h
  split_ifs at h
  · obtain ⟨_, _, v, model, -, -, -, hfed, rfl⟩ := speculateSampled_ok h
    exact ⟨model, v.generator, v.history, _, _, _, _, hfed, rfl⟩
  · obtain ⟨_, _, v, model, -, -, -, hfed, rfl⟩ := speculateSampled_ok h
    exact ⟨model, v.generator, v.history, _, _, _, _, hfed, rfl⟩
  · obtain ⟨model, -, hfed, rfl⟩ := speculateGreedy_ok h
    exact ⟨model, _, _, _, _, _, _, hfed, rfl⟩

/-- A refused verification leaves what the model has consumed, and the logits kept, alone. -/
theorem speculate_unsupported
    (h : speculate setup A c ids position g = (.error .unsupported, g')) :
    ∃ (model : Live Ω) (generator : Mt19937) (history : List Token),
      model.consumed = g.model.consumed ∧
        g' = { g with model := model, generator := generator, history := history } := by
  unfold speculate at h
  split_ifs at h
  · exact speculateSampled_unsupported h
  · exact speculateSampled_unsupported h
  · unfold speculateGreedy at h
    rcases hp : g.model.forwardGreedySpeculative A g.current position with ⟨(f | ts), m⟩
    · simp only [hp, Prod.mk.injEq, Except.error.injEq] at h
      obtain ⟨rfl, rfl⟩ := h
      exact ⟨m, _, _, (Live.answered_error hp).2 rfl, rfl⟩
    · simp [hp] at h

/-! ### The end of a pass -/

theorem draftStep_ok {token : Token} (h : draftStep setup B c token position g = .ok g') :
    ∃ draft : Live Δ,
      (c.useExternalDraft setup = true →
        draft.consumed = g.draft.consumed ++ feedAt position [token]) ∧
        g' = { g with draft := draft } := by
  unfold draftStep at h
  split_ifs at h with hd
  · rcases hm : g.draft.forwardGreedy B token position true with ⟨(f | t), draft⟩
    · simp [hm] at h
    · simp only [hm, Except.ok.injEq] at h
      subst h
      obtain ⟨-, hfed, -⟩ := Live.answered_ok hm
      exact ⟨draft, fun _ => hfed, rfl⟩
  · cases h
    exact ⟨g.draft, fun hd' => absurd hd' hd, rfl⟩

theorem finishStep_next {branch e : Branch}
    (h : finishStep setup B c branch position g = .next e g') :
    e = branch ∧ ∃ draft : Live Δ,
      (c.useExternalDraft setup = true →
        draft.consumed = g.draft.consumed ++ feedAt position [g.current]) ∧
        g' = { g with draft := draft } := by
  unfold finishStep at h
  split at h
  · cases h
  · rename_i g₁ hd
    cases h
    exact ⟨rfl, draftStep_ok hd⟩

theorem finishStep_not_done {branch e : Branch} :
    finishStep setup B c branch position g ≠ .done e g' := by
  unfold finishStep
  split <;> simp

theorem emitRun_spec {stopped : Bool} (h : emitRun setup c ids tokens g = (stopped, g')) :
    ∃ emitted history, emitted <+: tokens ∧ (stopped = false → emitted = tokens) ∧
      (stopped = true → tokens ≠ []) ∧
      g' = { g with generatedIds := g.generatedIds ++ emitted, history := history } := by
  induction tokens generalizing g with
  | nil =>
    cases h
    exact ⟨[], g'.history, List.nil_prefix, fun _ => rfl, by simp, by simp⟩
  | cons t ts ih =>
    simp only [emitRun] at h
    split_ifs at h with hs
    · cases h
      exact ⟨[], g'.history, List.nil_prefix, by simp, by simp, by simp⟩
    · obtain ⟨emitted, history, hpre, hall, -, rfl⟩ := ih h
      refine ⟨t :: emitted, history, by simpa using hpre, fun hf => by rw [hall hf], by simp, ?_⟩
      simp [emit]

theorem commitSpeculation_next {e : Branch}
    (h : commitSpeculation setup B c ids position tokens g = .next e g') :
    tokens ≠ [] ∧ g.stateCount + tokens.length ≤ g.stateTokens.length ∧
      e = speculativeBranch c false ∧
      ∃ (draft : Live Δ) (history : List Token),
        (c.useExternalDraft setup = true →
          draft.consumed = g.draft.consumed ++ feedAt position [tokens.getLastD 0]) ∧
        g' = { g with
          draft := draft, history := history, current := tokens.getLastD 0
          generatedIds := g.generatedIds ++ tokens.dropLast
          stateTokens := writeAt g.stateTokens g.stateCount (g.current :: tokens.dropLast)
          stateCount := g.stateCount + tokens.length } := by
  unfold commitSpeculation at h
  split_ifs at h with hlen hroom
  dsimp only at h
  split at h
  · cases h
  · rename_i g₁ hr
    obtain ⟨emitted, history, -, hall, -, rfl⟩ := emitRun_spec hr
    obtain ⟨rfl, draft, hdraft, rfl⟩ := finishStep_next h
    refine ⟨?_, by omega, rfl, draft, history, hdraft, by simp [hall rfl]⟩
    rintro rfl
    simp at hlen

theorem commitSpeculation_done {e : Branch}
    (h : commitSpeculation setup B c ids position tokens g = .done e g') :
    tokens ≠ [] ∧ g.stateCount + tokens.length ≤ g.stateTokens.length ∧
      e = speculativeBranch c true ∧ tokens.dropLast ≠ [] ∧
      ∃ emitted history, emitted <+: tokens.dropLast ∧
        g' = { g with
          history := history, generatedIds := g.generatedIds ++ emitted, stopTokenCount := 1
          stateTokens := writeAt g.stateTokens g.stateCount (g.current :: tokens.dropLast)
          stateCount := g.stateCount + tokens.length } := by
  unfold commitSpeculation at h
  split_ifs at h with hlen hroom
  dsimp only at h
  split at h
  · rename_i g₁ hr
    obtain ⟨emitted, history, hpre, -, hmore, rfl⟩ := emitRun_spec hr
    cases h
    refine ⟨?_, by omega, rfl, hmore rfl, emitted, history, hpre, rfl⟩
    rintro rfl
    simp at hlen
  · exact absurd h finishStep_not_done

/-- The three ways a scalar step succeeds. -/
theorem scalarStep_next {e : Branch} (h : scalarStep setup A B c ids position g = .next e g') :
    (c.temperaturePositive = true ∧ e = .sampled ∧
      ∃ (model : Live Ω) (draft : Live Δ) (logits : List R) (picked : Token × Mt19937),
        (A.forward g.model.oracle g.model.consumed g.current position true).1 = .ok logits ∧
        picked = sampleLogits logits c.temperature g.generator g.history
          (ids.length + g.generatedIds.length) c.options ∧
        model.consumed = g.model.consumed ++ feedAt position [g.current] ∧
        (c.useExternalDraft setup = true →
          draft.consumed = g.draft.consumed ++ feedAt position [picked.1]) ∧
        g' = { g with
          model := model, draft := draft, logits := some logits, current := picked.1
          generator := picked.2, cacheResultLogitsValid := true
          stateCount := g.stateCount + 1 }) ∨
    (c.temperaturePositive = false ∧ c.penaltiesActive = true ∧ e = .penalised ∧
      g.stateCount < g.stateTokens.length ∧
      ∃ (model : Live Ω) (draft : Live Δ) (logits : List R) (next : Token),
        (A.forward g.model.oracle g.model.consumed g.current position true).1 = .ok logits ∧
        next = greedyPenalized logits g.history (ids.length + g.generatedIds.length) c.options ∧
        model.consumed = g.model.consumed ++ feedAt position [g.current] ∧
        (c.useExternalDraft setup = true →
          draft.consumed = g.draft.consumed ++ feedAt position [next]) ∧
        g' = { g with
          model := model, draft := draft, logits := some logits, current := next
          stateTokens := g.stateTokens.set g.stateCount g.current
          stateCount := g.stateCount + 1 }) ∨
    (c.temperaturePositive = false ∧ c.penaltiesActive = false ∧ e = .greedy ∧
      g.stateCount < g.stateTokens.length ∧
      ∃ (model : Live Ω) (draft : Live Δ) (next : Token),
        (A.forwardGreedy g.model.oracle g.model.consumed g.current position true).1 = .ok next ∧
        model.consumed = g.model.consumed ++ feedAt position [g.current] ∧
        (c.useExternalDraft setup = true →
          draft.consumed = g.draft.consumed ++ feedAt position [next]) ∧
        g' = { g with
          model := model, draft := draft, current := next
          stateTokens := g.stateTokens.set g.stateCount g.current
          stateCount := g.stateCount + 1 }) := by
  unfold scalarStep at h
  cases ht : c.temperaturePositive with
  | true =>
    left
    simp only [ht, if_true] at h
    rcases hm : g.model.forward A g.current position true with ⟨(f | logits), model⟩
    · simp [hm] at h
    · simp only [hm] at h
      obtain ⟨hlogits, hfed, -⟩ := Live.answered_ok hm
      obtain ⟨rfl, draft, hdraft, rfl⟩ := finishStep_next h
      exact ⟨rfl, rfl, model, draft, logits, _, hlogits, rfl, hfed, hdraft, rfl⟩
  | false =>
    right
    simp only [ht, Bool.false_eq_true, if_false] at h
    split_ifs at h with hroom hp
    · left
      rcases hm : g.model.forward A g.current position true with ⟨(f | logits), model⟩
      · simp [hm] at h
      · simp only [hm] at h
        obtain ⟨hlogits, hfed, -⟩ := Live.answered_ok hm
        obtain ⟨rfl, draft, hdraft, rfl⟩ := finishStep_next h
        exact ⟨rfl, hp, rfl, by omega, model, draft, logits, _, hlogits, rfl, hfed, hdraft, rfl⟩
    · right
      rcases hm : g.model.forwardGreedy A g.current position true with ⟨(f | next), model⟩
      · simp [hm] at h
      · simp only [hm] at h
        obtain ⟨hnext, hfed, -⟩ := Live.answered_ok hm
        obtain ⟨rfl, draft, hdraft, rfl⟩ := finishStep_next h
        exact ⟨rfl, by simpa using hp, rfl, by omega, model, draft, next, hnext, hfed, hdraft, rfl⟩

/-! ### A pass that advances the model -/

theorem writeAt_length (array tokens : List Token) {i : ℕ} (h : i + tokens.length ≤ array.length) :
    (writeAt array i tokens).length = array.length := by
  simp [writeAt]
  omega

theorem writeAt_take (array tokens : List Token) {i : ℕ} (h : i ≤ array.length) :
    (writeAt array i tokens).take (i + tokens.length) = array.take i ++ tokens := by
  have hlen : (array.take i ++ tokens).length = i + tokens.length := by simp [h]
  rw [writeAt, List.take_left' hlen]

theorem writeAt_singleton (array : List Token) (token : Token) {i : ℕ} (h : i < array.length) :
    array.set i token = writeAt array i [token] := by
  simp [writeAt, List.set_eq_take_append_cons_drop, h]

/-- What a successful step of the model did: it was given the current token and answered with
`tokens`, the last of which is the next current token unless the request stops. -/
structure Stepped (A : Answers Ω R) (c : Call R) (position : ℕ) (g : Locals Ω Δ R) (e : Branch)
    (tokens : List Token) (g' : Locals Ω Δ R) : Prop where
  succeeded : e ≠ .failed
  answered : tokens ≠ []
  consumed :
    g'.model.consumed = g.model.consumed ++ feedAt position (g.current :: tokens.dropLast)
  stateCount : g'.stateCount = g.stateCount + tokens.length
  /-- Every branch but the scalar sampled one logs the tokens it consumes. -/
  logged : e ≠ .sampled → g.stateCount + tokens.length ≤ g.stateTokens.length ∧
    g'.stateTokens = writeAt g.stateTokens g.stateCount (g.current :: tokens.dropLast)
  lengthKept : g'.stateTokens.length = g.stateTokens.length
  /-- Every branch but the device's top-k one keeps the logits after the tokens it consumes. -/
  logits : ∀ target, A.Follows target → c.needsLogits = true → (∀ b, e ≠ .speculativeTopk b) →
    g'.logits = some (target g'.model.consumed) ∧
      (g.cacheResultLogitsValid = true → g'.cacheResultLogitsValid = true)
  greedy : ∀ target, A.Follows target → c.needsLogits = false →
    tokens.getLastD 0 = argmax (target g'.model.consumed)

theorem length_dropLast_add_one {α : Type} {l : List α} (h : l ≠ []) :
    l.dropLast.length + 1 = l.length := by
  have := List.length_pos_of_ne_nil h
  simp
  omega

theorem needsLogits_eq_false :
    c.needsLogits = false ↔ c.temperaturePositive = false ∧ c.penaltiesActive = false := by
  simp [Call.needsLogits]

/-- A scalar step that succeeds is a step answered with one token. -/
theorem scalarStep_stepped {e : Branch}
    (h : scalarStep setup A B c ids position g = .next e g') :
    ∃ next : Token, Stepped A c position g e [next] g' ∧ g'.current = next ∧
      g'.generatedIds = g.generatedIds ∧
      (c.useExternalDraft setup = true →
        g'.draft.consumed = g.draft.consumed ++ feedAt position [next]) := by
  rcases scalarStep_next h with
    ⟨ht, rfl, model, draft, logits, picked, hlogits, -, hfed, hdraft, rfl⟩ |
    ⟨ht, hp, rfl, hroom, model, draft, logits, next, hlogits, -, hfed, hdraft, rfl⟩ |
    ⟨ht, hp, rfl, hroom, model, draft, next, hnext, hfed, hdraft, rfl⟩
  · refine ⟨picked.1, ⟨by simp, by simp, hfed, rfl, fun h => absurd rfl h, rfl, ?_, ?_⟩, rfl, rfl, hdraft⟩
    · intro target hA _ _
      exact ⟨by rw [hA.forward _ _ _ _ _ hlogits]; simp [hfed], fun _ => rfl⟩
    · intro target _ hneeds
      simp [needsLogits_eq_false, ht] at hneeds
  · refine ⟨next, ⟨by simp, by simp, hfed, rfl, fun _ => ⟨hroom, writeAt_singleton _ _ hroom⟩,
      by simp, ?_, ?_⟩, rfl, rfl, hdraft⟩
    · intro target hA _ _
      exact ⟨by rw [hA.forward _ _ _ _ _ hlogits]; simp [hfed], id⟩
    · intro target _ hneeds
      simp [needsLogits_eq_false, hp] at hneeds
  · refine ⟨next, ⟨by simp, by simp, hfed, rfl, fun _ => ⟨hroom, writeAt_singleton _ _ hroom⟩,
      by simp, ?_, ?_⟩, rfl, rfl, hdraft⟩
    · intro target _ hneeds _
      simp [Call.needsLogits, ht, hp] at hneeds
    · intro target hA _
      simpa [hfed] using hA.forwardGreedy _ _ _ _ _ hnext

/-- The rows kept by a verification are those after the tokens it consumed; a greedy verification
ends with the model's own next token. -/
theorem speculate_follows {target : Fed → List R} (hA : A.Follows target)
    (h : speculate setup A c ids position g = (.ok tokens, g')) :
    tokens ≠ [] ∧
      (c.needsLogits = true → c.useDeviceTopk = false →
        g'.logits = some (target g'.model.consumed) ∧ g'.cacheResultLogitsValid = true) ∧
      (c.needsLogits = false → tokens.getLastD 0 = argmax (target g'.model.consumed)) := by
  unfold speculate at h
  split_ifs at h with hneeds htop
  · obtain ⟨drafts, rows, v, model, -, -, rfl, -, -⟩ := speculateSampled_ok h
    exact ⟨by simp, fun _ hf => absurd htop (by simp [hf]), fun hf => absurd hneeds (by simp [hf])⟩
  · obtain ⟨drafts, rows, v, model, hrows, hv, rfl, hfed, rfl⟩ := speculateSampled_ok h
    refine ⟨by simp, fun _ _ => ⟨?_, rfl⟩, fun hf => absurd hneeds (by simp [hf])⟩
    have hle : v.accepted ≤ 2 := by
      rw [hv]
      exact verifySampled_accepted_le ..
    have := hA.rows _ _ _ _ _ _ hrows v.accepted hle
    simp [keepRow, this, hfed]
  · obtain ⟨model, htokens, hfed, rfl⟩ := speculateGreedy_ok h
    obtain ⟨hne, -, hlast⟩ := hA.greedyTokens _ _ _ _ _ htokens
    refine ⟨hne, fun hf => absurd hf hneeds, fun _ => ?_⟩
    have hpos := List.length_pos_of_ne_nil hne
    have := hlast (tokens.length - 1) (by omega)
    rw [List.getLastD_eq_getLast?, List.getLast?_eq_getElem?, List.getElem?_eq_getElem (by omega)]
    simp only [Option.getD_some, this, hfed, List.dropLast_eq_take]

theorem speculativeBranch_ne_failed (b : Bool) : speculativeBranch c b ≠ .failed := by
  unfold speculativeBranch
  split_ifs <;> simp

/-- A committed verification is a step answered with the verified tokens. -/
theorem speculate_stepped {g₁ : Locals Ω Δ R} {b : Bool}
    (h : speculate setup A c ids position g = (.ok tokens, g₁)) (hne : tokens ≠ [])
    (hroom : g₁.stateCount + tokens.length ≤ g₁.stateTokens.length)
    (hmodel : g'.model = g₁.model) (hcount : g'.stateCount = g₁.stateCount + tokens.length)
    (hlog : g'.stateTokens = writeAt g₁.stateTokens g₁.stateCount (g₁.current :: tokens.dropLast))
    (hlogits : g'.logits = g₁.logits)
    (hvalid : g'.cacheResultLogitsValid = g₁.cacheResultLogitsValid) :
    Stepped A c position g (speculativeBranch c b) tokens g' := by
  have hlen := length_dropLast_add_one hne
  obtain ⟨model, generator, history, logits, valid, dt, da, hfed, rfl⟩ := speculate_ok h
  refine ⟨speculativeBranch_ne_failed b, hne, by rw [hmodel]; exact hfed, hcount, fun _ => ⟨hroom, hlog⟩, ?_, ?_, ?_⟩
  · rw [hlog, writeAt_length]
    simp only [List.length_cons, hlen]
    exact hroom
  · intro target hA hneeds htop
    have htop' : c.useDeviceTopk = false := by
      by_contra hf
      exact htop b (by simp [speculativeBranch, hneeds, hf])
    obtain ⟨h₁, h₂⟩ := (speculate_follows hA h).2.1 hneeds htop'
    rw [hlogits, hvalid, hmodel]
    exact ⟨h₁, fun _ => h₂⟩
  · intro target hA hneeds
    rw [hmodel]
    exact (speculate_follows hA h).2.2 hneeds

/-- A pass that goes round again: the model consumed the emitted token and the accepted drafts, the
accepted drafts were emitted, and the answered token is next. -/
theorem advance_next {e : Branch} (h : advance setup A B c ids g = .next e g') :
    ∃ tokens, Stepped A c (ids.length + g.generatedIds.length - 1) g e tokens g' ∧
      g'.current = tokens.getLastD 0 ∧ g'.generatedIds = g.generatedIds ++ tokens.dropLast ∧
      (c.useExternalDraft setup = true → g'.draft.consumed =
        g.draft.consumed ++ feedAt (ids.length + g.generatedIds.length - 1) [g'.current]) := by
  unfold advance at h
  dsimp only at h
  split_ifs at h
  · split at h
    · rename_i tokens g₁ hs
      obtain ⟨hne, hroom, rfl, draft, history, hdraft, rfl⟩ := commitSpeculation_next h
      refine ⟨tokens, speculate_stepped hs hne hroom rfl rfl rfl rfl rfl, rfl, ?_, ?_⟩
      all_goals obtain ⟨_, _, _, _, _, _, _, -, rfl⟩ := speculate_ok hs
      · rfl
      · exact hdraft
    · rename_i g₁ hs
      obtain ⟨model, generator, history, hkeep, rfl⟩ := speculate_unsupported hs
      obtain ⟨next, hstep, hcur, hgen, hdraft⟩ := scalarStep_stepped h
      refine ⟨[next], ?_, hcur, by simpa using hgen, by rw [hcur]; exact hdraft⟩
      obtain ⟨h₀, h₁, h₂, h₃, h₄, h₅, h₆, h₇⟩ := hstep
      exact ⟨h₀, h₁, by rw [h₂]; simp [hkeep], h₃, h₄, h₅, h₆, h₇⟩
    · cases h
  · obtain ⟨next, hstep, hcur, hgen, hdraft⟩ := scalarStep_stepped h
    exact ⟨[next], hstep, hcur, by simpa using hgen, by rw [hcur]; exact hdraft⟩

theorem scalarStep_not_done {e : Branch} :
    scalarStep setup A B c ids position g ≠ .done e g' := by
  intro h
  unfold scalarStep at h
  split_ifs at h
  all_goals
    dsimp only at h
    split at h
    · cases h
    · exact finishStep_not_done h

/-- A pass that stops inside a verified run: only the drafts before the stop token were emitted, but
the model consumed them all. -/
theorem advance_done {e : Branch} (h : advance setup A B c ids g = .done e g') :
    ∃ tokens emitted, Stepped A c (ids.length + g.generatedIds.length - 1) g e tokens g' ∧
      e = speculativeBranch c true ∧ emitted <+: tokens.dropLast ∧
      g'.generatedIds = g.generatedIds ++ emitted ∧ g'.current = g.current := by
  unfold advance at h
  dsimp only at h
  split_ifs at h
  · split at h
    · rename_i tokens g₁ hs
      obtain ⟨hne, hroom, rfl, -, emitted, history, hpre, rfl⟩ := commitSpeculation_done h
      refine ⟨tokens, emitted, speculate_stepped hs hne hroom rfl rfl rfl rfl rfl, rfl, hpre, ?_, ?_⟩
      all_goals
        obtain ⟨_, _, _, _, _, _, _, -, rfl⟩ := speculate_ok hs
        rfl
    · exact absurd h scalarStep_not_done
    · cases h
  · exact absurd h scalarStep_not_done

/-! ### A whole pass -/

/-- A pass that goes round again emitted the current token and advanced the model. -/
theorem generationStep_next {e : Branch} (h : generationStep setup A B c ids g = .next e g') :
    g.generatedIds.length + 1 < c.maxTokens.toNat ∧
      ids.length + g.generatedIds.length < setup.maxContext ∧ 0 ≤ g.current ∧
      stops setup c g.current = false ∧
      advance setup A B c ids (emit ids g.current g) = .next e g' := by
  unfold generationStep at h
  split at h
  · cases h
  split at h
  · cases h
  split at h
  · cases h
  rename_i hbound hcur hstop
  simp only [emit, List.length_append, List.length_singleton] at h
  split at h
  · cases h
  · exact ⟨by omega, by omega, Int.not_lt.mp hcur, by simpa using hstop, h⟩

/-- The ways a pass leaves the loop. -/
theorem generationStep_done {e : Branch} (h : generationStep setup A B c ids g = .done e g') :
    g' = g ∧ (e = .limit ∧ ¬(g.generatedIds.length < c.maxTokens.toNat ∧
        ids.length + g.generatedIds.length < setup.maxContext) ∨ e = .noToken ∧ g.current < 0) ∨
    e = .stopToken ∧ stops setup c g.current = true ∧ g' = { g with stopTokenCount := 1 } ∨
    0 ≤ g.current ∧ stops setup c g.current = false ∧
      (e = .lastToken ∧ g.generatedIds.length + 1 = c.maxTokens.toNat ∧ g' = emit ids g.current g ∨
        g.generatedIds.length + 1 < c.maxTokens.toNat ∧
        ids.length + g.generatedIds.length < setup.maxContext ∧
        advance setup A B c ids (emit ids g.current g) = .done e g') := by
  unfold generationStep at h
  split at h
  · rename_i hbound
    cases h
    exact .inl ⟨rfl, .inl ⟨rfl, hbound⟩⟩
  split at h
  · rename_i hcur
    cases h
    exact .inl ⟨rfl, .inr ⟨rfl, hcur⟩⟩
  split at h
  · rename_i hstop
    cases h
    exact .inr (.inl ⟨rfl, hstop, rfl⟩)
  rename_i hbound hcur hstop
  refine .inr (.inr ⟨Int.not_lt.mp hcur, by simpa using hstop, ?_⟩)
  dsimp only at h
  split at h
  · rename_i hlast
    cases h
    exact .inl ⟨rfl, by simpa [emit] using hlast, rfl⟩
  · rename_i hlast
    simp only [emit, List.length_append, List.length_singleton] at hlast
    exact .inr ⟨by omega, by omega, h⟩

end FortAI
