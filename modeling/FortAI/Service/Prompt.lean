import FortAI.Service.Steps

/-!
# The prompt phase

What is known when the prompt has been evaluated, whichever of the three ways it went: a full hit of
the prefix cache, batches, or one token at a time.

* `Coherent`, `Aligned`, `Continues` : what the prefix cache promises about the live model.
* `Prompting` : what holds after `i` tokens of the prompt.
* `promptPhase_prompting` : the prompt phase ends with the whole prompt consumed.
-/

namespace FortAI

open Arithmetic

variable {Ω Δ R D : Type} [Arithmetic R D]

/-! ### What the cache promises -/

/-- The first `service_cache_count` entries of `service_cache_tokens`. -/
def Service.cached (s : Service Ω Δ R) : List Token := (s.cacheTokens.getD []).take s.cacheCount

/-- A valid cache lists the tokens the live model has consumed. -/
def Coherent (s : Service Ω Δ R) : Prop :=
  s.cacheValid = true → s.cached.length = s.cacheCount ∧ s.model.tokens = s.cached

/-- `Coherent`, and the model consumed the tokens at the positions from 0 on. -/
def Aligned (s : Service Ω Δ R) : Prop :=
  s.cacheValid = true → s.cached.length = s.cacheCount ∧ s.model.consumed = feedAt 0 s.cached

/-- A valid cache knows what `target` says after the cached tokens: its logits, or else the token
with the largest one. -/
def Continues (target : Fed → List R) (s : Service Ω Δ R) : Prop :=
  s.cacheValid = true →
    (s.cacheLogitsValid = true → s.cacheLogits = some (target (feedAt 0 s.cached))) ∧
    (s.cacheLogitsValid = false → s.cacheNextToken = argmax (target (feedAt 0 s.cached)))

instance (s : Service Ω Δ R) : Decidable (Coherent s) :=
  inferInstanceAs (Decidable (_ = true → _ ∧ _))

instance [DecidableEq R] (target : Fed → List R) (s : Service Ω Δ R) :
    Decidable (Continues target s) :=
  inferInstanceAs (Decidable (_ = true → (_ = true → _) ∧ (_ = false → _)))

theorem Aligned.coherent {s : Service Ω Δ R} (h : Aligned s) : Coherent s := by
  intro hv
  obtain ⟨hlen, hfed⟩ := h hv
  exact ⟨hlen, by rw [Live.tokens, hfed, feedAt_map_fst]⟩

variable {setup : Setup} {A : Answers Ω R} {B : Answers Δ R} {c : Call R}
variable {s : Service Ω Δ R} {ids : List Token} {i : ℕ} {g g' : Locals Ω Δ R}

theorem admitted_ok (h : admitted setup c = .ok ids) :
    ids ≠ [] ∧ ids.length < setup.maxContext ∧ 0 < c.maxTokens := by
  unfold admitted at h
  split_ifs at h with h₁ h₂
  split at h
  · cases h
  · split_ifs at h with h₃ h₄
    cases h
    exact ⟨fun hn => h₃ (by simp [hn]), by omega, by omega⟩

theorem prefixHit_spec (h : prefixHit setup s ids = true) :
    s.cacheValid = true ∧ 0 < s.cacheCount ∧ s.cacheCount ≤ ids.length ∧
      ids.take s.cacheCount = s.cached ∧ setup.externalDraftActive = false := by
  unfold prefixHit at h
  cases ht : s.cacheTokens with
  | none => simp [ht] at h
  | some tokens =>
    simp only [ht, Bool.and_eq_true, decide_eq_true_eq, Bool.not_eq_true'] at h
    obtain ⟨⟨⟨hv, hpos⟩, hle, htake⟩, hdraft⟩ := h
    exact ⟨hv, hpos, hle, by simpa [Service.cached, ht] using htake, hdraft⟩

theorem cacheHit_prefixHit (h : cacheHit setup c s ids = true) : prefixHit setup s ids = true := by
  simp only [cacheHit, Bool.and_eq_true] at h
  exact h.1

theorem useExternalDraft_no_hit (h : c.useExternalDraft setup = true) :
    cacheHit setup c s ids = false := by
  have hd : setup.externalDraftActive = true := by
    simp only [Call.useExternalDraft, Bool.and_eq_true] at h
    exact h.1.1
  by_contra hf
  have := (prefixHit_spec (cacheHit_prefixHit (by simpa using hf))).2.2.2.2
  simp [hd] at this

/-! ### The invariant -/

/-- The token picked after the whole prompt, and the logits it was picked from. -/
def Answered (A : Answers Ω R) (c : Call R) (s : Service Ω Δ R) (setup : Setup)
    (g : Locals Ω Δ R) : Prop :=
  ∀ target, A.Follows target → (∀ fed, (target fed).length = setup.vocabularySize) →
    Continues target s →
      (c.needsLogits = true → g.logits = some (target g.model.consumed)) ∧
      (c.needsLogits = false → g.current = argmax (target g.model.consumed))

/-- What holds after `i` tokens of the prompt. -/
structure Prompting (setup : Setup) (A : Answers Ω R) (c : Call R) (s : Service Ω Δ R)
    (ids : List Token) (i : ℕ) (g : Locals Ω Δ R) : Prop where
  le : i ≤ ids.length
  stateTokens : g.stateTokens = ids ++ (List.range c.maxTokens.toNat).map c.stateMemory
  history : g.history = ids ++ (List.range c.maxTokens.toNat).map c.historyMemory
  generatedIds : g.generatedIds = []
  stopTokenCount : g.stopTokenCount = 0
  stateCount : g.stateCount = i
  draft : c.useExternalDraft setup = true → g.draft.consumed = g.model.consumed
  consumed : Aligned s → g.model.consumed = feedAt 0 (ids.take i)
  answered : Aligned s → i = ids.length → Answered A c s setup g

/-! ### The start -/

theorem Answered.congr (h : Answered A c s setup g) (hl : g'.logits = g.logits)
    (hc : g'.current = g.current) (hm : g'.model.consumed = g.model.consumed) :
    Answered A c s setup g' := by
  intro target hA hsize hcont
  rw [hl, hc, hm]
  exact h target hA hsize hcont

theorem pickToken_greedy {logits : List R} {generator : Mt19937} {history : List Token} {n : ℕ}
    (h : c.needsLogits = false) :
    pickToken c logits generator history n = (argmax logits, generator) := by
  obtain ⟨ht, hp⟩ := needsLogits_eq_false.mp h
  simp [pickToken, ht, hp]

/-- A full hit picks from the cached logits, or takes over the cached token. -/
theorem fullHit_spec (setup : Setup) (c : Call R) (s : Service Ω Δ R) (ids : List Token)
    (g : Locals Ω Δ R) :
    ∃ logits current generator,
      fullHit setup c s ids g =
        { g with logits := logits, current := current, generator := generator } ∧
      (cacheLogitsUsable setup s = true → ∃ kept, s.cacheLogits = some kept ∧
        logits = g.logits.map (fun _ => kept) ∧
        (current, generator) = pickToken c kept g.generator g.history ids.length) ∧
      (cacheLogitsUsable setup s = false → current = s.cacheNextToken) := by
  unfold fullHit
  cases hl : s.cacheLogits with
  | none =>
    have hu : cacheLogitsUsable setup s = false := by simp [cacheLogitsUsable, hl]
    exact ⟨_, _, _, rfl, by simp [hu], fun _ => rfl⟩
  | some kept =>
    cases hu : cacheLogitsUsable setup s with
    | false => exact ⟨_, _, _, rfl, by simp, fun _ => rfl⟩
    | true => exact ⟨_, _, _, rfl, fun _ => ⟨kept, rfl, rfl, rfl⟩, by simp⟩

theorem fullHit_answered (hit : cacheHit setup c s ids = true)
    (hfull : s.cacheCount = ids.length) {g : Locals Ω Δ R} (hlogits : g.logits.isSome = c.needsLogits)
    (hmodel : g.model.consumed = feedAt 0 s.cached) :
    Answered A c s setup (fullHit setup c s ids g) := by
  intro target hA hsize hcont
  obtain ⟨hv, -⟩ := prefixHit_spec (cacheHit_prefixHit hit)
  obtain ⟨hkept, hnext⟩ := hcont hv
  obtain ⟨logits, current, generator, heq, husable, hnot⟩ :=
    fullHit_spec setup c s ids g
  rw [heq]
  simp only [hmodel]
  have hvalid : s.cacheLogitsValid = cacheLogitsUsable setup s := by
    cases hlv : s.cacheLogitsValid with
    | false => simp [cacheLogitsUsable, hlv]
    | true => simp [cacheLogitsUsable, hlv, hkept hlv, hsize]
  refine ⟨fun hneeds => ?_, fun hneeds => ?_⟩
  · have hu : cacheLogitsUsable setup s = true := by
      simp only [cacheHit, hneeds, hfull, Bool.and_eq_true] at hit
      simpa using hit.2
    obtain ⟨kept, hk, rfl, -⟩ := husable hu
    rw [hkept (hvalid.trans hu)] at hk
    obtain ⟨x, hx⟩ := Option.isSome_iff_exists.mp (hlogits.trans hneeds)
    simp [hx, Option.some.inj hk]
  · cases hu : cacheLogitsUsable setup s with
    | true =>
      obtain ⟨kept, hk, -, hpick⟩ := husable hu
      rw [hkept (hvalid.trans hu)] at hk
      rw [pickToken_greedy hneeds, Prod.mk.injEq] at hpick
      rw [hpick.1, Option.some.inj hk]
    | false => rw [hnot hu, hnext (hvalid.trans hu)]

theorem takeOver_prompting (setup : Setup) (A : Answers Ω R) (c : Call R) (s : Service Ω Δ R)
    (hne : ids ≠ []) :
    let g := resetDraft setup c (takeOver setup c s ids)
    1 ≤ g.promptStart ∧ (cacheHit setup c s ids = false ∨ g.promptStart ≤ ids.length →
      Prompting setup A c s ids (g.promptStart - 1) g) := by
  have hpos := List.length_pos_of_ne_nil hne
  unfold takeOver resetDraft
  cases hit : cacheHit setup c s ids with
  | false =>
    simp only [Bool.false_eq_true, if_false]
    split_ifs with hd
    all_goals
      refine ⟨Nat.le_refl _, fun _ => ?_⟩
      refine ⟨Nat.zero_le _, rfl, rfl, rfl, rfl, rfl, fun h => ?_, fun _ => rfl, fun _ h => ?_⟩
      · first | rfl | exact absurd h hd
      · simp [initialLocals] at h
        omega
  | true =>
    obtain ⟨hv, hcount, hle, htake, -⟩ := prefixHit_spec (cacheHit_prefixHit hit)
    have hd : ¬c.useExternalDraft setup = true := by
      intro hd
      simp [useExternalDraft_no_hit hd] at hit
    simp only [if_true, hd, Bool.false_eq_true, if_false]
    refine ⟨by simp, fun hmore => ?_⟩
    have hmore : s.cacheCount + 1 ≤ ids.length := by simpa using hmore
    exact ⟨hle, rfl, rfl, rfl, rfl, rfl, fun h => absurd h hd,
      fun hs => ((hs hv).2).trans (by simp [htake]), fun _ h => by simp at h; omega⟩

theorem claim_prompting (setup : Setup) (A : Answers Ω R) (c : Call R) (s : Service Ω Δ R)
    (hne : ids ≠ []) :
    Prompting setup A c s ids ((claim setup c s ids).promptStart - 1) (claim setup c s ids) ∧
      1 ≤ (claim setup c s ids).promptStart := by
  obtain ⟨hstart, hg⟩ := takeOver_prompting setup A c s hne
  unfold claim
  dsimp only
  split_ifs with hfull
  · simp only [Bool.and_eq_true, decide_eq_true_eq] at hfull
    obtain ⟨hit, hfull⟩ := hfull
    obtain ⟨hv, hcount, hle, htake, -⟩ := prefixHit_spec (cacheHit_prefixHit hit)
    have hd : ¬c.useExternalDraft setup = true := by
      intro hd
      simp [useExternalDraft_no_hit hd] at hit
    have htaken : resetDraft setup c (takeOver setup c s ids) = { initialLocals c s ids with
        promptStart := s.cacheCount + 1, stateCount := s.cacheCount } := by
      simp only [takeOver, resetDraft, hit, if_true, hd, Bool.false_eq_true, if_false]
    rw [htaken] at hfull ⊢
    have hfull' : s.cacheCount = ids.length := by simp at hfull; omega
    obtain ⟨logits, current, generator, heq, -⟩ :=
      fullHit_spec setup c s ids { initialLocals c s ids with
        promptStart := s.cacheCount + 1, stateCount := s.cacheCount }
    have hanswered := fun hs : Aligned s => fullHit_answered (A := A) hit hfull'
      (g := { initialLocals c s ids with
        promptStart := s.cacheCount + 1, stateCount := s.cacheCount })
      (by simp only [initialLocals]; split_ifs <;> simp_all) (hs hv).2
    rw [heq] at hanswered ⊢
    exact ⟨⟨hle, rfl, rfl, rfl, rfl, rfl, fun h => absurd h hd,
      fun hs => ((hs hv).2).trans (by simp [htake]), fun hs _ => hanswered hs⟩, by simp⟩
  · refine ⟨?_, hstart⟩
    have hg := hg (by simp at hfull; cases hit : cacheHit setup c s ids <;> simp_all)
    exact ⟨hg.le, hg.stateTokens, hg.history, hg.generatedIds, hg.stopTokenCount, hg.stateCount,
      hg.draft, hg.consumed, fun hs hl => (hg.answered hs hl).congr rfl rfl rfl⟩

/-! ### One token, one batch -/

theorem feedAt_append (position : ℕ) (xs ys : List Token) :
    feedAt position (xs ++ ys) = feedAt position xs ++ feedAt (position + xs.length) ys := by
  simp [feedAt, List.zipIdx_append]

/-- The prompt tokens up to `i + k` are those up to `i` and the next `k`. -/
theorem feedAt_take_add (ids : List Token) {i : ℕ} (h : i ≤ ids.length) (k : ℕ) :
    feedAt 0 (ids.take (i + k)) = feedAt 0 (ids.take i) ++ feedAt i ((ids.drop i).take k) := by
  rw [List.take_add, feedAt_append]
  simp [h]

/-- Token `i` (from 0) was fed to the model as `g` says; the draft step follows suit. -/
theorem Prompting.draftStep {token : Token} {g₀ : Locals Ω Δ R}
    (hg₀ : Prompting setup A c s ids i g₀) (h : draftStep setup B c token i g = .ok g')
    (hlt : i < ids.length) (htoken : ids[i] = token)
    (hfed : g.model.consumed = g₀.model.consumed ++ feedAt i [token])
    (hsame : g.stateTokens = g₀.stateTokens ∧ g.history = g₀.history ∧
      g.generatedIds = g₀.generatedIds ∧ g.stopTokenCount = g₀.stopTokenCount ∧
      g.draft = g₀.draft ∧ g.stateCount = i + 1)
    (hanswered : i + 1 = ids.length → Answered A c s setup g) :
    Prompting setup A c s ids (i + 1) g' := by
  obtain ⟨hstate, hhist, hgen, hstop, hdraft, hcount⟩ := hsame
  have htake : (ids.drop i).take 1 = [token] := by
    rw [List.drop_eq_getElem_cons hlt, htoken]
    rfl
  obtain ⟨draft, hd, rfl⟩ := draftStep_ok h
  refine ⟨hlt, hstate.trans hg₀.stateTokens, hhist.trans hg₀.history, hgen.trans hg₀.generatedIds,
    hstop.trans hg₀.stopTokenCount, hcount, fun hu => ?_, fun hs => ?_,
    fun _ hlast => (hanswered hlast).congr rfl rfl rfl⟩
  · rw [hd hu, hdraft, hg₀.draft hu]
    exact hfed.symm
  · rw [feedAt_take_add _ (by omega), htake, ← hg₀.consumed hs]
    exact hfed

theorem promptToken_prompting {token : Token} (hg : Prompting setup A c s ids i g)
    (hlt : i < ids.length) (htoken : ids[i] = token)
    (h : promptToken setup A B c ids (i + 1) token g = .ok g') :
    Prompting setup A c s ids (i + 1) g' := by
  unfold promptToken at h
  simp only [Nat.add_sub_cancel] at h
  cases hneeds : c.needsLogits with
  | true =>
    simp only [hneeds, if_true] at h
    split at h
    · cases h
    · rename_i logits model hm
      obtain ⟨hlogits, hfed, -⟩ := Live.answered_ok hm
      refine hg.draftStep h hlt htoken hfed ⟨rfl, rfl, rfl, rfl, rfl, rfl⟩ ?_
      intro hlast target hA _ _
      refine ⟨fun _ => ?_, fun hn => by simp [hneeds] at hn⟩
      simp only [hlast, decide_true] at hlogits
      rw [hA.forward _ _ _ _ _ hlogits, hfed]
  | false =>
    simp only [hneeds, Bool.false_eq_true, if_false] at h
    split at h
    · cases h
    · rename_i next model hm
      obtain ⟨hnext, hfed, -⟩ := Live.answered_ok hm
      refine hg.draftStep h hlt htoken hfed ⟨rfl, rfl, rfl, rfl, rfl, rfl⟩ ?_
      intro hlast target hA _ _
      refine ⟨fun hn => by simp [hneeds] at hn, fun _ => ?_⟩
      simp only [hlast, decide_true] at hnext
      rw [hA.forwardGreedy _ _ _ _ _ hnext, hfed]

theorem promptScalar_prompting {rest : List Token} (hg : Prompting setup A c s ids i g)
    (hrest : rest = ids.drop i)
    (h : promptScalar setup A B c ids (i + 1) rest g = .ok g') :
    Prompting setup A c s ids ids.length g' := by
  induction rest generalizing i g with
  | nil =>
    cases h
    have : i = ids.length := by
      have := congrArg List.length hrest
      have := hg.le
      simp at *
      omega
    exact this ▸ hg
  | cons token rest ih =>
    have hlt : i < ids.length := by
      have := congrArg List.length hrest
      simp at this
      omega
    rw [List.drop_eq_getElem_cons hlt, List.cons.injEq] at hrest
    simp only [promptScalar] at h
    split at h
    · cases h
    · rename_i g₁ hstep
      exact ih (promptToken_prompting hg hlt hrest.1.symm hstep) hrest.2 h

theorem batchCount_le (capacity remaining : ℕ) : batchCount capacity remaining ≤ remaining := by
  unfold batchCount
  dsimp only
  split_ifs <;> omega

theorem batchCount_pos {capacity remaining : ℕ} (hc : 1 < capacity) (hr : 0 < remaining) :
    0 < batchCount capacity remaining := by
  unfold batchCount
  dsimp only
  split_ifs <;> omega

/-- The batches end with a prefix of the prompt consumed: all of it, or as much as the layout
supports. -/
theorem promptBatches_prompting (hd : c.useExternalDraft setup = false) (hcap : 1 < c.batchCapacity) :
    ∀ (fuel : ℕ) {i : ℕ} {g : Locals Ω Δ R} {whole : Bool}, Prompting setup A c s ids i g →
      g.promptStart = i + 1 → promptBatches A c ids fuel (i + 1) g = .ok (whole, g') →
        ∃ j, Prompting setup A c s ids j g' ∧ g'.promptStart = j + 1 ∧
          (whole = true → j = ids.length) := by
  intro fuel
  induction fuel with
  | zero =>
    intro i g whole hg hstart h
    cases h
    exact ⟨i, hg, hstart, by simp⟩
  | succ fuel ih =>
    intro i g whole hg hstart h
    simp only [promptBatches, Nat.add_sub_cancel] at h
    split at h
    · cases h
      exact ⟨i, hg, hstart, by simp⟩
    rename_i hmore
    set count := batchCount c.batchCapacity (ids.length - (i + 1) + 1) with hcount
    have hle : count ≤ ids.length - i := by
      have := batchCount_le c.batchCapacity (ids.length - (i + 1) + 1)
      omega
    have hpos : 0 < count := batchCount_pos hcap (by omega)
    have hend : i + 1 + count - 1 = i + count := by omega
    simp only [hend] at h
    split at h
    · cases h
      exact ⟨i, hg, hstart, by simp⟩
    split at h
    · cases h
    rename_i logits model hm
    obtain ⟨hlogits, hfed, -⟩ := Live.answered_ok hm
    have hconsumed : Aligned s → model.consumed = feedAt 0 (ids.take (i + count)) := by
      intro hs
      rw [hfed, hg.consumed hs, feedAt_take_add _ hg.le]
    split at h
    · rename_i hlast
      simp only [Except.ok.injEq, Prod.mk.injEq] at h
      obtain ⟨rfl, rfl⟩ := h
      refine ⟨i + count, ⟨by omega, hg.stateTokens, hg.history, hg.generatedIds, hg.stopTokenCount,
        rfl, by simp [hd], hconsumed, ?_⟩, rfl, fun _ => hlast⟩
      intro _ _ target hA _ _
      simp only [hlast, decide_true] at hlogits
      have hl := hA.forwardBatch _ _ _ _ _ hlogits
      rw [← hfed] at hl
      exact ⟨fun _ => by rw [hl], fun hneeds => by rw [pickToken_greedy hneeds, hl]⟩
    · rename_i hlast
      refine ih ?_ rfl h
      exact ⟨by omega, hg.stateTokens, hg.history, hg.generatedIds, hg.stopTokenCount, rfl,
        by simp [hd], hconsumed, fun _ hl => absurd hl hlast⟩

/-! ### The whole prompt -/

theorem promptRest_prompting (hg : Prompting setup A c s ids i g) (hi : g.promptStart = i + 1)
    (h : promptRest setup A B c ids g = .ok g') : Prompting setup A c s ids ids.length g' := by
  unfold promptRest at h
  rw [hi] at h
  exact promptScalar_prompting hg rfl h

theorem evaluatePrompt_prompting (hg : Prompting setup A c s ids i g) (hi : g.promptStart = i + 1)
    (h : evaluatePrompt setup A B c ids g = .ok g') : Prompting setup A c s ids ids.length g' := by
  unfold evaluatePrompt at h
  split_ifs at h with hbatch
  · simp only [Bool.and_eq_true, Bool.not_eq_true', decide_eq_true_eq] at hbatch
    rw [hi] at h
    split at h
    · cases h
    · rename_i g₂ hb
      cases h
      obtain ⟨j, hg', -, hwhole⟩ := promptBatches_prompting hbatch.1.1 hbatch.2 _ hg hi hb
      exact hwhole rfl ▸ hg'
    · rename_i g₂ hb
      obtain ⟨j, hg', hj, -⟩ := promptBatches_prompting hbatch.1.1 hbatch.2 _ hg hi hb
      exact promptRest_prompting hg' hj h
  · exact promptRest_prompting hg hi h

/-- When the prompt phase succeeds, the whole prompt has been consumed; the first token, or the
logits it was picked from, are the model's. -/
theorem promptPhase_prompting (hne : ids ≠ [])
    (h : promptPhase setup A B c ids (claim setup c s ids) = .ok g) :
    Prompting setup A c s ids ids.length g ∧
      g.cacheResultLogitsValid = (c.needsLogits && g.logits.isSome) := by
  obtain ⟨hclaim, hstart⟩ := claim_prompting setup A c s hne
  unfold promptPhase at h
  split at h
  · cases h
  rename_i g₁ hev
  cases h
  have hg := evaluatePrompt_prompting hclaim (by omega) hev
  exact ⟨⟨hg.le, hg.stateTokens, hg.history, hg.generatedIds, hg.stopTokenCount, hg.stateCount,
    hg.draft, hg.consumed, fun hs hl => (hg.answered hs hl).congr rfl rfl rfl⟩, rfl⟩

end FortAI
