import FortAI.Machine.Decoding
import FortAI.Service.Cache
import Mathlib.Data.List.TakeWhile

/-!
# Speculative decoding is lossless

Whatever the drafts, the generation loop computes autoregressive decoding of the target model
(`Call.decoder`): a scalar pass is one step of it and a verified run of one to three tokens is as
many.  So native speculation changes neither the tokens nor their count.

* `Answers.Serves` : a deterministic model that may refuse verification batches but does not fail.
* `verifySampled_picks`, `greedyTokens_picks` : a verified run is a run of picks.
* `generate_decodes` : the generation loop is decoding.
* `speculation_lossless` : the tokens and their count do not depend on native speculation.
-/

namespace FortAI

open Arithmetic

variable {Ω Δ R D : Type} [Arithmetic R D]

/-- A verification batch either succeeds, within the context, or is refused. -/
def Accelerates {α : Type} (maxContext position : ℕ) (reply : Except Failure α) : Prop :=
  (∃ a, reply = .ok a ∧ position + 2 < maxContext) ∨ ∃ left, reply = .error ⟨.unsupported, left⟩

/-- A deterministic model whose calls succeed, but that may refuse verification batches, and does so
when they would not fit the context. -/
structure Answers.Serves (A : Answers Ω R) (target : Fed → List R) (maxContext : ℕ) : Prop
    extends A.Follows target where
  forward_ok : ∀ ω fed token position,
    ∃ logits, (A.forward ω fed token position true).1 = .ok logits
  forwardGreedy_ok : ∀ ω fed token position,
    ∃ next, (A.forwardGreedy ω fed token position true).1 = .ok next
  accept_ok : ∀ ω fed drafts position accepted,
    (A.acceptSampledSpeculative ω fed drafts position accepted).1 = .ok ()
  prepare : ∀ ω fed token position,
    Accelerates maxContext position (A.prepareSampledSpeculative ω fed token position).1
  prepareTopk : ∀ ω fed token position topK,
    Accelerates maxContext position (A.prepareSampledSpeculativeTopk ω fed token position topK).1
  greedySpeculative : ∀ ω fed token position,
    Accelerates maxContext position (A.forwardGreedySpeculative ω fed token position).1

/-- A standalone draft, when there is one, does not fail. -/
def DraftServes (setup : Setup) (B : Answers Δ R) : Prop :=
  setup.externalDraftActive = true → ∀ ω fed token position,
    ∃ next, (B.forwardGreedy ω fed token position true).1 = .ok next

variable {setup : Setup} {A : Answers Ω R} {B : Answers Δ R} {c : Call R}
variable {s : Service Ω Δ R} {ids : List Token} {position : ℕ} {g g' : Locals Ω Δ R}
variable {target : Fed → List R} {base : Fed}

/-- Decoding with the target model after a prompt that left `base` consumed. -/
def Call.decoder (setup : Setup) (target : Fed → List R) (c : Call R) (ids : List Token)
    (base : Fed) : Decoder Token Mt19937 where
  next out generator :=
    pickToken c (target (base ++ feedAt ids.length out)) generator (ids ++ out)
      (ids.length + out.length)
  valid t := decide (0 ≤ t)
  stops := stops setup c
  room := min c.maxTokens.toNat (setup.maxContext - ids.length)

/-! ### Picking a token -/

theorem pickToken_congr {history history' : List Token} {n : ℕ}
    (h : history.take n = history'.take n) (logits : List R) (generator : Mt19937) :
    pickToken c logits generator history n = pickToken c logits generator history' n := by
  simp only [pickToken, sampleLogits_congr h, greedyPenalized_congr h]

theorem pickToken_nonneg {logits : List R} (h : logits ≠ []) (generator : Mt19937)
    (history : List Token) (n : ℕ) : 0 ≤ (pickToken c logits generator history n).1 := by
  unfold pickToken
  split_ifs with ht hp
  · exact sampleLogits_nonneg ..
  · refine argmax_nonneg fun hnil => h ?_
    have hlen := penalisedLogits_length logits history n c.options
    rw [hnil] at hlen
    exact List.length_eq_zero_iff.mp hlen.symm
  · exact argmax_nonneg h

theorem pickRow_eq (hneeds : c.needsLogits = true) (row : List R) (generator : Mt19937)
    (history : List Token) (n : ℕ) :
    pickRow c row generator history n = pickToken c row generator history n := by
  unfold pickRow pickToken
  split_ifs with ht hp
  · rfl
  · rfl
  · simp [Call.needsLogits, ht, hp] at hneeds

theorem pickTopk_eq (htop : c.useDeviceTopk = true) {logits : List R} {row : TopkRow R}
    (hrow : IsTopkRow c.options.topK.toNat logits row) (hsize : logits.length = setup.vocabularySize)
    (generator : Mt19937) (history history' : List Token) (n : ℕ) :
    pickTopk setup c row generator history' n = pickToken c logits generator history n := by
  simp only [Call.useDeviceTopk, Bool.and_eq_true, decide_eq_true_eq, Bool.not_eq_true'] at htop
  obtain ⟨⟨⟨⟨-, ht⟩, hpos⟩, -⟩, hp⟩ := htop
  simp only [pickTopk, pickToken, ht, if_true, ← hsize]
  exact sampleTopkCandidates_eq_sampleLogits hp hpos hrow ..

/-! ### Verified runs are runs of picks -/

theorem take_set_of_le {α : Type} (l : List α) {n i : ℕ} (h : n ≤ i) (a : α) :
    (l.set i a).take n = l.take n := by
  rw [List.take_set, List.set_eq_of_length_le]
  simp
  omega

theorem take_succ_set {l l₀ : List Token} {n : ℕ} (h : l.take n = l₀) (hn : n < l.length)
    (t : Token) : (l.set n t).take (n + 1) = l₀ ++ [t] := by
  rw [List.take_set, List.take_succ_eq_append_getElem hn, h]
  have : l₀.length = n := by
    rw [← h]
    simp
    omega
  rw [List.set_append_right _ _ (by omega)]
  simp [this]

/-- The tokens drawn for a verification batch are those decoding draws one at a time. -/
theorem verifySampled_picks (setup : Setup) (base : Fed) {α : Type}
    (pick : α → Mt19937 → List Token → ℕ → Token × Mt19937)
    {rows : Rows α} {drafts : Drafts} {out : List Token} {history : List Token}
    (hpick : ∀ i ≤ 2, ∀ generator history n, pick (rows.get i) generator history n =
      pickToken c (target (base ++ feedAt ids.length (out ++ drafts.toList.take i))) generator
        history n)
    (hhistory : history.take (ids.length + out.length) = ids ++ out)
    (hroom : ids.length + out.length + 2 ≤ history.length) (generator : Mt19937) :
    let v := verifySampled pick rows drafts generator history (ids.length + out.length)
    (c.decoder setup target ids base).Picks out generator (drafts.toList.take v.accepted)
        (v.next, v.generator) ∧
      v.history.take (ids.length + out.length) = ids ++ out ∧
      v.history.length = history.length := by
  have hfirst := hpick 0 (by omega)
  have hsecond := hpick 1 (by omega)
  have hthird := hpick 2 (by omega)
  set n := ids.length + out.length with hn
  -- the next pick of the decoder, from a history that agrees up to the count
  have hnext : ∀ (ts : List Token) (γ : Mt19937) (h' : List Token),
      h'.take (n + ts.length) = ids ++ out ++ ts →
      (c.decoder setup target ids base).next (out ++ ts) γ =
        pickToken c (target (base ++ feedAt ids.length (out ++ ts))) γ h' (n + ts.length) := by
    intro ts γ h' hh
    have hlen : n + ts.length = ids.length + (out ++ ts).length := by simp [hn]; omega
    simp only [Call.decoder]
    rw [hlen] at hh ⊢
    refine pickToken_congr ?_ _ _
    rw [hh, List.append_assoc, List.take_of_length_le (by simp)]
  have h₁ : (history.set n drafts.first).take (n + 1) = ids ++ out ++ [drafts.first] :=
    take_succ_set hhistory (by omega) _
  have h₂ : ((history.set n drafts.first).set (n + 1) drafts.second).take (n + 2) =
      ids ++ out ++ [drafts.first, drafts.second] := by
    have := take_succ_set h₁ (by simp; omega) drafts.second
    simpa using this
  have p₀ := fun γ => hnext [] γ history (by simpa using hhistory)
  have p₁ := fun γ => hnext [drafts.first] γ _ h₁
  have p₂ := fun γ => hnext [drafts.first, drafts.second] γ _ h₂
  simp only [List.append_nil, List.length_nil, Nat.add_zero, List.length_cons, Nat.zero_add] at p₀ p₁ p₂
  simp only [Rows.get, Drafts.toList, List.take_zero, List.append_nil] at hfirst
  simp only [Rows.get, Drafts.toList, List.take_succ_cons, List.take_zero] at hsecond
  simp only [Rows.get, Drafts.toList, List.take_succ_cons, List.take_zero] at hthird
  unfold verifySampled
  simp only [hfirst, hsecond, hthird, ← p₀, ← p₁, ← p₂]
  split_ifs with hd₁ hd₂
  · exact ⟨rfl, hhistory, rfl⟩
  · rw [not_not] at hd₁
    refine ⟨⟨_, by rw [← hd₁], rfl⟩, ?_, by simp⟩
    rw [take_set_of_le _ (Nat.le_refl _), hhistory]
  · rw [not_not] at hd₁ hd₂
    refine ⟨⟨_, by rw [← hd₁], _, by rw [← hd₂], ?_⟩, ?_, by simp⟩
    · change Decoder.next _ (out ++ [drafts.first] ++ [drafts.second]) _ = _
      rw [List.append_assoc]
      rfl
    rw [take_set_of_le _ (by omega), take_set_of_le _ (Nat.le_refl _), hhistory]

/-- The tokens of a greedy verification are those decoding picks one at a time. -/
theorem greedyTokens_picks (hneeds : c.needsLogits = false) {tokens out : List Token}
    (hne : tokens ≠ [])
    (htokens : ∀ i (h : i < tokens.length),
      tokens[i] = argmax (target (base ++ feedAt ids.length (out ++ tokens.take i))))
    (generator : Mt19937) :
    (c.decoder setup target ids base).Picks out generator tokens.dropLast
      (tokens.getLastD 0, generator) := by
  induction tokens generalizing out with
  | nil => exact absurd rfl hne
  | cons t ts ih =>
    have hnext : (c.decoder setup target ids base).next out generator = (t, generator) := by
      have := htokens 0 (by simp)
      simp only [List.getElem_cons_zero, List.take_zero, List.append_nil] at this
      rw [this]
      exact pickToken_greedy hneeds
    cases ts with
    | nil => exact hnext
    | cons u us =>
      refine ⟨generator, hnext, ?_⟩
      have hrest : ∀ i (h : i < (u :: us).length), (u :: us)[i] =
          argmax (target (base ++ feedAt ids.length (out ++ [t] ++ (u :: us).take i))) := by
        intro i hi
        have := htokens (i + 1) (Nat.succ_lt_succ hi)
        rw [List.getElem_cons_succ, List.take_succ_cons] at this
        rw [this, List.append_assoc, List.singleton_append]
      simpa using ih (List.cons_ne_nil u us) hrest

/-! ### A speculative step -/

theorem speculateSampled_serves (hS : A.Serves target setup.maxContext) {α : Type}
    {reply : Except Failure (Drafts × Rows α) × Ω}
    {pick : α → Mt19937 → List Token → ℕ → Token × Mt19937}
    {keep : α → Locals Ω Δ R → Locals Ω Δ R}
    (h : Accelerates setup.maxContext position reply.1) :
    (∃ tokens g', speculateSampled A
        ({ g.model with prepared := g.current }.answered reply fun _ => []) pick keep ids position g =
          (.ok tokens, g') ∧ position + 2 < setup.maxContext) ∨
    ∃ model : Live Ω, model.consumed = g.model.consumed ∧
      speculateSampled A
        ({ g.model with prepared := g.current }.answered reply fun _ => []) pick keep ids position g =
          (.error .unsupported, { g with model := model }) := by
  rcases h with ⟨⟨drafts, rows⟩, hok, hwindow⟩ | ⟨left, herror⟩
  · left
    obtain ⟨m, hm⟩ := Live.answered_of_ok { g.model with prepared := g.current } (fun _ => []) hok
    simp only [hm, speculateSampled, acceptVerified]
    set v := verifySampled pick rows drafts g.generator g.history
      (ids.length + g.generatedIds.length)
    obtain ⟨m', hm'⟩ := Live.answered_of_ok m
      (fun _ => feedAt position (m.prepared :: drafts.toList.take v.accepted))
      (hS.accept_ok m.oracle m.consumed drafts position v.accepted)
    simp only [Live.acceptSampledSpeculative, hm']
    exact ⟨_, _, rfl, hwindow⟩
  · right
    obtain ⟨m, hm, hkeep⟩ := Live.answered_of_unsupported
      { g.model with prepared := g.current } (fun _ => []) herror
    exact ⟨m, hkeep, by simp [hm, speculateSampled]⟩

/-- A speculative step either succeeds, within the context, or changes nothing but the model, which
has consumed nothing. -/
theorem speculate_serves (hS : A.Serves target setup.maxContext) (c : Call R) (ids : List Token)
    (position : ℕ) (g : Locals Ω Δ R) :
    (∃ tokens g', speculate setup A c ids position g = (.ok tokens, g') ∧
      position + 2 < setup.maxContext) ∨
    ∃ model : Live Ω, model.consumed = g.model.consumed ∧
      speculate setup A c ids position g = (.error .unsupported, { g with model := model }) := by
  unfold speculate
  split_ifs
  · exact speculateSampled_serves hS (hS.prepareTopk ..)
  · exact speculateSampled_serves hS (hS.prepare ..)
  · unfold speculateGreedy
    rcases hS.greedySpeculative g.model.oracle g.model.consumed g.current position with
      ⟨tokens, hok, hwindow⟩ | ⟨left, herror⟩
    · obtain ⟨m, hm⟩ := Live.answered_of_ok g.model
        (fun tokens => feedAt position (g.current :: tokens.dropLast)) hok
      simp only [Live.forwardGreedySpeculative, hm]
      exact .inl ⟨_, _, rfl, hwindow⟩
    · obtain ⟨m, hm, hkeep⟩ := Live.answered_of_unsupported g.model
        (fun tokens : List Token => feedAt position (g.current :: tokens.dropLast)) herror
      simp only [Live.forwardGreedySpeculative, hm]
      exact .inr ⟨m, hkeep, rfl⟩

/-- The tokens of a speculative step are a run of picks, and the history up to them is kept. -/
theorem speculate_picks (hA : A.Follows target)
    (hsize : ∀ fed, (target fed).length = setup.vocabularySize) {base : Fed}
    {out tokens : List Token}
    (hout : g.generatedIds = out)
    (hfed : ∀ ts, g.model.consumed ++ feedAt position (g.current :: ts) =
      base ++ feedAt ids.length (out ++ ts))
    (hhistory : g.history.take (ids.length + out.length) = ids ++ out)
    (hroom : ids.length + out.length + 2 ≤ g.history.length)
    (h : speculate setup A c ids position g = (.ok tokens, g')) :
    tokens ≠ [] ∧ tokens.length ≤ 3 ∧
      (c.decoder setup target ids base).Picks out g.generator tokens.dropLast
        (tokens.getLastD 0, g'.generator) ∧
      g'.history.take (ids.length + out.length) = ids ++ out ∧
      g'.history.length = g.history.length := by
  unfold speculate at h
  split_ifs at h with hneeds htop
  · obtain ⟨drafts, rows, v, model, hrows, hv, rfl, -, rfl⟩ := speculateSampled_ok h
    have hrow := hA.topkRows _ _ _ _ _ _ _ hrows
    simp only [hfed] at hrow
    rw [hout] at hv
    have := verifySampled_picks setup base (pickTopk setup c)
      (fun i hi γ hist n => pickTopk_eq htop (hrow i hi) (hsize _) γ hist hist n) hhistory hroom
      g.generator
    rw [← hv] at this
    have hle : v.accepted ≤ 2 := hv ▸ verifySampled_accepted_le ..
    have hthree : (drafts.toList.take v.accepted ++ [v.next]).length ≤ 3 := by
      rw [List.length_append, List.length_take, Drafts.length_toList, List.length_singleton]
      omega
    exact ⟨by simp, hthree, by simpa [keepTopk] using this.1, this.2⟩
  · obtain ⟨drafts, rows, v, model, hrows, hv, rfl, -, rfl⟩ := speculateSampled_ok h
    have hrow := hA.rows _ _ _ _ _ _ hrows
    simp only [hfed] at hrow
    rw [hout] at hv
    have := verifySampled_picks setup base (pickRow c)
      (fun i hi γ hist n => by rw [pickRow_eq hneeds, hrow i hi]) hhistory hroom g.generator
    rw [← hv] at this
    have hle : v.accepted ≤ 2 := hv ▸ verifySampled_accepted_le ..
    have hthree : (drafts.toList.take v.accepted ++ [v.next]).length ≤ 3 := by
      rw [List.length_append, List.length_take, Drafts.length_toList, List.length_singleton]
      omega
    exact ⟨by simp, hthree, by simpa [keepRow] using this.1, this.2⟩
  · obtain ⟨model, htokens, -, rfl⟩ := speculateGreedy_ok h
    obtain ⟨hne, hlen, hall⟩ := hA.greedyTokens _ _ _ _ _ htokens
    simp only [hfed] at hall
    exact ⟨hne, hlen, greedyTokens_picks (by simpa using hneeds) hne hall _, hhistory, rfl⟩

/-! ### The loop -/

/-- The state at the head of the generation loop, as far as decoding is concerned. -/
structure Decoding (c : Call R) (ids : List Token) (base : Fed) (g : Locals Ω Δ R) : Prop where
  emitted : g.generatedIds.length ≤ c.maxTokens.toNat
  history : g.history.take (ids.length + g.generatedIds.length) = ids ++ g.generatedIds
  historyLength : g.history.length = ids.length + c.maxTokens.toNat
  stateTokens : g.stateTokens.length = ids.length + c.maxTokens.toNat
  stateCount : g.stateCount = ids.length + g.generatedIds.length
  consumed : g.model.consumed = base ++ feedAt ids.length g.generatedIds
  stopTokenCount : g.stopTokenCount = 0

/-- The outcome of decoding: the tokens, and whether a stop token was met. -/
def Decodes (r : List Token × Bool) (g : Locals Ω Δ R) : Prop :=
  g.generatedIds = r.1 ∧ g.stopTokenCount = r.2.toNat

/-- What a pass may come to: the outcome of decoding, or a state from which decoding goes on. -/
def DecodesOn (setup : Setup) (target : Fed → List R) (c : Call R) (ids : List Token) (base : Fed)
    (r : List Token × Bool) (emitted : ℕ) : Flow (Locals Ω Δ R) Branch → Prop
  | .next _ g => Decoding c ids base g ∧ emitted < g.generatedIds.length ∧
      (c.decoder setup target ids base).run g.current g.generator g.generatedIds = r
  | .done _ g => Decodes r g
  | .abort _ _ => False

theorem draftStep_serves (hB : DraftServes setup B) (c : Call R) (position : ℕ)
    (g : Locals Ω Δ R) (token : Token) :
    ∃ draft : Live Δ, draftStep setup B c token position g = .ok { g with draft := draft } := by
  unfold draftStep
  split_ifs with hd
  · simp only [Call.useExternalDraft, Bool.and_eq_true] at hd
    obtain ⟨t, ht⟩ := hB hd.1.1 g.draft.oracle g.draft.consumed token position
    obtain ⟨draft, hd⟩ := Live.answered_of_ok g.draft (fun _ => feedAt position [token]) ht
    exact ⟨draft, by simp only [Live.forwardGreedy, hd]⟩
  · exact ⟨g.draft, rfl⟩

theorem finishStep_serves (hB : DraftServes setup B) (c : Call R) (position : ℕ)
    (g : Locals Ω Δ R) (e : Branch) :
    ∃ draft : Live Δ, finishStep setup B c e position g = .next e { g with draft := draft } := by
  obtain ⟨draft, hd⟩ := draftStep_serves hB c position g g.current
  exact ⟨draft, by simp only [finishStep, hd]⟩

/-- A scalar step succeeds. -/
theorem scalarStep_serves (hS : A.Serves target setup.maxContext) (hB : DraftServes setup B)
    (c : Call R) (ids : List Token) (position : ℕ) (g : Locals Ω Δ R)
    (hroom : g.stateCount < g.stateTokens.length) :
    ∃ e g', scalarStep setup A B c ids position g = .next e g' := by
  obtain ⟨logits, hl⟩ := hS.forward_ok g.model.oracle g.model.consumed g.current position
  obtain ⟨next, hn⟩ := hS.forwardGreedy_ok g.model.oracle g.model.consumed g.current position
  obtain ⟨m, hm⟩ := Live.answered_of_ok g.model (fun _ => feedAt position [g.current]) hl
  obtain ⟨m', hm'⟩ := Live.answered_of_ok g.model (fun _ => feedAt position [g.current]) hn
  have hroom' : ¬g.stateCount ≥ g.stateTokens.length := by omega
  unfold scalarStep
  simp only [Live.forward, Live.forwardGreedy, hm, hm', hroom', if_false]
  split_ifs
  all_goals
    obtain ⟨draft, hd⟩ := finishStep_serves hB c position _ _
    exact ⟨_, _, hd⟩

/-- Emitting a run of tokens stops before the first stop token and keeps the history in step. -/
theorem emitRun_eq (setup : Setup) (c : Call R) (g : Locals Ω Δ R) (ts : List Token)
    (hhistory : g.history.take (ids.length + g.generatedIds.length) = ids ++ g.generatedIds)
    (hroom : ids.length + g.generatedIds.length + ts.length ≤ g.history.length) :
    ∃ history, emitRun setup c ids ts g = (ts.any (stops setup c), { g with
        generatedIds := g.generatedIds ++ ts.takeWhile (!stops setup c ·), history := history }) ∧
      history.length = g.history.length ∧
      (ts.any (stops setup c) = false →
        history.take (ids.length + (g.generatedIds ++ ts).length) =
          ids ++ (g.generatedIds ++ ts)) := by
  induction ts generalizing g with
  | nil => exact ⟨g.history, by simp [emitRun], rfl, fun _ => by simpa using hhistory⟩
  | cons t ts ih =>
    simp only [List.length_cons] at hroom
    cases hs : stops setup c t with
    | true => exact ⟨g.history, by simp [emitRun, hs], rfl, by simp [hs]⟩
    | false =>
      have hemit : (emit ids t g).history.take (ids.length + (g.generatedIds ++ [t]).length) =
          ids ++ (g.generatedIds ++ [t]) := by
        rw [List.length_append, ← Nat.add_assoc, ← List.append_assoc]
        exact take_succ_set hhistory (by omega) t
      obtain ⟨history, hrun, hlen, hkeep⟩ := ih (emit ids t g) hemit
        (by simp [emit]; omega)
      refine ⟨history, ?_, by simpa [emit] using hlen, fun hany => ?_⟩
      · simp only [emitRun, hs, Bool.false_eq_true, if_false, hrun]
        simp [emit, hs]
      · simpa [emit] using hkeep (by simpa [hs] using hany)

/-- A scalar step is one step of decoding. -/
theorem scalarStep_decodes (hS : A.Serves target setup.maxContext)
    (hB : DraftServes setup B) (base : Fed)
    (hemitted : 0 < g.generatedIds.length ∧ g.generatedIds.length ≤ c.maxTokens.toNat)
    (hhistory : g.history.take (ids.length + g.generatedIds.length) = ids ++ g.generatedIds)
    (hlength : g.history.length = ids.length + c.maxTokens.toNat ∧
      g.stateTokens.length = ids.length + c.maxTokens.toNat)
    (hcount : g.stateCount + 1 = ids.length + g.generatedIds.length)
    (hfed : g.model.consumed ++ feedAt position [g.current] =
      base ++ feedAt ids.length g.generatedIds)
    (hstop : g.stopTokenCount = 0) {n : ℕ} (hn : n < g.generatedIds.length) :
    let picked := (c.decoder setup target ids base).next g.generatedIds g.generator
    DecodesOn setup target c ids base
      ((c.decoder setup target ids base).run picked.1 picked.2 g.generatedIds) n
      (scalarStep setup A B c ids position g) := by
  intro picked
  have hpicked : picked = pickToken c (target (base ++ feedAt ids.length g.generatedIds))
      g.generator g.history (ids.length + g.generatedIds.length) := by
    refine pickToken_congr ?_ _ _
    rw [hhistory, List.take_of_length_le (by simp)]
  obtain ⟨e, g', hstep⟩ := scalarStep_serves hS hB c ids position g (by omega)
  rw [hstep]
  rcases scalarStep_next hstep with
    ⟨ht, -, model, draft, logits, drawn, hlogits, rfl, hmodel, -, rfl⟩ |
    ⟨ht, hp, -, -, model, draft, logits, next, hlogits, rfl, hmodel, -, rfl⟩ |
    ⟨ht, hp, -, -, model, draft, next, hnext, hmodel, -, rfl⟩
  · have hl := hS.forward _ _ _ _ _ hlogits
    rw [hfed] at hl
    refine ⟨⟨hemitted.2, hhistory, hlength.1, hlength.2, hcount, hmodel.trans hfed, hstop⟩, hn, ?_⟩
    simp [hpicked, pickToken, ht, hl]
  · have hl := hS.forward _ _ _ _ _ hlogits
    rw [hfed] at hl
    refine ⟨⟨hemitted.2, hhistory, hlength.1, by simpa using hlength.2, hcount, hmodel.trans hfed,
      hstop⟩, hn, ?_⟩
    simp [hpicked, pickToken, ht, hp, hl]
  · have hl := hS.forwardGreedy _ _ _ _ _ hnext
    rw [hfed] at hl
    refine ⟨⟨hemitted.2, hhistory, hlength.1, by simpa using hlength.2, hcount, hmodel.trans hfed,
      hstop⟩, hn, ?_⟩
    simp [hpicked, pickToken, ht, hp, hl]

/-- A committed verification is as many steps of decoding as it has tokens, or ends at its first
stop token. -/
theorem commitSpeculation_decodes
    (hB : DraftServes setup B)
    (hvocabulary : ∀ fed, target fed ≠ []) {tokens out : List Token} {generator : Mt19937}
    (hpicks : (c.decoder setup target ids base).Picks out generator tokens.dropLast
      (tokens.getLastD 0, g.generator))
    (hne : tokens ≠ []) (hthree : tokens.length ≤ 3)
    (hroom : out.length + 2 ≤ c.maxTokens.toNat ∧ ids.length + out.length + 2 ≤ setup.maxContext)
    (hout : g.generatedIds = out)
    (hhistory : g.history.take (ids.length + out.length) = ids ++ out)
    (hlength : g.history.length = ids.length + c.maxTokens.toNat ∧
      g.stateTokens.length = ids.length + c.maxTokens.toNat)
    (hcount : g.stateCount + 1 = ids.length + out.length)
    (hfed : g.model.consumed = base ++ feedAt ids.length (out ++ tokens.dropLast))
    (hstop : g.stopTokenCount = 0) {n : ℕ} (hn : n < out.length) :
    let picked := (c.decoder setup target ids base).next out generator
    DecodesOn setup target c ids base
      ((c.decoder setup target ids base).run picked.1 picked.2 out) n
      (commitSpeculation setup B c ids position tokens g) := by
  intro picked
  subst hout
  have hlen := length_dropLast_add_one hne
  have hvalid : ∀ t ∈ tokens.dropLast, (c.decoder setup target ids base).valid t = true := by
    refine hpicks.forall fun out γ => ?_
    simpa [Call.decoder] using pickToken_nonneg (hvocabulary _) γ (ids ++ out) _
  have hrun := Decoder.run_picks hpicks (by simp only [Call.decoder]; omega) hvalid
  obtain ⟨history, hemit, hkept, hmore⟩ := emitRun_eq setup c { g with
    stateTokens := writeAt g.stateTokens g.stateCount (g.current :: tokens.dropLast)
    stateCount := g.stateCount + tokens.length } tokens.dropLast hhistory
    (by simp only [hlength.1]; omega)
  have hlog : (writeAt g.stateTokens g.stateCount (g.current :: tokens.dropLast)).length =
      ids.length + c.maxTokens.toNat := by
    rw [writeAt_length _ _ (by simp only [List.length_cons]; omega), hlength.2]
  unfold commitSpeculation
  rw [if_neg (by omega), if_neg (by omega)]
  simp only [hemit]
  change DecodesOn setup target c ids base (Decoder.run _ picked.1 picked.2 g.generatedIds) n _
  rw [hrun]
  cases hany : tokens.dropLast.any (stops setup c) with
  | true =>
    simp only [Call.decoder, hany, if_true]
    exact ⟨rfl, rfl⟩
  | false =>
    have htake : tokens.dropLast.takeWhile (!stops setup c ·) = tokens.dropLast := by
      rw [List.takeWhile_eq_self_iff]
      intro t ht
      simpa using List.any_eq_false.mp hany t ht
    have hnostop : tokens.dropLast.any (c.decoder setup target ids base).stops = false := hany
    simp only [htake, hnostop, Bool.false_eq_true, if_false]
    obtain ⟨draft, hd⟩ := finishStep_serves hB c position { g with
        generatedIds := g.generatedIds ++ tokens.dropLast, history := history
        stateTokens := writeAt g.stateTokens g.stateCount (g.current :: tokens.dropLast)
        stateCount := g.stateCount + tokens.length, current := tokens.getLastD 0 }
      (speculativeBranch c false)
    rw [hd]
    refine ⟨⟨?_, hmore hany, hkept.trans hlength.1, hlog, ?_, hfed, hstop⟩, ?_, rfl⟩
    · simp only [List.length_append]
      omega
    · simp only [List.length_append]
      omega
    · simp only [List.length_append]
      omega

/-- A verification batch is attempted for the state `g`. -/
def Speculating (c : Call R) (g : Locals Ω Δ R) : Prop :=
  (g.useNativeMtp && decide (c.maxTokens.toNat - g.generatedIds.length ≥ 2)) = true

theorem advance_committed {tokens : List Token} (hguard : Speculating c g)
    (h : speculate setup A c ids (ids.length + g.generatedIds.length - 1) g = (.ok tokens, g')) :
    advance setup A B c ids g =
      commitSpeculation setup B c ids (ids.length + g.generatedIds.length - 1) tokens g' := by
  unfold Speculating at hguard
  simp only [advance, hguard, if_true, h]

theorem advance_refused (hguard : Speculating c g)
    (h : speculate setup A c ids (ids.length + g.generatedIds.length - 1) g =
      (.error .unsupported, g')) :
    advance setup A B c ids g = scalarStep setup A B c ids (ids.length + g.generatedIds.length - 1)
      { g' with useNativeMtp := false } := by
  unfold Speculating at hguard
  simp only [advance, hguard, if_true, h]

theorem advance_scalar (hguard : ¬Speculating c g) :
    advance setup A B c ids g =
      scalarStep setup A B c ids (ids.length + g.generatedIds.length - 1) g := by
  unfold Speculating at hguard
  simp only [advance, hguard, if_false, Bool.false_eq_true]

/-- Advancing the model is decoding from the tokens emitted so far. -/
theorem advance_decodes (hS : A.Serves target setup.maxContext)
    (hB : DraftServes setup B)
    (hsize : ∀ fed, (target fed).length = setup.vocabularySize) (hpos : 0 < setup.vocabularySize)
    (hg : Decoding c ids base g) (hmore : g.generatedIds.length + 1 < c.maxTokens.toNat) :
    let out := g.generatedIds ++ [g.current]
    let picked := (c.decoder setup target ids base).next out g.generator
    DecodesOn setup target c ids base
      ((c.decoder setup target ids base).run picked.1 picked.2 out) g.generatedIds.length
      (advance setup A B c ids (emit ids g.current g)) := by
  intro out picked
  have hout : out.length = g.generatedIds.length + 1 := by simp [out]
  have hposition : ids.length + out.length - 1 = ids.length + g.generatedIds.length := by omega
  have hhistory : (emit ids g.current g).history.take (ids.length + out.length) = ids ++ out := by
    rw [hout, ← Nat.add_assoc, ← List.append_assoc]
    exact take_succ_set hg.history (by rw [hg.historyLength]; omega) _
  have hlength : (emit ids g.current g).history.length = ids.length + c.maxTokens.toNat := by
    simp [emit, hg.historyLength]
  have hfed : ∀ ts, (emit ids g.current g).model.consumed ++
      feedAt (ids.length + out.length - 1) ((emit ids g.current g).current :: ts) =
        base ++ feedAt ids.length (out ++ ts) := by
    intro ts
    rw [hposition]
    simp only [emit, hg.consumed, out, List.append_assoc, List.singleton_append]
    rw [feedAt_append]
  have hscalar : ∀ g₁ : Locals Ω Δ R, g₁.model.consumed = (emit ids g.current g).model.consumed →
      g₁.generatedIds = out → g₁.history = (emit ids g.current g).history →
      g₁.stateTokens = g.stateTokens → g₁.stateCount = g.stateCount → g₁.current = g.current →
      g₁.generator = g.generator → g₁.stopTokenCount = 0 →
      DecodesOn setup target c ids base
        ((c.decoder setup target ids base).run picked.1 picked.2 out) g.generatedIds.length
        (scalarStep setup A B c ids (ids.length + out.length - 1) g₁) := by
    intro g₁ hm ho hh hs hc hcur hgen hstop
    have hfed' : g₁.model.consumed ++ feedAt (ids.length + out.length - 1) [g₁.current] =
        base ++ feedAt ids.length g₁.generatedIds := by
      rw [hm, hcur, ho]
      simpa [emit] using hfed []
    have := scalarStep_decodes (c := c) hS hB base (by rw [ho]; omega) (by rw [ho, hh, hhistory])
      ⟨by rw [hh, hlength], by rw [hs, hg.stateTokens]⟩ (by rw [hc, hg.stateCount, ho]; omega)
      hfed' hstop (by rw [ho, hout]; exact Nat.lt_succ_self _)
    rwa [ho, hgen] at this
  by_cases hguard : Speculating c (emit ids g.current g)
  · have htwo : c.maxTokens.toNat - out.length ≥ 2 := by
      simp only [Speculating, Bool.and_eq_true, decide_eq_true_eq] at hguard
      exact hguard.2
    rcases speculate_serves hS c ids (ids.length + out.length - 1) (emit ids g.current g) with
      ⟨tokens, g', hs, hwindow⟩ | ⟨model, hmodel, hs⟩
    · obtain ⟨hne, hthree, hpicks, hhist', hlen'⟩ := speculate_picks hS.toFollows hsize
        (show (emit ids g.current g).generatedIds = out from rfl) hfed hhistory (by omega) hs
      rw [advance_committed hguard hs]
      obtain ⟨model, generator, history, logits, valid, dt, da, hmodel, rfl⟩ := speculate_ok hs
      refine commitSpeculation_decodes hB ?_ hpicks hne hthree (by omega) rfl hhist'
        ⟨hlen'.trans hlength, hg.stateTokens⟩ ?_ ?_ hg.stopTokenCount (by omega)
      · intro fed hnil
        have := hsize fed
        simp [hnil] at this
        omega
      · simp only [emit, hg.stateCount]
        omega
      · exact hmodel.trans (hfed _)
    · rw [advance_refused hguard hs]
      exact hscalar _ hmodel rfl rfl rfl rfl rfl rfl hg.stopTokenCount
  · rw [advance_scalar hguard]
    exact hscalar _ rfl rfl rfl rfl rfl rfl rfl hg.stopTokenCount

/-- A pass of the generation loop decodes, or ends with what decoding ends with. -/
theorem generationStep_decodes (hS : A.Serves target setup.maxContext)
    (hB : DraftServes setup B)
    (hsize : ∀ fed, (target fed).length = setup.vocabularySize) (hpos : 0 < setup.vocabularySize)
    (hg : Decoding c ids base g) :
    DecodesOn setup target c ids base
      ((c.decoder setup target ids base).run g.current g.generator g.generatedIds)
      g.generatedIds.length (generationStep setup A B c ids g) := by
  set d := c.decoder setup target ids base with hd
  have hroom : d.room = min c.maxTokens.toNat (setup.maxContext - ids.length) := rfl
  unfold generationStep
  split
  · rw [Decoder.run_of_le (by omega)]
    exact ⟨rfl, hg.stopTokenCount⟩
  rename_i hbound
  split
  · rename_i hneg
    rw [Decoder.run_of_invalid (decide_eq_false (Int.not_le.mpr hneg))]
    exact ⟨rfl, hg.stopTokenCount⟩
  rename_i hvalid
  have hvalid' : d.valid g.current = true := decide_eq_true (Int.not_lt.mp hvalid)
  split
  · rename_i hstop
    rw [Decoder.run_of_stops (by omega) hvalid' hstop]
    exact ⟨rfl, rfl⟩
  rename_i hstop
  rw [Decoder.run_emit (by omega) hvalid' (Bool.eq_false_iff.mpr hstop)]
  dsimp only
  split
  · rename_i hlast
    simp only [emit] at hlast
    rw [Decoder.run_of_le (by omega)]
    exact ⟨rfl, hg.stopTokenCount⟩
  · rename_i hlast
    simp only [emit, List.length_append, List.length_singleton] at hlast
    exact advance_decodes hS hB hsize hpos hg (by omega)

/-- The generation loop is decoding. -/
theorem generate_decodes (hS : A.Serves target setup.maxContext)
    (hB : DraftServes setup B)
    (hsize : ∀ fed, (target fed).length = setup.vocabularySize) (hpos : 0 < setup.vocabularySize)
    (hg : Decoding c ids base g) :
    ∃ g', generate setup A B c ids g = .finished g' ∧
      Decodes ((c.decoder setup target ids base).run g.current g.generator g.generatedIds) g' := by
  suffices ∀ (fuel : ℕ) (g : Locals Ω Δ R), Decoding c ids base g →
      c.maxTokens.toNat - g.generatedIds.length < fuel →
      ∃ g', Loop.run (generationStep setup A B c ids) fuel g = .finished g' ∧
        Decodes ((c.decoder setup target ids base).run g.current g.generator g.generatedIds) g' from
    this _ g hg (by omega)
  intro fuel
  induction fuel with
  | zero => intro g _ h; omega
  | succ fuel ih =>
    intro g hg hfuel
    have hstep := generationStep_decodes hS hB hsize hpos hg
    cases hb : generationStep setup A B c ids g with
    | abort e g' =>
      rw [hb] at hstep
      exact hstep.elim
    | done e g' =>
      rw [hb] at hstep
      exact ⟨g', by simp only [Loop.run, hb], hstep⟩
    | next e g' =>
      rw [hb] at hstep
      obtain ⟨hg', hlt, hrun⟩ := hstep
      obtain ⟨g'', hfin, hdec⟩ := ih g' hg' (by have := hg'.emitted; omega)
      exact ⟨g'', by simp only [Loop.run, hb, hfin], hrun ▸ hdec⟩

/-! ### The prompt does not depend on native speculation -/

def Call.withMtp (b : Bool) (c : Call R) : Call R := { c with mtpActive := b }

def Locals.withMtp (b : Bool) (g : Locals Ω Δ R) : Locals Ω Δ R := { g with useNativeMtp := b }

/-- `f` on either outcome. -/
def onBoth {α β : Type} (f : α → β) : Except α α → Except β β
  | .ok a => .ok (f a)
  | .error a => .error (f a)

variable {b : Bool}

theorem draftStep_withMtp (token : Token) :
    draftStep setup B (c.withMtp b) token position (g.withMtp b) =
      onBoth (Locals.withMtp b) (draftStep setup B c token position g) := by
  unfold draftStep
  change (if c.useExternalDraft setup = true then _ else _) = _
  split_ifs
  · dsimp only [Locals.withMtp]
    rcases g.draft.forwardGreedy B token position true with ⟨f | t, draft⟩ <;> rfl
  · rfl

theorem promptToken_withMtp (i : ℕ) (token : Token) :
    promptToken setup A B (c.withMtp b) ids i token (g.withMtp b) =
      onBoth (Locals.withMtp b) (promptToken setup A B c ids i token g) := by
  unfold promptToken
  change (if c.needsLogits = true then _ else _) = onBoth _ (if c.needsLogits = true then _ else _)
  cases c.needsLogits with
  | true =>
    simp only [Locals.withMtp, if_true]
    rcases g.model.forward A token (i - 1) (decide (i = ids.length)) with ⟨f | logits, model⟩
    · rfl
    · let picked :=
        if decide (i = ids.length) = true then pickToken c logits g.generator g.history i
        else (g.current, g.generator)
      exact draftStep_withMtp (c := c) (g := { g with
        model := model, logits := some logits, current := picked.1, generator := picked.2
        stateCount := i }) token
  | false =>
    simp only [Locals.withMtp, Bool.false_eq_true, if_false]
    rcases g.model.forwardGreedy A token (i - 1) (decide (i = ids.length)) with ⟨f | next, model⟩
    · rfl
    · exact draftStep_withMtp (c := c)
        (g := { g with model := model, current := next, stateCount := i }) token

theorem promptScalar_withMtp (i : ℕ) (rest : List Token) :
    promptScalar setup A B (c.withMtp b) ids i rest (g.withMtp b) =
      onBoth (Locals.withMtp b) (promptScalar setup A B c ids i rest g) := by
  induction rest generalizing i g with
  | nil => rfl
  | cons token rest ih =>
    simp only [promptScalar, promptToken_withMtp]
    cases promptToken setup A B c ids i token g with
    | error g₁ => rfl
    | ok g₁ => exact ih (i + 1)

theorem promptBatches_withMtp (fuel batchBegin : ℕ) :
    promptBatches A (c.withMtp b) ids fuel batchBegin (g.withMtp b) =
      match promptBatches A c ids fuel batchBegin g with
      | .ok (whole, g) => .ok (whole, g.withMtp b)
      | .error g => .error (g.withMtp b) := by
  induction fuel generalizing batchBegin g with
  | zero => rfl
  | succ fuel ih =>
    have hcapacity : (c.withMtp b).batchCapacity = c.batchCapacity := rfl
    simp only [promptBatches, Locals.withMtp, hcapacity]
    set count := batchCount c.batchCapacity (ids.length - batchBegin + 1)
    by_cases hmore : batchBegin > ids.length
    · simp only [hmore, if_true]
    by_cases hsupported : (!A.batchSupported g.model.oracle count) = true
    · simp only [hmore, hsupported, if_true, if_false]
    simp only [hmore, hsupported, Bool.false_eq_true, if_false]
    rcases g.model.forwardBatch A ((ids.drop (batchBegin - 1)).take count) (batchBegin - 1)
      (decide (batchBegin + count - 1 = ids.length)) with ⟨f | logits, model⟩
    · rfl
    · by_cases hlast : batchBegin + count - 1 = ids.length
      · simp only [hlast, if_true]
        rfl
      · simp only [hlast, if_false]
        exact ih (g := { g with
          model := model, logits := some logits, stateCount := batchBegin + count - 1
          promptStart := batchBegin + count - 1 + 1 }) _

theorem promptPhase_withMtp :
    promptPhase setup A B (c.withMtp b) ids (g.withMtp b) =
      onBoth (Locals.withMtp b) (promptPhase setup A B c ids g) := by
  have hrest : ∀ g : Locals Ω Δ R, promptRest setup A B (c.withMtp b) ids (g.withMtp b) =
      onBoth (Locals.withMtp b) (promptRest setup A B c ids g) :=
    fun g => promptScalar_withMtp ..
  have heval : evaluatePrompt setup A B (c.withMtp b) ids (g.withMtp b) =
      onBoth (Locals.withMtp b) (evaluatePrompt setup A B c ids g) := by
    unfold evaluatePrompt
    change (if (!c.useExternalDraft setup && decide (g.promptStart ≤ ids.length) &&
      decide (c.batchCapacity > 1)) = true then _ else _) = _
    split_ifs
    · rw [show (g.withMtp b).promptStart = g.promptStart from rfl, promptBatches_withMtp]
      rcases promptBatches A c ids ids.length g.promptStart g with g₁ | ⟨whole, g₁⟩
      · rfl
      · cases whole
        · exact hrest g₁
        · rfl
    · exact hrest g
  unfold promptPhase
  rw [heval]
  cases evaluatePrompt setup A B c ids g <;> rfl

theorem fullHit_withMtp :
    fullHit setup (c.withMtp b) s ids (g.withMtp b) = (fullHit setup c s ids g).withMtp b := by
  unfold fullHit
  cases s.cacheLogits with
  | none => rfl
  | some logits =>
    dsimp only
    split_ifs <;> rfl

theorem takeOver_withMtp :
    takeOver setup (c.withMtp b) s ids = (takeOver setup c s ids).withMtp b := by
  unfold takeOver
  change (if cacheHit setup c s ids = true then _ else _) = _
  split_ifs <;> rfl

theorem resetDraft_withMtp :
    resetDraft setup (c.withMtp b) (g.withMtp b) = (resetDraft setup c g).withMtp b := by
  unfold resetDraft
  change (if c.useExternalDraft setup = true then _ else _) = _
  split_ifs <;> rfl

theorem claim_withMtp : claim setup (c.withMtp b) s ids = (claim setup c s ids).withMtp b := by
  have hhit : cacheHit setup (c.withMtp b) s ids = cacheHit setup c s ids := rfl
  have hstart : ∀ g : Locals Ω Δ R, (g.withMtp b).promptStart = g.promptStart := fun _ => rfl
  unfold claim
  simp only [takeOver_withMtp, resetDraft_withMtp, fullHit_withMtp, hhit, hstart]
  split_ifs <;> rfl

/-! ### The theorem -/

/-- The state after the prompt is a state from which decoding goes on. -/
theorem Prompting.decoding (hg : Prompting setup A c s ids ids.length g) :
    ∃ base, Decoding c ids base g := by
  refine ⟨g.model.consumed, ?_⟩
  constructor <;> simp [hg.generatedIds, hg.history, hg.stateTokens, hg.stateCount,
    hg.stopTokenCount, feedAt]

theorem Decodes.unique {Ω' Δ' : Type} {r : List Token × Bool} {g₁ : Locals Ω Δ R}
    {g₂ : Locals Ω' Δ' R} (h₁ : Decodes r g₁) (h₂ : Decodes r g₂) :
    g₁.generatedIds = g₂.generatedIds ∧ g₁.stopTokenCount = g₂.stopTokenCount :=
  ⟨h₁.1.trans h₂.1.symm, h₁.2.trans h₂.2.symm⟩

/-- With a deterministic model, native speculation changes neither the tokens passed to `decode` nor
the number of tokens reported, whatever its drafts. -/
theorem speculation_lossless (setup : Setup) (A : Answers Ω R) (B : Answers Δ R)
    (target : Fed → List R) (hS : A.Serves target setup.maxContext)
    (hB : DraftServes setup B)
    (hsize : ∀ fed, (target fed).length = setup.vocabularySize) (hpos : 0 < setup.vocabularySize)
    (s : Service Ω Δ R) (c : Call R) :
    let active := (complete setup A B (c.withMtp true) s).1
    let inactive := (complete setup A B (c.withMtp false) s).1
    active.decoded = inactive.decoded ∧ active.tokenCount = inactive.tokenCount := by
  -- both requests end as decoding from the state after the prompt does
  suffices ∀ b, (complete setup A B (c.withMtp b) s).1.decoded =
      (complete setup A B c s).1.decoded ∧
      (complete setup A B (c.withMtp b) s).1.tokenCount = (complete setup A B c s).1.tokenCount from
    ⟨(this true).1.trans (this false).1.symm, (this true).2.trans (this false).2.symm⟩
  intro b
  unfold complete
  rw [show admitted setup (c.withMtp b) = admitted setup c from rfl]
  cases hi : admitted setup c with
  | error n => exact ⟨rfl, rfl⟩
  | ok ids =>
    dsimp only [serve]
    rw [claim_withMtp, promptPhase_withMtp]
    cases hp : promptPhase setup A B c ids (claim setup c s ids) with
    | error g => exact ⟨rfl, rfl⟩
    | ok g =>
      obtain ⟨base, hg⟩ := (promptPhase_prompting (admitted_ok hi).1 hp).1.decoding
      obtain ⟨g₁, hrun₁, hdec₁⟩ := generate_decodes hS hB hsize hpos hg
      have hg' : Decoding (c.withMtp b) ids base (g.withMtp b) :=
        ⟨hg.emitted, hg.history, hg.historyLength, hg.stateTokens, hg.stateCount, hg.consumed,
          hg.stopTokenCount⟩
      obtain ⟨g₂, hrun₂, hdec₂⟩ := generate_decodes hS hB hsize hpos hg'
      obtain ⟨hids, hstop⟩ := Decodes.unique hdec₂ hdec₁
      simp only [onBoth, hrun₁, hrun₂, completedReply, hids, hstop, and_self]

theorem accelerates_ite {α : Type} {speculates : Bool} {a : α} {left : Fed} {maxContext : ℕ}
    (h : speculates = true → position + 2 < maxContext) :
    Accelerates maxContext position (if speculates then ((.ok a, ()) : Except Failure α × Unit)
      else (.error ⟨.unsupported, left⟩, ())).1 := by
  cases speculates with
  | true => exact .inl ⟨a, rfl, h rfl⟩
  | false => exact .inr ⟨left, rfl⟩

/-- The answers made from a target serve it, if they refuse verification batches at the end of the
context. -/
theorem Answers.ofTarget_serves {batchLimit maxContext : ℕ} {drafts : Fed → Token → Drafts}
    {speculates : ℕ → Bool} (h : ∀ position, speculates position = true → position + 2 < maxContext) :
    (Answers.ofTarget target batchLimit drafts speculates).Serves target maxContext where
  toFollows := Answers.ofTarget_follows target batchLimit drafts speculates
  forward_ok _ _ _ _ := ⟨_, rfl⟩
  forwardGreedy_ok _ _ _ _ := ⟨_, rfl⟩
  accept_ok _ _ _ _ _ := rfl
  prepare _ _ _ position := accelerates_ite (h position)
  prepareTopk _ _ _ position _ := accelerates_ite (h position)
  greedySpeculative _ _ _ position := accelerates_ite (h position)

/-- The counting model, sampled from eight candidates. -/
theorem speculation_lossless_counting :
    let request := Counting.call [1] 9 1 8 true
    let active := (complete Counting.setup Counting.answers Counting.answers
      (request.withMtp true) Counting.idle).1
    let inactive := (complete Counting.setup Counting.answers Counting.answers
      (request.withMtp false) Counting.idle).1
    active.decoded = inactive.decoded ∧ active.tokenCount = inactive.tokenCount :=
  speculation_lossless Counting.setup Counting.answers Counting.answers Counting.target
    (Answers.ofTarget_serves fun _ h => of_decide_eq_true h) (fun h => by cases h)
    Counting.target_length (by decide) Counting.idle (Counting.call [1] 9 1 8 true)

end FortAI
