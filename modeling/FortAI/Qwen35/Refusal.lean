import FortAI.Qwen35.Speculative

/-!
# Refused speculation

A round of speculation that the layout does not support is to be refused before the target advances, so
that the caller can go on token by token.  It is not where the draft head is on no device, and where the
output projection is missing that the verification asks for behind the layers.

* `fallsBack_three`, `fallsBack_scalar` : how a round and a step end on each layout.
* `fallsBack_iff` : where the rounds are refused in time.
-/

namespace FortAI

namespace Qwen35

open Procedure

variable {T H D L α : Type} {l : Layout} {n : Networks T H D L} {s : State T H D}
  {token position : ℕ}

/-- The call returns, or it is refused as unsupported and the target is as before. -/
def FallsBack (x : Call T H D α) (s : State T H D) : Prop :=
  ∀ e, (x s).1 = .error e → e = .unsupported ∧ (x s).2.target = s.target ∧
    (x s).2.lastTargetPosition = s.lastTargetPosition

/-- The token and the position are those that a caller passes: with a draft head, the position is the one
behind the last row of the target. -/
structure Ready (l : Layout) (n : Networks T H D L) (s : State T H D) (token position : ℕ) : Prop where
  token_lt : token < n.vocabularySize
  position_lt : position < l.maxContext
  position_pos : l.mtpActive = true → 0 < position
  sequential : l.mtpActive = true → (position : ℤ) = s.lastTargetPosition + 1

/-- Where a round in three rows is refused in time. -/
def Layout.RefusesThree (l : Layout) : Prop :=
  l.mtpSlot.isSome = true ∧ (l.batchSupported 3 = true → l.Verifies)

/-- Where `forward_greedy` is refused in time. -/
def Layout.RefusesScalar (l : Layout) : Prop :=
  l.batchSupported 1 = true → l.verifyAllocated = true → l.Verifies

/-- Where `forward_greedy_speculative` is refused in time. -/
def Layout.RefusesGreedy (l : Layout) (size position : ℕ) : Prop :=
  if l.mtpActive = true ∧ 2 ≤ l.mtpLimit ∧ 3 ≤ size ∧ position + 2 < l.maxContext ∧
      l.batchSupported 3 = true then
    l.RefusesThree
  else if l.mtpActive = true ∧ 2 ≤ l.mtpLimit ∧ 2 ≤ size ∧ position + 1 < l.maxContext ∧
      l.batchSupported 2 = true then
    l.Verifies
  else l.RefusesScalar

/-! ### How calls end -/

theorem fallsBack_of_ok {x : Call T H D α} {a : α} {s' : State T H D} (h : x s = (.ok a, s')) :
    FallsBack x s := by
  intro e he
  rw [h] at he
  cases he

theorem fallsBack_of_error {x : Call T H D α} {e : Fault} {s' : State T H D} (h : x s = (.error e, s')) :
    FallsBack x s ↔ e = .unsupported ∧ s'.target = s.target ∧
      s'.lastTargetPosition = s.lastTargetPosition := by
  rw [FallsBack, h]
  exact ⟨fun hall => hall e rfl, fun hall e' he' => Except.error.inj he' ▸ hall⟩

/-- What a call does first does not count if it does not touch the target. -/
theorem fallsBack_bind {x : Call T H D α} {β : Type} {f : α → Call T H D β} {a : α} {s' : State T H D}
    (h : x s = (.ok a, s')) (htarget : s'.target = s.target)
    (hlast : s'.lastTargetPosition = s.lastTargetPosition) :
    FallsBack (x >>= f) s ↔ FallsBack (f a) s' := by
  rw [FallsBack, FallsBack, run_bind_of_ok h, htarget, hlast]

theorem consumed_ne (n : Networks T H D L) (t : T) (tokens : List Token) (hpos : 0 < tokens.length) :
    (n.target.batch t position tokens).1 ≠ t := by
  intro h
  have hcount := n.target.consumed_batch t position tokens
  rw [h] at hcount
  omega

theorem mtpPair_run (hidden : H) (hactive : l.mtpActive = true) (htoken : token < n.vocabularySize)
    (hposition : position < l.maxContext) : mtpPair l n token position hidden s =
      (.ok (), { s with draft := n.draft.pair s.draft token position hidden }) := by
  simp [mtpPair, hactive, htoken, hposition]

theorem mtpDraftGreedy_run (h : Ready l n s token position) (hactive : l.mtpActive = true) :
    ∃ draft, mtpDraftGreedy l n token position s = (.ok (n.draft.drafted draft), { s with draft }) := by
  have hpos := h.position_pos hactive
  have hseq := h.sequential hactive
  cases hslot : l.mtpSlot.isSome with
  | true => simp [mtpDraftGreedy, pairPending, hactive, hslot, h.token_lt, hpos, hseq]
  | false => simp [mtpDraftGreedy, pairPending, hactive, hslot, hpos, hseq, mtpPair_run _ hactive h.token_lt h.position_lt]

theorem mtpContinueCuda_run (hslot : l.mtpSlot.isSome = true) (htoken : token < n.vocabularySize)
    (hposition : position < l.maxContext) :
    ∃ draft, mtpContinueCuda l n token position s = (.ok (n.draft.drafted draft), { s with draft }) := by
  simp [mtpContinueCuda, hslot, htoken, hposition]

theorem mtpContinueCuda_none (token position : ℕ) (hslot : ¬ l.mtpSlot.isSome = true) :
    mtpContinueCuda l n token position s = (.error .invalid, s) := by
  simp [mtpContinueCuda, Bool.eq_false_iff.mpr hslot]

section

variable {tokens : List Token} {sampled : Bool}

/-- What a verification batch is called with. -/
structure Batch (l : Layout) (n : Networks T H D L) (tokens : List Token) (position : ℕ) (sampled : Bool) :
    Prop where
  length_pos : 0 < tokens.length
  length_le : tokens.length ≤ 3
  tokens_lt : ∀ token ∈ tokens, token < n.vocabularySize
  position_le : position + tokens.length ≤ l.maxContext
  allocated : l.verifyAllocated = true
  sampled_slot : sampled = true → l.mtpSlot.isSome = true

theorem forwardBatchVerify_refused (h : Batch l n tokens position sampled)
    (hrefused : l.batchSupported tokens.length = true → l.embeddingResident = false) :
    forwardBatchVerify l n tokens position sampled s = (.error .unsupported, s) := by
  have hall : (tokens.all fun token => decide (token < n.vocabularySize)) = true :=
    List.all_eq_true.mpr fun token htoken => decide_eq_true (h.tokens_lt token htoken)
  cases hbatch : l.batchSupported tokens.length with
  | false => simp [forwardBatchVerify, batchRows, h.length_pos, h.length_le, h.allocated, hbatch]
  | true =>
    simp [forwardBatchVerify, batchRows, h.length_pos, h.length_le, h.allocated, hbatch, h.position_le, hall,
      hrefused hbatch]

theorem forwardBatchVerify_late (h : Batch l n tokens position sampled)
    (hbatch : l.batchSupported tokens.length = true) (hembedding : l.embeddingResident = true)
    (houtput : ¬ l.outputResident = true) : forwardBatchVerify l n tokens position sampled s =
      (.error .unsupported, { s with target := (n.target.batch s.target position tokens).1 }) := by
  have hall : (tokens.all fun token => decide (token < n.vocabularySize)) = true :=
    List.all_eq_true.mpr fun token htoken => decide_eq_true (h.tokens_lt token htoken)
  simp [forwardBatchVerify, batchRows, h.length_pos, h.length_le, h.allocated, hbatch, h.position_le, hall,
    hembedding, Bool.eq_false_iff.mpr houtput]

theorem forwardBatchVerify_run (h : Batch l n tokens position sampled)
    (hbatch : l.batchSupported tokens.length = true) (hembedding : l.embeddingResident = true)
    (houtput : l.outputResident = true) :
    ∃ rows s', forwardBatchVerify l n tokens position sampled s = (.ok rows, s') ∧
      rows.length = tokens.length ∧ s'.lastTargetPosition = s.lastTargetPosition := by
  have hall : (tokens.all fun token => decide (token < n.vocabularySize)) = true :=
    List.all_eq_true.mpr fun token htoken => decide_eq_true (h.tokens_lt token htoken)
  have hlength := n.target.length_batch s.target position tokens
  cases hslot : l.mtpSlot.isSome with
  | true =>
    simp [forwardBatchVerify, batchRows, h.length_pos, h.length_le, h.allocated, hbatch, h.position_le, hall,
      hembedding, houtput, keepRows, hslot, hlength]
  | false =>
    have hsampled : sampled = false := by
      cases hs : sampled with
      | false => rfl
      | true => exact absurd (h.sampled_slot hs) (by rw [hslot]; exact Bool.false_ne_true)
    simp [forwardBatchVerify, batchRows, h.length_pos, h.length_le, h.allocated, hbatch, h.position_le, hall,
      hembedding, houtput, keepRows, hslot, hsampled, hlength]

/-- A verification batch falls back where what is behind it returns, and the projection is not missing. -/
theorem fallsBack_verify {β : Type} {f : List L → Call T H D β} (h : Batch l n tokens position sampled)
    (hreturns : ∀ rows s', l.batchSupported tokens.length = true → rows.length = tokens.length →
      ∃ a s'', f rows s' = (.ok a, s'')) :
    FallsBack (forwardBatchVerify l n tokens position sampled >>= f) s ↔
      (l.batchSupported tokens.length = true → l.Verifies) := by
  by_cases hbatch : l.batchSupported tokens.length = true → l.embeddingResident = false
  · have hrun := run_bind_of_error (f := f) (forwardBatchVerify_refused (s := s) h hbatch)
    rw [fallsBack_of_error hrun]
    refine iff_of_true ⟨rfl, rfl, rfl⟩ fun hsupported hembedding => ?_
    rw [hbatch hsupported] at hembedding
    cases hembedding
  · push Not at hbatch
    obtain ⟨hsupported, hembedding⟩ := hbatch
    have hembedding' : l.embeddingResident = true := by
      cases hcase : l.embeddingResident with
      | false => exact absurd hcase hembedding
      | true => rfl
    by_cases houtput : l.outputResident = true
    · obtain ⟨rows, s', hrun, hlength, hlast⟩ :=
        forwardBatchVerify_run (s := s) h hsupported hembedding' houtput
      obtain ⟨a, s'', hf⟩ := hreturns rows s' hsupported hlength
      exact iff_of_true (fallsBack_of_ok ((run_bind_of_ok hrun).trans hf)) fun _ _ => houtput
    · have hrun := run_bind_of_error (f := f) (forwardBatchVerify_late (s := s) h hsupported hembedding' houtput)
      rw [fallsBack_of_error hrun]
      refine iff_of_false ?_ fun hall => houtput (hall hsupported hembedding')
      rintro ⟨-, htarget, -⟩
      exact consumed_ne n s.target tokens h.length_pos htarget

end

/-! ### Rounds -/

theorem mtpCatchupCuda_run {tokens : List Token} (hidden : List H) (hslot : l.mtpSlot.isSome = true)
    (h : Batch l n tokens position true) (hbatch : l.batchSupported tokens.length = true) :
    ∃ draft, mtpCatchupCuda l n tokens position hidden s = (.ok (), { s with draft }) := by
  have hall : (tokens.all fun token => decide (token < n.vocabularySize)) = true :=
    List.all_eq_true.mpr fun token htoken => decide_eq_true (h.tokens_lt token htoken)
  simp [mtpCatchupCuda, hslot, h.length_pos, h.position_le, hall, l.length_le_of_batchSupported hbatch]

theorem mtpRefreshVerifyCuda_run {tokens : List Token} (hslot : l.mtpSlot.isSome = true)
    (h : Batch l n tokens position true) (hbatch : l.batchSupported tokens.length = true) :
    ∃ s', mtpRefreshVerifyCuda l n tokens position s = (.ok (), s') := by
  have hne : ¬ l.mtpSlot = none := Option.ne_none_iff_isSome.mpr hslot
  have hshift (rows : List H) (s : State T H D) : ∃ hidden s', shiftTargetHidden rows s = (.ok hidden, s') :=
    ⟨_, _, rfl⟩
  obtain ⟨hidden, mid, hhidden⟩ := hshift ((List.range tokens.length).map s.cudaVerifyHidden) s
  obtain ⟨draft, hcatchup⟩ := mtpCatchupCuda_run (s := mid) hidden hslot h hbatch
  refine ⟨{ mid with draft }, ?_⟩
  simp [mtpRefreshVerifyCuda, hne, h.length_pos, h.length_le, hhidden, hcatchup]

theorem acceptSampled_run (position : ℕ) {drafts : List Token} {accepted : ℕ} (hslot : l.mtpSlot.isSome = true)
    (hdrafts : 2 ≤ drafts.length) (haccepted : accepted ≤ 2) (hallocated : l.verifyAllocated = true) :
    ∃ s', acceptSampled l n drafts position accepted s = (.ok (), s') := by
  have hne : ¬ l.mtpSlot = none := Option.ne_none_iff_isSome.mpr hslot
  obtain rfl | rfl | rfl : accepted = 0 ∨ accepted = 1 ∨ accepted = 2 := by omega
  · simp [acceptSampled, restoreAccepted, catchupAccepted, hdrafts, hallocated, hslot, hne]
  · simp [acceptSampled, restoreAccepted, catchupAccepted, hdrafts, hallocated, hslot, hne]
  · simp [acceptSampled, restoreAccepted, catchupAccepted, hdrafts, hallocated, hslot, hne]

/-- A round in three rows falls back where what is behind it returns, and the layout refuses in time. -/
theorem fallsBack_three {sampled : Bool} {f : List Token × List L → Call T H D α}
    (h : Ready l n s token position) (hactive : l.mtpActive = true) (hcontext : position + 2 < l.maxContext)
    (hreturns : ∀ first second rows s', l.mtpSlot.isSome = true → rows.length = 3 →
      ∃ a s'', f ([first, second], rows) s' = (.ok a, s'')) :
    FallsBack (verifyThree l n token position sampled >>= f) s ↔ l.RefusesThree := by
  obtain ⟨draft, hdraft⟩ := mtpDraftGreedy_run h hactive
  rw [verifyThree, bind_assoc, fallsBack_bind hdraft rfl rfl]
  by_cases hslot : l.mtpSlot.isSome = true
  · obtain ⟨draft', hcontinue⟩ := mtpContinueCuda_run (s := { s with draft }) hslot (n.drafted_lt draft)
      (by omega : position + 1 < l.maxContext)
    rw [bind_assoc, fallsBack_bind hcontinue rfl rfl, bind_assoc]
    have hbatch : Batch l n [token, n.draft.drafted draft, n.draft.drafted draft'] position true := by
      refine ⟨Nat.succ_pos _, le_refl 3, ?_, hcontext, l.allocated_of_active hactive, fun _ => hslot⟩
      simp only [List.mem_cons, List.not_mem_nil, or_false]
      rintro token' (rfl | rfl | rfl)
      · exact h.token_lt
      · exact n.drafted_lt draft
      · exact n.drafted_lt draft'
    refine (fallsBack_verify ⟨hbatch.length_pos, hbatch.length_le, hbatch.tokens_lt, hbatch.position_le,
      hbatch.allocated, fun _ => hslot⟩ fun rows s' hsupported hlength => ?_).trans
      ⟨fun hall => ⟨hslot, hall⟩, fun hall => hall.2⟩
    obtain ⟨s'', hrefresh⟩ := mtpRefreshVerifyCuda_run (s := s') hslot hbatch hsupported
    obtain ⟨a, s₃, hf⟩ := hreturns (n.draft.drafted draft) (n.draft.drafted draft') rows s'' hslot hlength
    exact ⟨a, s₃, by rw [bind_assoc, run_bind_of_ok hrefresh, pure_bind, hf]⟩
  · have hrun := run_bind_of_error (f := fun second => (do
      let rows ← forwardBatchVerify l n [token, n.draft.drafted draft, second] position sampled
      mtpRefreshVerifyCuda l n [token, n.draft.drafted draft, second] position
      pure ([n.draft.drafted draft, second], rows)) >>= f)
      (mtpContinueCuda_none (s := { s with draft }) (n := n) (n.draft.drafted draft) (position + 1) hslot)
    rw [bind_assoc, fallsBack_of_error hrun]
    exact iff_of_false (fun h => Fault.noConfusion h.1) fun h => hslot h.1

theorem fallsBack_threeRows (h : Ready l n s token position) (hactive : l.mtpActive = true)
    (hcontext : position + 2 < l.maxContext) :
    FallsBack (threeRows l n token position) s ↔ l.RefusesThree := by
  refine fallsBack_three h hactive hcontext fun first second rows s' hslot hlength => ?_
  obtain ⟨row₁, row₂, row₃, rfl⟩ := List.length_eq_three.mp hlength
  have haccept (accepted : ℕ) (hle : accepted ≤ 2) :
      ∃ s'', acceptSampled l n [first, second] position accepted s' = (.ok (), s'') :=
    acceptSampled_run position hslot (le_refl 2) hle (l.allocated_of_active hactive)
  simp only [List.map_cons, List.map_nil]
  split_ifs
  · obtain ⟨s'', hrun⟩ := haccept 0 (by decide)
    exact ⟨_, s'', by rw [run_bind_of_ok hrun, run_pure]⟩
  · obtain ⟨s'', hrun⟩ := haccept 1 (by decide)
    exact ⟨_, s'', by rw [run_bind_of_ok hrun, run_pure]⟩
  · obtain ⟨s'', hrun⟩ := haccept 2 (by decide)
    exact ⟨_, s'', by rw [run_bind_of_ok hrun, run_pure]⟩

theorem fallsBack_twoRows (h : Ready l n s token position) (hactive : l.mtpActive = true)
    (hcontext : position + 1 < l.maxContext) (hsupported : l.batchSupported 2 = true) :
    FallsBack (twoRows l n token position) s ↔ l.Verifies := by
  obtain ⟨draft, hdraft⟩ := mtpDraftGreedy_run h hactive
  rw [twoRows, fallsBack_bind hdraft rfl rfl]
  have hbatch : Batch l n [token, n.draft.drafted draft] position false := by
    refine ⟨Nat.succ_pos _, Nat.le_succ 2, ?_, hcontext, l.allocated_of_active hactive, nofun⟩
    simp only [List.mem_cons, List.not_mem_nil, or_false]
    rintro token' (rfl | rfl)
    · exact h.token_lt
    · exact n.drafted_lt draft
  refine (fallsBack_verify hbatch fun rows s' _ hlength => ?_).trans
    ⟨fun hall => hall hsupported, fun hall _ => hall⟩
  obtain ⟨row₁, row₂, rfl⟩ := List.length_eq_two.mp hlength
  simp only [List.map_cons, List.map_nil]
  split_ifs with hmatch
  · simp [mtpPair_run _ hactive (n.drafted_lt draft) hcontext]
  · simp

/-- Where `forward_greedy` runs to its end. -/
def Layout.RunsScalar (l : Layout) : Prop :=
  l.batchSupported 1 = true → l.verifyAllocated = true →
    l.embeddingResident = true ∧ l.outputResident = true

/-- What `forward_greedy` does for the draft head does not touch the target. -/
theorem pairGreedy_run (h : Ready l n s token position) :
    ∃ draft, pairGreedy l n token position true s = (.ok (), { s with draft }) := by
  cases hactive : l.mtpActive with
  | false => exact ⟨s.draft, by simp [pairGreedy, hactive]⟩
  | true =>
    have hpair := mtpPair_run (s := s) s.pendingHidden hactive h.token_lt h.position_lt
    exact ⟨_, by simp [pairGreedy, hactive, h.position_pos hactive, hpair]; rfl⟩

theorem saveGreedy_run (l : Layout) (position : ℕ) (s : State T H D) :
    ∃ s', saveGreedy l position true s = (.ok (), s') ∧
      (l.mtpActive = true → s'.lastTargetPosition = (position : ℤ)) := by
  cases hactive : l.mtpActive with
  | false => exact ⟨s, by simp [saveGreedy, hactive], nofun⟩
  | true => exact ⟨_, by simp [saveGreedy, hactive]; rfl, fun _ => rfl⟩

theorem batch_single (h : Ready l n s token position) (hallocated : l.verifyAllocated = true) :
    Batch l n [token] position false := by
  refine ⟨Nat.one_pos, Nat.le_of_lt (Nat.lt_of_sub_eq_succ rfl), ?_, h.position_lt, hallocated, nofun⟩
  intro token' htoken
  rw [List.mem_singleton.mp htoken]
  exact h.token_lt

theorem forwardBody_run (h : Ready l n s token position) :
    ∃ logits s', forwardBody l n token position true true true s = (.ok (some logits), s') ∧
      (l.mtpActive = true → s'.lastTargetPosition = (position : ℤ)) := by
  cases hactive : l.mtpActive with
  | false =>
    cases hpipeline : l.pipeline <;>
      simp [forwardBody, pairBody, saveBody, h.token_lt, h.position_lt, hactive, hpipeline]
  | true =>
    have hpos := (h.position_pos hactive).ne'
    have hseq := h.sequential hactive
    have hpair := mtpPair_run (s := s) s.pendingHidden hactive h.token_lt h.position_lt
    cases hpipeline : l.pipeline <;>
      simp [forwardBody, pairBody, saveBody, h.token_lt, h.position_lt, hactive, hpos, hseq, hpair, hpipeline]

theorem forwardGreedy_returns (h : Ready l n s token position) (hruns : l.RunsScalar) :
    ∃ next s', forwardGreedy l n token position true true true s = (.ok (some next), s') ∧
      next < n.vocabularySize ∧ (l.mtpActive = true → s'.lastTargetPosition = (position : ℤ)) := by
  rw [forwardGreedy]
  split_ifs with hbatched
  · simp only [Bool.and_eq_true] at hbatched
    obtain ⟨⟨-, hsupported⟩, hallocated⟩ := hbatched
    obtain ⟨hembedding, houtput⟩ := hruns hsupported hallocated
    obtain ⟨draft, hpair⟩ := pairGreedy_run h
    obtain ⟨rows, mid, hverify, hlength, -⟩ := forwardBatchVerify_run (s := { s with draft })
      (batch_single h hallocated) hsupported hembedding houtput
    obtain ⟨s', hsave, hlast⟩ := saveGreedy_run l position mid
    obtain ⟨row, rfl⟩ := List.length_eq_one_iff.mp hlength
    refine ⟨n.argmax row, s', ?_, n.argmax_lt row, hlast⟩
    rw [run_bind_of_ok hpair, run_bind_of_ok hverify, run_bind_of_ok hsave]
    rfl
  · obtain ⟨logits, s', hrun, hlast⟩ := forwardBody_run h
    refine ⟨n.argmax logits, s', ?_, n.argmax_lt logits, hlast⟩
    rw [run_bind_of_ok hrun, Option.map_some, run_pure]

theorem forwardGreedy_refused (h : Ready l n s token position) (hruns : ¬ l.RunsScalar) :
    ∃ s', forwardGreedy l n token position true true true s = (.error .unsupported, s') ∧
      s'.lastTargetPosition = s.lastTargetPosition ∧ (s'.target = s.target ↔ l.RefusesScalar) := by
  rw [Layout.RunsScalar] at hruns
  push Not at hruns
  obtain ⟨hsupported, hallocated, hmissing⟩ := hruns
  obtain ⟨draft, hpair⟩ := pairGreedy_run h
  rw [forwardGreedy, if_pos (by simp [l.pipeline_of_batchSupported hsupported, hsupported, hallocated]),
    run_bind_of_ok hpair]
  by_cases hembedding : l.embeddingResident = true
  · have hrun := forwardBatchVerify_late (s := { s with draft }) (batch_single h hallocated) hsupported hembedding
      (hmissing hembedding)
    refine ⟨_, run_bind_of_error hrun, rfl, iff_of_false (consumed_ne n s.target [token] Nat.one_pos) ?_⟩
    exact fun hrefuses => hmissing hembedding (hrefuses hsupported hallocated hembedding)
  · have hrun := forwardBatchVerify_refused (s := { s with draft }) (batch_single h hallocated)
      fun _ => Bool.eq_false_iff.mpr hembedding
    exact ⟨_, run_bind_of_error hrun, rfl, iff_of_true rfl fun _ _ hembedding' => absurd hembedding' hembedding⟩

/-- A scalar step falls back where what is behind it returns, and the layout refuses in time. -/
theorem fallsBack_scalar {f : Option Token → Call T H D α} (h : Ready l n s token position)
    (hreturns : ∀ next s', l.RunsScalar → next < n.vocabularySize →
      (l.mtpActive = true → s'.lastTargetPosition = (position : ℤ)) →
        ∃ a s'', f (some next) s' = (.ok a, s'')) :
    FallsBack (forwardGreedy l n token position true true true >>= f) s ↔ l.RefusesScalar := by
  by_cases hruns : l.RunsScalar
  · obtain ⟨next, s', hrun, hnext, hlast⟩ := forwardGreedy_returns h hruns
    obtain ⟨a, s'', hf⟩ := hreturns next s' hruns hnext hlast
    exact iff_of_true (fallsBack_of_ok ((run_bind_of_ok hrun).trans hf))
      fun hsupported hallocated _ => (hruns hsupported hallocated).2
  · obtain ⟨s', hrun, hlast, htarget⟩ := forwardGreedy_refused h hruns
    rw [fallsBack_of_error (run_bind_of_error hrun), ← htarget]
    exact ⟨fun hall => hall.2.1, fun heq => ⟨rfl, heq, hlast⟩⟩

theorem fallsBack_twoScalars (h : Ready l n s token position) (hactive : l.mtpActive = true)
    (hcontext : position + 1 < l.maxContext) :
    FallsBack (twoScalars l n token position) s ↔ l.RefusesScalar := by
  refine fallsBack_scalar h fun first s' hruns hfirst hlast => ?_
  have hready : Ready l n s' first (position + 1) :=
    ⟨hfirst, hcontext, fun _ => Nat.succ_pos _, fun _ => by rw [hlast hactive]; rfl⟩
  obtain ⟨draft, hdraft⟩ := mtpDraftGreedy_run hready hactive
  have hready' : Ready l n { s' with draft } first (position + 1) :=
    ⟨hfirst, hcontext, fun _ => Nat.succ_pos _, fun _ => by rw [hlast hactive]; rfl⟩
  obtain ⟨second, s'', hrun, -, -⟩ := forwardGreedy_returns hready' hruns
  exact ⟨[first, second], s'', (run_bind_of_ok hdraft).trans (run_bind_of_ok hrun)⟩

/-! ### The calls of a round -/

/-- Where `prepare_sampled_speculative` is refused in time: it is refused at once, or the draft head is on
a device and nothing is missing behind the layers. -/
def Layout.RefusesSampled (l : Layout) (vocabularySize : ℕ) (w : Workspace) (position : ℕ) : Prop :=
  l.mtpActive = true → 2 ≤ l.mtpLimit → 2 ≤ w.draftTokens → 3 * vocabularySize ≤ w.verifyLogits →
    position + 2 < l.maxContext → l.batchSupported 3 = true → l.RefusesThree

/-- Where `prepare_sampled_speculative_topk` is refused in time. -/
def Layout.RefusesTopk (l : Layout) (w : TopkWorkspace) (position : ℕ) : Prop :=
  l.mtpActive = true → 2 ≤ l.mtpLimit → 2 ≤ w.draftTokens → position + 2 < l.maxContext → l.RefusesThree

/-- The candidates of the rows fit. -/
def TopkWorkspace.Valid (w : TopkWorkspace) : Prop := 0 < w.candidates ∧ w.candidates ≤ 32 ∧ 3 ≤ w.columns

/-- A call that is refused at once falls back. -/
theorem fallsBack_guard {c : Bool} {x : Call T H D α} :
    FallsBack (do require c .unsupported; x) s ↔ (c = true → FallsBack x s) := by
  cases c with
  | true => exact ⟨fun h _ => h, fun h => h rfl⟩
  | false => exact iff_of_true (fun e he => ⟨(Except.error.inj he).symm, rfl, rfl⟩) nofun

theorem fallsBack_sampled (h : Ready l n s token position) (w : Workspace) :
    FallsBack (prepareSampled l n w token position) s ↔ l.RefusesSampled n.vocabularySize w position := by
  rw [prepareSampled, fallsBack_guard]
  simp only [Bool.and_eq_true, decide_eq_true_eq, and_imp, Layout.RefusesSampled]
  refine forall_congr' fun hactive => forall_congr' fun _ => forall_congr' fun _ => forall_congr' fun _ =>
    forall_congr' fun hcontext => forall_congr' fun _ => ?_
  rw [← bind_pure (verifyThree l n token position true)]
  exact fallsBack_three h hactive hcontext fun _ _ _ s' _ _ => ⟨_, s', rfl⟩

theorem fallsBack_topk (h : Ready l n s token position) {w : TopkWorkspace} (hw : w.Valid) :
    FallsBack (prepareSampledTopk l n w token position) s ↔ l.RefusesTopk w position := by
  obtain ⟨hpos, hle, hcolumns⟩ := hw
  have hvalid : (require (decide (0 < w.candidates) && decide (w.candidates ≤ 32) && decide (3 ≤ w.columns))
      Fault.invalid : Call T H D Unit) s = (.ok (), s) := by
    simp [hpos, hle, hcolumns]
  rw [prepareSampledTopk, fallsBack_guard, fallsBack_bind hvalid rfl rfl, fallsBack_guard]
  simp only [Bool.and_eq_true, decide_eq_true_eq, and_imp, Layout.RefusesTopk]
  refine forall_congr' fun hactive => forall_congr' fun _ => forall_congr' fun _ =>
    forall_congr' fun hcontext => ?_
  rw [← bind_pure (verifyThree l n token position true)]
  exact fallsBack_three h hactive hcontext fun _ _ _ s' _ _ => ⟨_, s', rfl⟩

theorem fallsBack_greedy (h : Ready l n s token position) {size : ℕ} (hsize : 0 < size) :
    FallsBack (forwardGreedySpeculative l n size token position) s ↔ l.RefusesGreedy size position := by
  simp only [forwardGreedySpeculative, Layout.RefusesGreedy, if_neg hsize.ne',
    le_capacity_iff (show 3 ≤ 32 by decide), le_capacity_iff (show 2 ≤ 32 by decide)]
  split_ifs with hthree htwo hscalar
  · exact fallsBack_threeRows h hthree.1 hthree.2.2.2.1
  · exact fallsBack_twoRows h htwo.1 htwo.2.2.2.1 htwo.2.2.2.2
  · exact fallsBack_twoScalars h hscalar.1 hscalar.2.2.2
  · exact fallsBack_scalar h fun next s' _ _ _ => ⟨[next], s', rfl⟩

/-- **A round of speculation falls back** exactly where the layout refuses it in time. -/
theorem fallsBack_iff (l : Layout) (n : Networks T H D L) (s : State T H D) (token position : ℕ)
    (w : Workspace) (w' : TopkWorkspace) (size : ℕ) (h : Ready l n s token position) (hw : w'.Valid)
    (hsize : 0 < size) :
    (FallsBack (prepareSampled l n w token position) s ↔ l.RefusesSampled n.vocabularySize w position) ∧
      (FallsBack (prepareSampledTopk l n w' token position) s ↔ l.RefusesTopk w' position) ∧
      (FallsBack (forwardGreedySpeculative l n size token position) s ↔ l.RefusesGreedy size position) :=
  ⟨fallsBack_sampled h w, fallsBack_topk h hw, fallsBack_greedy h hsize⟩

/-! ### On a device -/

/-- Networks that only count the tokens of the target. -/
def counting : Networks ℕ Unit Unit Unit where
  vocabularySize := 1
  target :=
    { cleared := 0
      batch := fun t _ tokens => (t + tokens.length, tokens.map fun _ => ())
      scalar := fun t _ _ => (t + 1, ())
      restoreFirst := id
      restoreSecond := id
      consumed := id
      length_batch := fun _ _ _ => List.length_map _
      consumed_batch := fun _ _ _ => rfl }
  draft :=
    { cleared := ()
      pair := fun _ _ _ _ => ()
      catchup := fun _ _ _ _ => ()
      drafted := fun _ => 0
      exported := fun _ => () }
  zero := ()
  outputNorm := id
  logits := id
  argmax := fun _ => 0
  argmax_lt := fun _ => Nat.one_pos
  drafted_lt := fun _ => Nat.one_pos

/-- The state behind one token. -/
def behindOne : State ℕ Unit Unit where
  target := 1
  draft := ()
  pendingHidden := ()
  cudaPendingHidden := ()
  verifyHidden := fun _ => ()
  cudaVerifyHidden := fun _ => ()
  lastTargetPosition := 0

theorem ready_behindOne (mtpSlot : Option Slot) (outputResident : Bool) :
    Ready (onDevice mtpSlot outputResident) counting behindOne 0 1 :=
  ⟨Nat.one_pos, Nat.lt_of_sub_eq_succ rfl, fun _ => Nat.one_pos, fun _ => rfl⟩

/-- Where the draft head is on a device, a round that is not refused in time is not refused at all. -/
theorem fallsBack_onDevice : (FallsBack (prepareSampled (onDevice (some .first) true) counting ⟨2, 3⟩ 0 1) behindOne ↔
      (onDevice (some .first) true).RefusesSampled 1 ⟨2, 3⟩ 1) ∧
    (FallsBack (prepareSampledTopk (onDevice (some .first) true) counting ⟨2, 32, 3⟩ 0 1) behindOne ↔
      (onDevice (some .first) true).RefusesTopk ⟨2, 32, 3⟩ 1) ∧
    (FallsBack (forwardGreedySpeculative (onDevice (some .first) true) counting 3 0 1) behindOne ↔
      (onDevice (some .first) true).RefusesGreedy 3 1) :=
  fallsBack_iff _ _ _ 0 1 ⟨2, 3⟩ ⟨2, 32, 3⟩ 3 (ready_behindOne _ _)
    ⟨by decide, by decide, by decide⟩ (by decide)

/-- Without a device for the draft head the round is invalid; without the output projection it is refused
behind the target, that has consumed its three tokens. -/
theorem not_fallsBack_onDevice :
    (Ready (onDevice none true) counting behindOne 0 1 ∧
      ¬ FallsBack (forwardGreedySpeculative (onDevice none true) counting 3 0 1) behindOne) ∧
    Ready (onDevice (some .first) false) counting behindOne 0 1 ∧
      ¬ FallsBack (forwardGreedySpeculative (onDevice (some .first) false) counting 3 0 1) behindOne := by
  have hinvalid : ((forwardGreedySpeculative (onDevice none true) counting 3 0 1) behindOne).1 =
      .error .invalid := rfl
  have hrefused : (forwardGreedySpeculative (onDevice (some .first) false) counting 3 0 1) behindOne =
      (.error .unsupported, { behindOne with target := 4 }) := rfl
  refine ⟨⟨ready_behindOne _ _, fun h => ?_⟩, ready_behindOne _ _, ?_⟩
  · cases (h _ hinvalid).1
  · rw [fallsBack_of_error hrefused]
    rintro ⟨-, htarget, -⟩
    exact absurd htarget (show (4 : ℕ) ≠ 1 by decide)

end Qwen35

end FortAI
