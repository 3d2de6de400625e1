import FortAI.Qwen35.Layout

/-!
# Decoding with a draft head

The calls of the engine that decode tokens: one after the other, in batches of the prompt, and in
verification batches of drafted tokens.

* `forwardBody`, `forwardBatch` : the target advances, and the draft head follows.
* `forwardBatchVerify`, `acceptSampled` : a verification batch, and its acceptance.
* `forwardGreedySpeculative`, `prepareSampled`, `prepareSampledTopk` : a round of speculation.
-/

namespace FortAI

namespace Qwen35

open Procedure

variable {T H D L : Type}

/-- A call of the engine. -/
abbrev Call (T H D α : Type) := Procedure (State T H D) Fault α

variable (l : Layout) (n : Networks T H D L)

/-! ### The draft head -/

/-- `mtp_pair`: a token at a position, with the target row in front of it. -/
def mtpPair (token : Token) (position : ℕ) (hidden : H) : Call T H D Unit := do
  require l.mtpActive .unsupported
  require (decide (token < n.vocabularySize) && decide (position < l.maxContext)) .invalid
  modify fun s => { s with draft := n.draft.pair s.draft token position hidden }

/-- The row that `mtp_draft_greedy` reads. -/
def State.consumedHidden (s : State T H D) : H :=
  if l.mtpSlot.isSome then s.cudaPendingHidden else s.pendingHidden

/-- The pair of `mtp_draft_greedy`, with the row of `consumedHidden`. -/
def pairPending (token : Token) (position : ℕ) : Call T H D Unit := do
  let s ← state
  if l.mtpSlot.isSome then do
    require (decide (token < n.vocabularySize)) .invalid
    modify fun s => { s with draft := n.draft.pair s.draft token position s.cudaPendingHidden }
  else mtpPair l n token position s.pendingHidden

/-- `mtp_draft_greedy` -/
def mtpDraftGreedy (token : Token) (position : ℕ) : Call T H D Token := do
  require l.mtpActive .unsupported
  let s ← state
  require (decide (0 < position) && decide ((position : ℤ) = s.lastTargetPosition + 1)) .invalid
  pairPending l n token position
  let s ← state
  pure (n.draft.drafted s.draft)

/-- `mtp_continue_cuda`: the draft head goes on from its own row. -/
def mtpContinueCuda (token : Token) (position : ℕ) : Call T H D Token := do
  require (l.mtpSlot.isSome && decide (token < n.vocabularySize) && decide (position < l.maxContext)) .invalid
  modify fun s => { s with draft := n.draft.pair s.draft token position (n.draft.exported s.draft) }
  let s ← state
  pure (n.draft.drafted s.draft)

/-- `mtp_catchup_cuda` -/
def mtpCatchupCuda (tokens : List Token) (position : ℕ) (hidden : List H) : Call T H D Unit := do
  require (l.mtpSlot.isSome && decide (0 < tokens.length) && decide (position + tokens.length ≤ l.maxContext) &&
    decide (tokens.length ≤ l.capacity) && tokens.all fun token => decide (token < n.vocabularySize)) .invalid
  modify fun s => { s with draft := n.draft.catchup s.draft tokens position hidden }

/-- `cuda_qwen35_shift_target_hidden_device`: each token gets the row in front of it, and the last row
is pending; the result is what the tokens get. -/
def shiftTargetHidden (rows : List H) : Call T H D (List H) := do
  let s ← state
  modify fun s => { s with cudaPendingHidden := rows.getLastD s.cudaPendingHidden }
  pure ((s.cudaPendingHidden :: rows).take rows.length)

/-- `mtp_refresh_verify_cuda` -/
def mtpRefreshVerifyCuda (tokens : List Token) (position : ℕ) : Call T H D Unit :=
  if l.mtpSlot = none then pure ()
  else do
    require (decide (0 < tokens.length) && decide (tokens.length ≤ 3)) .invalid
    let s ← state
    let hidden ← shiftTargetHidden ((List.range tokens.length).map s.cudaVerifyHidden)
    mtpCatchupCuda l n tokens position hidden

/-! ### The target -/

/-- The part of `forward_batch` that all its callers share: the rows of the last layer. -/
def batchRows (tokens : List Token) (position : ℕ) : Call T H D (List H) := do
  require (l.batchSupported tokens.length) .unsupported
  require (decide (position + tokens.length ≤ l.maxContext)) .invalid
  require (tokens.all fun token => decide (token < n.vocabularySize)) .invalid
  require l.embeddingResident .unsupported
  let s ← state
  let (target, rows) := n.target.batch s.target position tokens
  modify fun s => { s with target }
  pure rows

/-- The part of `forward_batch` for the draft head, that gets the rows behind the output norm. -/
def updateBatch (tokens : List Token) (position : ℕ) (rows : List H) (computeLogits updateMtp : Bool) :
    Call T H D Unit :=
  if l.mtpActive && updateMtp then do
    require l.mtpSlot.isSome .invalid
    let hidden ← shiftTargetHidden rows
    mtpCatchupCuda l n tokens position hidden
    modify fun s => { s with lastTargetPosition := position + tokens.length - 1 }
    if computeLogits then modify fun s => { s with pendingHidden := s.cudaPendingHidden } else pure ()
  else pure ()

/-- `forward_batch`; the logits are those of the last row. -/
def forwardBatch (tokens : List Token) (position : ℕ) (computeLogits updateMtp : Bool) :
    Call T H D (Option L) := do
  let rows ← batchRows l n tokens position
  let normalized := rows.map n.outputNorm
  updateBatch l n tokens position normalized computeLogits updateMtp
  pure (if computeLogits then normalized.getLast?.map n.logits else none)

/-- Where `forward_batch_verify` keeps the rows behind the output norm: `sampled` of the caller, or a draft
head on a device. -/
def keepRows (rows : List H) (sampled : Bool) : Call T H D Unit :=
  if sampled || l.mtpSlot.isSome then do
    require l.mtpSlot.isSome .invalid
    modify fun s => { s with cudaVerifyHidden := written rows s.cudaVerifyHidden }
  else modify fun s => { s with verifyHidden := written rows s.verifyHidden }

/-- `forward_batch_verify`: the logits of all rows, or of each row the most likely tokens.  With
`sampled` the caller wants logits, or the largest of them. -/
def forwardBatchVerify (tokens : List Token) (position : ℕ) (sampled : Bool) : Call T H D (List L) := do
  require (decide (0 < tokens.length) && decide (tokens.length ≤ 3) && l.verifyAllocated) .invalid
  let rows ← batchRows l n tokens position
  require l.outputResident .unsupported
  let normalized := rows.map n.outputNorm
  keepRows l normalized sampled
  pure (normalized.map n.logits)

/-- The draft head in front of the layers of `forward_body`. -/
def pairBody (token : Token) (position : ℕ) (useMtp : Bool) : Call T H D Unit := do
  let s ← state
  if l.mtpActive && useMtp then
    if position = 0 then require (decide (s.lastTargetPosition = -1)) .invalid
    else do
      require (decide ((position : ℤ) = s.lastTargetPosition + 1)) .invalid
      mtpPair l n token position s.pendingHidden
  else pure ()

/-- The row that `forward_body` saves behind the layers. -/
def saveBody (position : ℕ) (x : H) (saveMtpHidden computeLogits : Bool) : Call T H D Unit :=
  if l.pipeline then
    if l.mtpActive && saveMtpHidden then
      -- the row in front of the output norm
      modify fun s => { s with pendingHidden := x, lastTargetPosition := position }
    else pure ()
  else if computeLogits && l.mtpActive && saveMtpHidden then
    modify fun s => { s with pendingHidden := n.outputNorm x, lastTargetPosition := position }
  else pure ()

/-- `forward_body`, without the engine of llama.cpp. -/
def forwardBody (token : Token) (position : ℕ) (useMtp saveMtpHidden computeLogits : Bool) :
    Call T H D (Option L) := do
  require (decide (token < n.vocabularySize) && decide (position < l.maxContext)) .invalid
  pairBody l n token position useMtp
  let s ← state
  let (target, x) := n.target.scalar s.target position token
  modify fun s => { s with target }
  saveBody l n position x saveMtpHidden computeLogits
  pure (if computeLogits then some (n.logits (n.outputNorm x)) else none)

/-- The draft head in front of the row of `forward_greedy`. -/
def pairGreedy (token : Token) (position : ℕ) (useMtp : Bool) : Call T H D Unit := do
  let s ← state
  if l.mtpActive && useMtp && decide (0 < position) then mtpPair l n token position s.pendingHidden
  else pure ()

/-- The row that `forward_greedy` saves behind the row. -/
def saveGreedy (position : ℕ) (saveMtpHidden : Bool) : Call T H D Unit :=
  if l.mtpActive && saveMtpHidden then
    modify fun s => { s with pendingHidden := s.verifyHidden 0, lastTargetPosition := position }
  else pure ()

/-- `forward_greedy`; none where no logits are computed. -/
def forwardGreedy (token : Token) (position : ℕ) (useMtp saveMtpHidden computeLogits : Bool) :
    Call T H D (Option Token) :=
  if l.pipeline && l.batchSupported 1 && l.verifyAllocated then do
    pairGreedy l n token position useMtp
    let rows ← forwardBatchVerify l n [token] position false
    saveGreedy l position saveMtpHidden
    pure (rows.head?.map n.argmax)
  else do
    let logits ← forwardBody l n token position useMtp saveMtpHidden computeLogits
    pure (logits.map n.argmax)

/-! ### Speculation -/

/-- The recurrent layers behind `accepted` drafts. -/
def restoreAccepted (accepted : ℕ) : Call T H D Unit :=
  if accepted = 0 then modify fun s => { s with target := n.target.restoreFirst s.target }
  else if accepted = 1 then modify fun s => { s with target := n.target.restoreSecond s.target }
  else pure ()

/-- The row behind `accepted` drafts, and what of them a draft head on no device has not seen yet. -/
def catchupAccepted (drafts : List Token) (position accepted : ℕ) : Call T H D Unit :=
  if l.mtpSlot = none then do
    modify fun s => { s with pendingHidden := s.verifyHidden accepted }
    let s ← state
    if 0 < accepted then
      mtpCatchupCuda l n (drafts.take accepted) (position + 1) ((List.range accepted).map s.verifyHidden)
    else pure ()
  else pure ()

/-- `accept_sampled_speculative` -/
def acceptSampled (drafts : List Token) (position accepted : ℕ) : Call T H D Unit := do
  require (decide (2 ≤ drafts.length) && decide (accepted ≤ 2) && l.verifyAllocated) .invalid
  modify fun s => { s with
    cudaPendingHidden := if l.mtpSlot.isSome then s.cudaVerifyHidden accepted else s.cudaPendingHidden }
  restoreAccepted n accepted
  modify fun s => { s with lastTargetPosition := position + accepted }
  catchupAccepted l n drafts position accepted

/-- A round of speculation in three rows: the drafts, and what the verification returns. -/
def verifyThree (token : Token) (position : ℕ) (sampled : Bool) : Call T H D (List Token × List L) := do
  let first ← mtpDraftGreedy l n token position
  let second ← mtpContinueCuda l n first (position + 1)
  let rows ← forwardBatchVerify l n [token, first, second] position sampled
  mtpRefreshVerifyCuda l n [token, first, second] position
  pure ([first, second], rows)

/-- What is passed to `prepare_sampled_speculative`: the sizes of its arrays. -/
structure Workspace where
  draftTokens : ℕ
  verifyLogits : ℕ

/-- `prepare_sampled_speculative` -/
def prepareSampled (w : Workspace) (token : Token) (position : ℕ) : Call T H D (List Token × List L) := do
  require (l.mtpActive && decide (2 ≤ l.mtpLimit) && decide (2 ≤ w.draftTokens) &&
    decide (3 * n.vocabularySize ≤ w.verifyLogits) && decide (position + 2 < l.maxContext) &&
    l.batchSupported 3) .unsupported
  verifyThree l n token position true

/-- What is passed to `prepare_sampled_speculative_topk`: the sizes of its arrays. -/
structure TopkWorkspace where
  draftTokens : ℕ
  candidates : ℕ
  columns : ℕ

/-- `prepare_sampled_speculative_topk` -/
def prepareSampledTopk (w : TopkWorkspace) (token : Token) (position : ℕ) :
    Call T H D (List Token × List L) := do
  require (l.mtpActive && decide (2 ≤ l.mtpLimit) && decide (2 ≤ w.draftTokens)) .unsupported
  require (decide (0 < w.candidates) && decide (w.candidates ≤ 32) && decide (3 ≤ w.columns)) .invalid
  require (decide (position + 2 < l.maxContext)) .unsupported
  verifyThree l n token position true

/-- The branch of `forward_greedy_speculative` with two drafts. -/
def threeRows (token : Token) (position : ℕ) : Call T H D (List Token) := do
  let (drafts, rows) ← verifyThree l n token position false
  match drafts, rows.map n.argmax with
  | [first, second], [v₁, v₂, v₃] =>
    if first ≠ v₁ then do
      acceptSampled l n drafts position 0
      pure [v₁]
    else if second ≠ v₂ then do
      acceptSampled l n drafts position 1
      pure [first, v₂]
    else do
      acceptSampled l n drafts position 2
      pure [first, second, v₃]
  | _, _ => fail .invalid

/-- The branch of `forward_greedy_speculative` with one draft. -/
def twoRows (token : Token) (position : ℕ) : Call T H D (List Token) := do
  let draft ← mtpDraftGreedy l n token position
  let rows ← forwardBatchVerify l n [token, draft] position false
  match rows.map n.argmax with
  | [v₁, v₂] =>
    if draft = v₁ then do
      modify fun s => { s with pendingHidden := s.verifyHidden 1, lastTargetPosition := position + 1 }
      let s ← state
      mtpPair l n draft (position + 1) (s.verifyHidden 0)
      pure [draft, v₂]
    else do
      modify fun s => { s with
        target := n.target.restoreFirst s.target
        pendingHidden := s.verifyHidden 0
        lastTargetPosition := position }
      pure [v₁]
  | _ => fail .invalid

/-- The branch of `forward_greedy_speculative` that decodes two tokens one after the other. -/
def twoScalars (token : Token) (position : ℕ) : Call T H D (List Token) := do
  let next ← forwardGreedy l n token position true true true
  match next with
  | none => fail .invalid
  | some first => do
    let _ ← mtpDraftGreedy l n first (position + 1)
    let next ← forwardGreedy l n first (position + 1) true true true
    match next with
    | none => fail .invalid
    | some second => pure [first, second]

/-- `forward_greedy_speculative`, without the engine of llama.cpp; `size` is that of `tokens`. -/
def forwardGreedySpeculative (size : ℕ) (token : Token) (position : ℕ) : Call T H D (List Token) :=
  -- at most 32 tokens are asked for
  let capacity := if size ≤ 32 then size else 32
  if size = 0 then fail .invalid
  else if l.mtpActive ∧ 2 ≤ l.mtpLimit ∧ 3 ≤ capacity ∧ position + 2 < l.maxContext ∧ l.batchSupported 3 then
    threeRows l n token position
  else if l.mtpActive ∧ 2 ≤ l.mtpLimit ∧ 2 ≤ capacity ∧ position + 1 < l.maxContext ∧ l.batchSupported 2 then
    twoRows l n token position
  else if l.mtpActive ∧ 2 ≤ l.mtpLimit ∧ 2 ≤ capacity ∧ position + 1 < l.maxContext then
    twoScalars l n token position
  else do
    let next ← forwardGreedy l n token position true true true
    match next with
    | none => fail .invalid
    | some first => pure [first]

/-- The capacity does not decide about a branch. -/
theorem le_capacity_iff {size count : ℕ} (hcount : count ≤ 32) :
    count ≤ (if size ≤ 32 then size else 32) ↔ count ≤ size := by
  split_ifs with hsize
  · exact Iff.rfl
  · exact iff_of_true hcount (by omega)

/-- `reset` -/
def reset : Call T H D Unit :=
  modify fun s => { s with
    target := n.target.cleared
    draft := n.draft.cleared
    pendingHidden := n.zero
    cudaPendingHidden := if l.mtpSlot.isSome then n.zero else s.cudaPendingHidden
    lastTargetPosition := -1 }

end Qwen35

end FortAI
