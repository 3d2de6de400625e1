import FortAI.Qwen35.Speculative

/-!
# How the calls end

For each call of the engine, what is to be shown for a property to hold behind it: where it returns, in
the state that it leaves, and where it fails.

* `ends_mtpPair`, `ends_mtpDraftGreedy` and the like : the draft head.
* `ends_forwardBatchVerify`, `ends_verifyThree`, `ends_acceptSampled` : a round and its acceptance.
-/

namespace FortAI

namespace Qwen35

open Procedure

variable {T H D L : Type} {l : Layout} {n : Networks T H D L} {s : State T H D} {token position : ℕ}
  {failed : State T H D → Prop}

theorem Layout.slot_eq_none (h : l.mtpSlot.isSome = false) : l.mtpSlot = none :=
  Option.isNone_iff_eq_none.mp (Option.isSome_eq_false_iff.mp h)

/-! ### The draft head -/

theorem ends_mtpPair {hidden : H} {ok : Unit → State T H D → Prop} (hok : ∀ draft, ok () { s with draft })
    (hfailed : failed s) : (mtpPair l n token position hidden).Ends s ok failed := by
  simp only [mtpPair, ends_bind, ends_require, ends_modify]
  exact ⟨fun _ => ⟨fun _ => hok _, fun _ => hfailed⟩, fun _ => hfailed⟩

theorem ends_mtpPair_of {hidden : H} {ok : Unit → State T H D → Prop} (hactive : l.mtpActive = true)
    (htoken : token < n.vocabularySize) (hposition : position < l.maxContext)
    (hok : ∀ draft, ok () { s with draft }) : (mtpPair l n token position hidden).Ends s ok failed := by
  simp only [mtpPair, ends_bind, ends_require, ends_modify, hactive, decide_eq_true htoken,
    decide_eq_true hposition]
  exact ⟨fun _ => ⟨fun _ => hok _, fun h => Bool.noConfusion h⟩, fun h => Bool.noConfusion h⟩

theorem ends_mtpDraftGreedy {ok : Token → State T H D → Prop}
    (hok : l.mtpActive = true → (position : ℤ) = s.lastTargetPosition + 1 →
      ∀ draft, ok (n.draft.drafted draft) { s with draft })
    (hfailed : failed s) : (mtpDraftGreedy l n token position).Ends s ok failed := by
  simp only [mtpDraftGreedy, pairPending, ends_bind, ends_require, ends_state, ends_ite, ends_modify, ends_pure,
    Bool.and_eq_true, decide_eq_true_eq]
  refine ⟨fun hactive => ⟨fun hpending => ⟨fun _ => ⟨fun _ => ?_, fun _ => hfailed⟩, fun _ => ?_⟩,
    fun _ => hfailed⟩, fun _ => hfailed⟩
  · exact hok hactive hpending.2 _
  · exact ends_mtpPair (fun draft => hok hactive hpending.2 draft) hfailed

theorem ends_mtpContinueCuda {ok : Token → State T H D → Prop}
    (hok : l.mtpSlot.isSome = true → ∀ draft, ok (n.draft.drafted draft) { s with draft })
    (hfailed : failed s) : (mtpContinueCuda l n token position).Ends s ok failed := by
  simp only [mtpContinueCuda, ends_bind, ends_require, ends_modify, ends_state, ends_pure, Bool.and_eq_true]
  exact ⟨fun hguard => hok hguard.1.1 _, fun _ => hfailed⟩

/-- What `mtp_catchup_cuda` is called with. -/
structure CatchesUp (l : Layout) (n : Networks T H D L) (tokens : List Token) (position : ℕ) : Prop where
  length_pos : 0 < tokens.length
  position_le : position + tokens.length ≤ l.maxContext
  length_le : tokens.length ≤ l.capacity
  tokens_lt : ∀ token ∈ tokens, token < n.vocabularySize

theorem ends_mtpCatchupCuda {tokens : List Token} {hidden : List H} {ok : Unit → State T H D → Prop}
    (h : CatchesUp l n tokens position) (hok : l.mtpSlot.isSome = true → ∀ draft, ok () { s with draft })
    (hfailed : l.mtpSlot = none → failed s) : (mtpCatchupCuda l n tokens position hidden).Ends s ok failed := by
  have hall : (tokens.all fun token => decide (token < n.vocabularySize)) = true :=
    List.all_eq_true.mpr fun token htoken => decide_eq_true (h.tokens_lt token htoken)
  simp only [mtpCatchupCuda, ends_bind, ends_require, ends_modify, decide_eq_true h.length_pos,
    decide_eq_true h.position_le, decide_eq_true h.length_le, hall, Bool.and_true]
  exact ⟨fun hslot => hok hslot _, fun hslot => hfailed (Layout.slot_eq_none hslot)⟩

/-! ### Verification -/

section

variable {tokens : List Token}

theorem ends_batchRows {ok : List H → State T H D → Prop}
    (hok : l.batchSupported tokens.length = true → CatchesUp l n tokens position → l.embeddingResident = true →
      ok (n.target.batch s.target position tokens).2
        { s with target := (n.target.batch s.target position tokens).1 })
    (hfailed : failed s) : (batchRows l n tokens position).Ends s ok failed := by
  simp only [batchRows, ends_bind, ends_require, ends_state, ends_modify, ends_pure, decide_eq_true_eq,
    List.all_eq_true]
  refine ⟨fun hbatch => ⟨fun hposition => ⟨fun htokens => ⟨fun hembedding => ?_, fun _ => hfailed⟩,
    fun _ => hfailed⟩, fun _ => hfailed⟩, fun _ => hfailed⟩
  exact hok hbatch ⟨l.pos_of_batchSupported hbatch, hposition, l.length_le_of_batchSupported hbatch, htokens⟩
    hembedding

/-- The state behind a verification batch: the target, and the rows where they are kept. -/
def State.verified (l : Layout) (n : Networks T H D L) (s : State T H D) (tokens : List Token) (position : ℕ) :
    State T H D :=
  let normalized := (n.target.batch s.target position tokens).2.map n.outputNorm
  { s with
    target := (n.target.batch s.target position tokens).1
    cudaVerifyHidden := if l.mtpSlot.isSome then written normalized s.cudaVerifyHidden else s.cudaVerifyHidden
    verifyHidden := if l.mtpSlot.isSome then s.verifyHidden else written normalized s.verifyHidden }

theorem State.verified_device (hslot : l.mtpSlot.isSome = true) :
    (s.verified l n tokens position).cudaVerifyHidden =
      written ((n.target.batch s.target position tokens).2.map n.outputNorm) s.cudaVerifyHidden :=
  if_pos hslot

theorem State.verified_host (hslot : l.mtpSlot = none) :
    (s.verified l n tokens position).verifyHidden =
      written ((n.target.batch s.target position tokens).2.map n.outputNorm) s.verifyHidden :=
  if_neg (by rw [hslot]; exact Bool.false_ne_true)

theorem ends_keepRows {rows : List H} {sampled : Bool} {ok : Unit → State T H D → Prop}
    (hcuda : l.mtpSlot.isSome = true → ok () { s with cudaVerifyHidden := written rows s.cudaVerifyHidden })
    (hhost : l.mtpSlot = none → sampled = false → ok () { s with verifyHidden := written rows s.verifyHidden })
    (hfailed : l.mtpSlot = none → sampled = true → failed s) : (keepRows l rows sampled).Ends s ok failed := by
  simp only [keepRows, ends_ite, ends_bind, ends_require, ends_modify, Bool.or_eq_true, not_or, Bool.not_eq_true]
  refine ⟨fun hkept => ⟨hcuda, fun hslot => ?_⟩, fun hkept => ?_⟩
  · refine hfailed (Layout.slot_eq_none hslot) (hkept.resolve_right ?_)
    rw [hslot]
    exact Bool.false_ne_true
  · exact hhost (Layout.slot_eq_none hkept.2) hkept.1

theorem ends_forwardBatchVerify {sampled : Bool} {ok : List L → State T H D → Prop}
    (hok : l.batchSupported tokens.length = true → CatchesUp l n tokens position →
      ok (((n.target.batch s.target position tokens).2.map n.outputNorm).map n.logits)
        (s.verified l n tokens position))
    (hfailed : failed s)
    (hlate : l.embeddingResident = true → (l.outputResident = false ∨ l.mtpSlot = none ∧ sampled = true) →
      failed { s with target := (n.target.batch s.target position tokens).1 }) :
    (forwardBatchVerify l n tokens position sampled).Ends s ok failed := by
  simp only [forwardBatchVerify, ends_bind, ends_require, ends_pure]
  refine ⟨fun _ => ends_batchRows (fun hbatch hcatches hembedding => ⟨fun _ => ?_, fun houtput => ?_⟩) hfailed,
    fun _ => hfailed⟩
  · have h := hok hbatch hcatches
    refine ends_keepRows (fun hslot => ?_) (fun hslot _ => ?_) fun hslot hsampled => ?_
    · simpa only [State.verified, hslot, if_true] using h
    · simpa only [State.verified, hslot, Option.isSome_none, Bool.false_eq_true, if_false] using h
    · exact hlate hembedding (.inr ⟨hslot, hsampled⟩)
  · exact hlate hembedding (.inl houtput)

end

/-! ### Batches of the prompt -/

theorem ends_updateBatch {tokens : List Token} {rows : List H} {computeLogits updateMtp : Bool}
    {ok : Unit → State T H D → Prop} (h : CatchesUp l n tokens position)
    (hkept : l.mtpSlot.isSome = true → ∀ draft, ok () { s with
      draft
      pendingHidden := if computeLogits then rows.getLastD s.cudaPendingHidden else s.pendingHidden
      cudaPendingHidden := rows.getLastD s.cudaPendingHidden
      lastTargetPosition := position + tokens.length - 1 })
    (hfailed : l.mtpSlot = none → failed s) (hok : ¬ (l.mtpActive = true ∧ updateMtp = true) → ok () s) :
    (updateBatch l n tokens position rows computeLogits updateMtp).Ends s ok failed := by
  simp only [updateBatch, shiftTargetHidden, ends_ite, ends_bind, ends_require, ends_state, ends_modify, ends_pure,
    Bool.and_eq_true]
  refine ⟨fun _ => ⟨fun hslot => ?_, fun hslot => hfailed (Layout.slot_eq_none hslot)⟩, hok⟩
  refine ends_mtpCatchupCuda h (fun _ draft => ⟨fun hlogits => ?_, fun hlogits => ?_⟩) fun hnone => ?_
  · have hkept := hkept hslot draft
    rwa [if_pos hlogits] at hkept
  · have hkept := hkept hslot draft
    rwa [if_neg hlogits] at hkept
  · rw [hnone] at hslot
    cases hslot

theorem ends_forwardBatch {tokens : List Token} {computeLogits updateMtp : Bool}
    {ok : Option L → State T H D → Prop}
    (hok : CatchesUp l n tokens position →
      (updateBatch l n tokens position ((n.target.batch s.target position tokens).2.map n.outputNorm) computeLogits
        updateMtp).Ends { s with target := (n.target.batch s.target position tokens).1 }
        (fun _ s' => ok (if computeLogits then
          ((n.target.batch s.target position tokens).2.map n.outputNorm).getLast?.map n.logits else none) s') failed)
    (hfailed : failed s) : (forwardBatch l n tokens position computeLogits updateMtp).Ends s ok failed := by
  simp only [forwardBatch, ends_bind, ends_pure]
  exact ends_batchRows (fun _ hcatches _ => hok hcatches) hfailed

/-! ### Rounds -/

/-- The state behind a round of three rows. -/
def State.drafted (l : Layout) (n : Networks T H D L) (s : State T H D) (tokens : List Token) (position : ℕ)
    (draft : D) : State T H D :=
  { s.verified l n tokens position with
    draft
    cudaPendingHidden := (s.verified l n tokens position).cudaVerifyHidden 2 }

theorem ends_mtpRefreshVerifyCuda {first second third : Token} {ok : Unit → State T H D → Prop}
    (hslot : l.mtpSlot.isSome = true) (h : CatchesUp l n [first, second, third] position)
    (hok : ∀ draft, ok () { s with draft, cudaPendingHidden := s.cudaVerifyHidden 2 }) :
    (mtpRefreshVerifyCuda l n [first, second, third] position).Ends s ok failed := by
  have hne : l.mtpSlot ≠ none := Option.isSome_iff_ne_none.mp hslot
  rw [mtpRefreshVerifyCuda, if_neg hne]
  simp only [ends_bind, ends_require, ends_state, shiftTargetHidden, ends_modify, ends_pure]
  refine ⟨fun _ => ends_mtpCatchupCuda h (fun _ draft => hok draft) fun hnone => absurd hnone hne, fun hguard => ?_⟩
  simp at hguard

theorem ends_verifyThree {sampled : Bool} {ok : List Token × List L → State T H D → Prop}
    (hok : l.mtpActive = true → (position : ℤ) = s.lastTargetPosition + 1 → l.mtpSlot.isSome = true →
      l.batchSupported 3 = true → ∀ first second draft,
        ok ([first, second], ((n.target.batch s.target position [token, first, second]).2.map n.outputNorm).map
          n.logits) (s.drafted l n [token, first, second] position draft))
    (hfailed : ∀ draft, failed { s with draft })
    (hlate : (position : ℤ) = s.lastTargetPosition + 1 → ∀ first second draft,
      failed { s with draft, target := (n.target.batch s.target position [token, first, second]).1 }) :
    (verifyThree l n token position sampled).Ends s ok failed := by
  simp only [verifyThree, ends_bind, ends_pure]
  refine ends_mtpDraftGreedy (fun hactive hposition draft => ?_) (hfailed s.draft)
  refine ends_mtpContinueCuda (fun hslot draft' => ?_) (hfailed draft)
  refine ends_forwardBatchVerify (fun hbatch hcatches => ?_) (hfailed draft') fun _ _ => hlate hposition _ _ draft'
  exact ends_mtpRefreshVerifyCuda hslot hcatches fun draft'' => hok hactive hposition hslot hbatch _ _ draft''

/-- The state behind an acceptance, where the draft head is on a device. -/
def State.accepted (n : Networks T H D L) (s : State T H D) (position accepted : ℕ) : State T H D :=
  { s with
    target := if accepted = 0 then n.target.restoreFirst s.target
      else if accepted = 1 then n.target.restoreSecond s.target else s.target
    cudaPendingHidden := s.cudaVerifyHidden accepted
    lastTargetPosition := position + accepted }

theorem ends_restoreAccepted {accepted : ℕ} {ok : Unit → State T H D → Prop}
    (hok : ok () { s with target := if accepted = 0 then n.target.restoreFirst s.target
      else if accepted = 1 then n.target.restoreSecond s.target else s.target }) :
    (restoreAccepted n accepted).Ends s ok failed := by
  simp only [restoreAccepted, ends_ite, ends_modify, ends_pure]
  refine ⟨fun h => ?_, fun h => ⟨fun h' => ?_, fun h' => ?_⟩⟩
  · rwa [if_pos h] at hok
  · rwa [if_neg h, if_pos h'] at hok
  · rwa [if_neg h, if_neg h'] at hok

theorem ends_acceptSampled {drafts : List Token} {accepted : ℕ} {ok : Unit → State T H D → Prop}
    (hslot : l.mtpSlot.isSome = true) (hok : accepted ≤ 2 → ok () (s.accepted n position accepted))
    (hfailed : ¬ (2 ≤ drafts.length ∧ accepted ≤ 2 ∧ l.verifyAllocated = true) → failed s) :
    (acceptSampled l n drafts position accepted).Ends s ok failed := by
  have hne : l.mtpSlot ≠ none := Option.isSome_iff_ne_none.mp hslot
  simp only [acceptSampled, ends_bind, ends_require, ends_modify, hslot, if_true, catchupAccepted, if_neg hne,
    ends_pure, Bool.and_eq_true, decide_eq_true_eq]
  refine ⟨fun hguard => ends_restoreAccepted (hok hguard.1.2), fun hguard => hfailed fun h => ?_⟩
  simp [h.1, h.2.1, h.2.2] at hguard

/-- The drafts that the target agrees with are accepted, and its own next token behind them. -/
theorem ends_threeRows {ok : List Token → State T H D → Prop}
    (hok : l.mtpActive = true → (position : ℤ) = s.lastTargetPosition + 1 → l.mtpSlot.isSome = true →
      l.batchSupported 3 = true → ∀ first second draft picked,
        picked = (((n.target.batch s.target position [token, first, second]).2.map n.outputNorm).map n.logits).map
          n.argmax →
        ∀ accepted ≤ 2, [first, second].take accepted = picked.take accepted →
          ok (picked.take (accepted + 1))
            ((s.drafted l n [token, first, second] position draft).accepted n position accepted))
    (hfailed : ∀ draft, failed { s with draft })
    (hlate : (position : ℤ) = s.lastTargetPosition + 1 → ∀ first second draft,
      failed { s with draft, target := (n.target.batch s.target position [token, first, second]).1 }) :
    (threeRows l n token position).Ends s ok failed := by
  simp only [threeRows, ends_bind]
  refine ends_verifyThree (fun hactive hposition hslot hbatch first second draft => ?_) hfailed hlate
  have hpicked := hok hactive hposition hslot hbatch first second draft _ rfl
  have hlength : ((((n.target.batch s.target position [token, first, second]).2.map n.outputNorm).map
      n.logits).map n.argmax).length = 3 := by
    rw [List.length_map, List.length_map, List.length_map, n.target.length_batch]
    rfl
  obtain ⟨v₁, v₂, v₃, hthree⟩ := List.length_eq_three.mp hlength
  rw [hthree] at hpicked
  simp only [hthree, ends_ite, ends_bind, ends_pure]
  have haccept (accepted : ℕ) (haccepted : accepted ≤ 2) (htake : [first, second].take accepted = [v₁, v₂, v₃].take accepted) :
      (acceptSampled l n [first, second] position accepted).Ends
        (s.drafted l n [token, first, second] position draft)
        (fun _ s' => ok ([v₁, v₂, v₃].take (accepted + 1)) s') failed :=
    ends_acceptSampled hslot (fun hle => hpicked accepted hle htake) fun h =>
      absurd ⟨le_refl 2, haccepted, l.allocated_of_active hactive⟩ h
  refine ⟨fun _ => haccept 0 (by decide) rfl, fun hfirst => ⟨fun _ => ?_, fun hsecond => ?_⟩⟩
  · obtain rfl := not_not.mp hfirst
    exact haccept 1 (by decide) rfl
  · obtain rfl := not_not.mp hfirst
    obtain rfl := not_not.mp hsecond
    exact haccept 2 (by decide) rfl

/-- The state behind a round of two rows, without the draft head. -/
def State.acceptedHost (n : Networks T H D L) (s : State T H D) (position accepted : ℕ) : State T H D :=
  { s with
    target := if accepted = 0 then n.target.restoreFirst s.target else s.target
    pendingHidden := s.verifyHidden accepted
    lastTargetPosition := position + accepted }

theorem ends_twoRows {ok : List Token → State T H D → Prop}
    (hok : l.mtpActive = true → (position : ℤ) = s.lastTargetPosition + 1 → l.batchSupported 2 = true →
      ∀ first draft picked,
        picked = (((n.target.batch s.target position [token, first]).2.map n.outputNorm).map n.logits).map n.argmax →
        ∀ accepted ≤ 1, [first].take accepted = picked.take accepted →
          ok (picked.take (accepted + 1))
            { (s.verified l n [token, first] position).acceptedHost n position accepted with draft })
    (hfailed : ∀ draft, failed { s with draft })
    (hlate : (position : ℤ) = s.lastTargetPosition + 1 → ∀ first draft,
      failed { s with draft, target := (n.target.batch s.target position [token, first]).1 }) :
    (twoRows l n token position).Ends s ok failed := by
  simp only [twoRows, ends_bind]
  refine ends_mtpDraftGreedy (fun hactive hposition draft => ?_) (hfailed s.draft)
  refine ends_forwardBatchVerify (fun hbatch hcatches => ?_) (hfailed draft)
    fun _ _ => hlate hposition _ draft
  have hpicked := hok hactive hposition hbatch (n.draft.drafted draft)
  have hlength : ((((n.target.batch s.target position [token, n.draft.drafted draft]).2.map n.outputNorm).map
      n.logits).map n.argmax).length = 2 := by
    rw [List.length_map, List.length_map, List.length_map, n.target.length_batch]
    rfl
  obtain ⟨v₁, v₂, htwo⟩ := List.length_eq_two.mp hlength
  simp only [htwo, ends_ite, ends_bind, ends_modify, ends_state, ends_pure]
  refine ⟨fun hmatch => ?_, fun _ => ?_⟩
  · have htoken : n.draft.drafted draft < n.vocabularySize := n.drafted_lt draft
    have hle := hcatches.position_le
    refine ends_mtpPair_of hactive htoken hle fun draft' => ?_
    have h := hpicked draft' _ rfl 1 le_rfl (by rw [htwo, ← hmatch]; rfl)
    rw [htwo, ← hmatch] at h
    exact h
  · have h := hpicked draft _ rfl 0 (by decide) rfl
    rw [htwo] at h
    exact h

/-! ### One token -/

theorem ends_pairGreedy {useMtp : Bool} {ok : Unit → State T H D → Prop} (hok : ∀ draft, ok () { s with draft })
    (hfailed : failed s) : (pairGreedy l n token position useMtp).Ends s ok failed := by
  simp only [pairGreedy, ends_bind, ends_state, ends_ite, ends_pure]
  exact ⟨fun _ => ends_mtpPair hok hfailed, fun _ => hok s.draft⟩

theorem ends_pairBody {useMtp : Bool} {ok : Unit → State T H D → Prop}
    (hok : (l.mtpActive = true → useMtp = true → (position : ℤ) = s.lastTargetPosition + 1) →
      ∀ draft, ok () { s with draft })
    (hfailed : failed s) : (pairBody l n token position useMtp).Ends s ok failed := by
  simp only [pairBody, ends_bind, ends_state, ends_ite, ends_require, ends_pure, Bool.and_eq_true,
    decide_eq_true_eq]
  refine ⟨fun _ => ⟨fun hzero => ⟨fun hlast => ?_, fun _ => hfailed⟩, fun _ => ⟨fun hposition => ?_,
    fun _ => hfailed⟩⟩, fun huse => ?_⟩
  · refine hok (fun _ _ => ?_) s.draft
    rw [hzero, hlast]
    rfl
  · exact ends_mtpPair (hok fun _ _ => hposition) hfailed
  · exact hok (fun hactive hmtp => absurd ⟨hactive, hmtp⟩ huse) s.draft

theorem ends_saveGreedy {save : Bool} {ok : Unit → State T H D → Prop}
    (hsave : l.mtpActive = true → save = true →
      ok () { s with pendingHidden := s.verifyHidden 0, lastTargetPosition := position })
    (hok : ¬ (l.mtpActive = true ∧ save = true) → ok () s) : (saveGreedy l position save).Ends s ok failed := by
  simp only [saveGreedy, ends_ite, ends_modify, ends_pure, Bool.and_eq_true]
  exact ⟨fun h => hsave h.1 h.2, hok⟩

/-- `forward_body` computes logits where it saves, on the host. -/
def Layout.saves (l : Layout) (save computeLogits : Bool) : Bool :=
  l.mtpActive && save && (l.pipeline || computeLogits)

theorem ends_saveBody {x : H} {save computeLogits : Bool} {ok : Unit → State T H D → Prop}
    (hsave : l.saves save computeLogits = true → ok () { s with
      pendingHidden := if l.pipeline then x else n.outputNorm x
      lastTargetPosition := position })
    (hok : l.saves save computeLogits = false → ok () s) :
    (saveBody l n position x save computeLogits).Ends s ok failed := by
  cases hpipeline : l.pipeline with
  | true =>
    simp only [Layout.saves, hpipeline, Bool.true_or, Bool.and_true, if_true] at hsave hok
    rw [saveBody, if_pos hpipeline, ends_ite]
    exact ⟨hsave, fun h => hok (Bool.eq_false_iff.mpr h)⟩
  | false =>
    have horder : (computeLogits && l.mtpActive && save) = (l.mtpActive && save && computeLogits) := by
      rw [Bool.and_assoc, Bool.and_comm]
    simp only [Layout.saves, hpipeline, Bool.false_or, Bool.false_eq_true, if_false] at hsave hok
    rw [saveBody, if_neg (Bool.eq_false_iff.mp hpipeline), horder, ends_ite]
    exact ⟨hsave, fun h => hok (Bool.eq_false_iff.mpr h)⟩

theorem ends_forwardBody {useMtp save computeLogits : Bool} {ok : Option L → State T H D → Prop}
    (hok : (l.mtpActive = true → useMtp = true → (position : ℤ) = s.lastTargetPosition + 1) → ∀ draft,
      (saveBody l n position (n.target.scalar s.target position token).2 save computeLogits).Ends
        { s with draft, target := (n.target.scalar s.target position token).1 }
        (fun _ s' => ok (if computeLogits then
          some (n.logits (n.outputNorm (n.target.scalar s.target position token).2)) else none) s') failed)
    (hfailed : failed s) : (forwardBody l n token position useMtp save computeLogits).Ends s ok failed := by
  simp only [forwardBody, ends_bind, ends_require, ends_state, ends_modify, ends_pure]
  exact ⟨fun _ => ends_pairBody hok hfailed, fun _ => hfailed⟩

/-- Whether `forward_greedy` runs a batch of one row. -/
def Layout.batchesOne (l : Layout) : Bool := l.pipeline && l.batchSupported 1 && l.verifyAllocated

theorem ends_forwardGreedy {useMtp save computeLogits : Bool} {ok : Option Token → State T H D → Prop}
    (hbatch : l.batchesOne = true → ∀ draft,
      (saveGreedy l position save).Ends { s.verified l n [token] position with draft }
        (fun _ s' => ok ((((n.target.batch s.target position [token]).2.map n.outputNorm).map n.logits).head?.map
          n.argmax) s') failed)
    (hbody : l.batchesOne = false →
      (l.mtpActive = true → useMtp = true → (position : ℤ) = s.lastTargetPosition + 1) → ∀ draft,
      (saveBody l n position (n.target.scalar s.target position token).2 save computeLogits).Ends
        { s with draft, target := (n.target.scalar s.target position token).1 }
        (fun _ s' => ok ((if computeLogits then
          some (n.logits (n.outputNorm (n.target.scalar s.target position token).2)) else none).map n.argmax) s')
        failed)
    (hfailed : ∀ draft, failed { s with draft })
    (hlate : l.batchesOne = true → l.embeddingResident = true → l.outputResident = false → ∀ draft,
      failed { s with draft, target := (n.target.batch s.target position [token]).1 }) :
    (forwardGreedy l n token position useMtp save computeLogits).Ends s ok failed := by
  simp only [forwardGreedy, ends_ite, ends_bind, ends_pure]
  refine ⟨fun hone => ?_, fun hone => ?_⟩
  · refine ends_pairGreedy (fun draft => ?_) (hfailed s.draft)
    refine ends_forwardBatchVerify (fun _ _ => hbatch hone draft) (hfailed draft) fun hembedding hmissing => ?_
    exact hlate hone hembedding (hmissing.resolve_right fun h => Bool.false_ne_true h.2) draft
  · exact ends_forwardBody (hbody (Bool.eq_false_iff.mpr hone)) (hfailed s.draft)

end Qwen35

end FortAI
