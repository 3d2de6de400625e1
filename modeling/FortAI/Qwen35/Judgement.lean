import FortAI.Qwen35.Refusal

/-!
# What a round says about its drafts

A round of speculation returns tokens.  Which of its drafts stood against a token of the target, and how
many of them are the target's, can be read off their number only where two drafts are verified at once.

* `Judgement`, `judge` : drafts against the tokens of the target.
* `judgeThree`, `judgeTwo`, `judgeScalars` : the rounds, as far as the target has spoken.
* `judgeGreedy_of_ok`, `judgeGreedy_of_unsupported` : a round that returns, and one that is refused.
-/

namespace FortAI

/-- What a verification finds out about drafts. -/
structure Judgement where
  /-- The drafts that a token of the target stands against. -/
  verified : ℕ
  /-- The leading ones that are the target's tokens. -/
  matched : ℕ
  deriving DecidableEq

namespace Judgement

/-- No draft was verified. -/
def none : Judgement := ⟨0, 0⟩

/-- The drafts up to the first one that is not the target's token. -/
def compared (j : Judgement) : ℕ := if j.matched < j.verified then j.matched + 1 else j.verified

theorem compared_le (j : Judgement) : j.compared ≤ j.verified := by
  rw [compared]
  split_ifs with h
  · exact h
  · exact le_refl _

end Judgement

/-- Drafts against the tokens that the target has in their places. -/
def judge {α : Type} [DecidableEq α] (drafts targets : List α) : Judgement :=
  let pairs := drafts.zip targets
  ⟨pairs.length, (pairs.takeWhile fun pair => pair.1 = pair.2).length⟩

theorem judge_verified_le {α : Type} [DecidableEq α] (drafts targets : List α) :
    (judge drafts targets).verified ≤ drafts.length := by
  simp only [judge, List.length_zip]
  exact Nat.min_le_left _ _

namespace Qwen35

open Procedure

variable {T H D L : Type} (l : Layout) (n : Networks T H D L)

/-! ### The rounds -/

/-- A round in three rows, up to the tokens of the target. -/
def judgeThree (token : Token) (position : ℕ) : Call T H D Judgement := do
  let (drafts, rows) ← verifyThree l n token position false
  pure (judge drafts (rows.map n.argmax))

/-- A round in two rows, up to the tokens of the target. -/
def judgeTwo (token : Token) (position : ℕ) : Call T H D Judgement := do
  let draft ← mtpDraftGreedy l n token position
  let rows ← forwardBatchVerify l n [token, draft] position false
  pure (judge [draft] (rows.map n.argmax))

/-- Two tokens one after the other, with a draft of the second one. -/
def judgeScalars (token : Token) (position : ℕ) : Call T H D Judgement := do
  let next ← forwardGreedy l n token position true true true
  match next with
  | none => fail .invalid
  | some first => do
    let draft ← mtpDraftGreedy l n first (position + 1)
    let next ← forwardGreedy l n first (position + 1) true true true
    pure (judge [draft] next.toList)

/-- The branches of `forward_greedy_speculative`. -/
def judgeGreedy (size : ℕ) (token : Token) (position : ℕ) : Call T H D Judgement :=
  let capacity := if size ≤ 32 then size else 32
  if size = 0 then fail .invalid
  else if l.mtpActive ∧ 2 ≤ l.mtpLimit ∧ 3 ≤ capacity ∧ position + 2 < l.maxContext ∧ l.batchSupported 3 then
    judgeThree l n token position
  else if l.mtpActive ∧ 2 ≤ l.mtpLimit ∧ 2 ≤ capacity ∧ position + 1 < l.maxContext ∧ l.batchSupported 2 then
    judgeTwo l n token position
  else if l.mtpActive ∧ 2 ≤ l.mtpLimit ∧ 2 ≤ capacity ∧ position + 1 < l.maxContext then
    judgeScalars l n token position
  else pure .none

/-- Where two drafts are verified at once. -/
def Layout.DraftsTwo (position : ℕ) : Prop :=
  l.mtpActive = true ∧ 2 ≤ l.mtpLimit ∧ position + 2 < l.maxContext ∧ l.batchSupported 3 = true

instance (position : ℕ) : Decidable (l.DraftsTwo position) := inferInstanceAs (Decidable (_ ∧ _ ∧ _ ∧ _))

instance : Decidable l.RunsScalar := inferInstanceAs (Decidable (_ → _ → _))

variable {l n} {s s' : State T H D} {token position : ℕ}

/-! ### Which errors the calls stop at -/

theorem not_unsupported {e : Fault} {P : Prop} (he : e = .invalid) : e = .unsupported → P := by
  rintro rfl
  cases he

/-- A condition whose failure is invalid. -/
theorem faults_invalid {c : Bool} : (require c .invalid : Call T H D Unit).Faults (· = .invalid) :=
  faults_require fun _ => rfl

/-- Such a condition is not refused. -/
theorem faults_invalid' {c : Bool} {P : Prop} :
    (require c .invalid : Call T H D Unit).Faults fun e => e = .unsupported → P :=
  faults_require fun _ => not_unsupported rfl

theorem faults_mtpPair {hidden : H} (hactive : l.mtpActive = true) :
    (mtpPair l n token position hidden).Faults (· = .invalid) :=
  Faults.bind (faults_require fun h => absurd (hactive.symm.trans h) Bool.noConfusion) fun _ =>
    faults_invalid.bind fun _ => faults_modify _

theorem faults_mtpDraftGreedy (hactive : l.mtpActive = true) :
    (mtpDraftGreedy l n token position).Faults (· = .invalid) := by
  refine (faults_require fun h => absurd (hactive.symm.trans h) Bool.noConfusion).bind fun _ =>
    faults_state.bind fun s => faults_invalid.bind fun _ => Faults.bind ?_ fun _ =>
      faults_state.bind fun _ => faults_pure _
  refine faults_state.bind fun s => Faults.ite (fun _ => ?_) fun _ => faults_mtpPair hactive
  exact faults_invalid.bind fun _ => faults_modify _

theorem faults_mtpCatchupCuda {tokens : List Token} {hidden : List H} :
    (mtpCatchupCuda l n tokens position hidden).Faults (· = .invalid) :=
  faults_invalid.bind fun _ => faults_modify _

/-- An acceptance is not refused. -/
theorem faults_acceptSampled {drafts : List Token} {accepted : ℕ} :
    (acceptSampled l n drafts position accepted).Faults (· = .invalid) := by
  refine faults_invalid.bind fun _ => (faults_modify _).bind fun _ => Faults.bind ?_ fun _ =>
    (faults_modify _).bind fun _ => ?_
  · exact Faults.ite (fun _ => faults_modify _) fun _ =>
      Faults.ite (fun _ => faults_modify _) fun _ => faults_pure _
  · exact Faults.ite (fun _ => (faults_modify _).bind fun _ => faults_state.bind fun _ =>
      Faults.ite (fun _ => faults_mtpCatchupCuda) fun _ => faults_pure _) fun _ => faults_pure _

/-- A verification batch that is supported is refused only without the embedding or the output projection. -/
theorem faults_forwardBatchVerify {tokens : List Token} (hbatch : l.batchSupported tokens.length = true) :
    (forwardBatchVerify l n tokens position false).Faults fun e =>
      e = .unsupported → ¬ (l.embeddingResident = true ∧ l.outputResident = true) := by
  have hrows : (batchRows l n tokens position).Faults fun e =>
      e = .unsupported → ¬ (l.embeddingResident = true ∧ l.outputResident = true) :=
    (faults_require fun h => absurd (hbatch.symm.trans h) Bool.noConfusion).bind fun _ =>
      faults_invalid'.bind fun _ =>
        faults_invalid'.bind fun _ =>
          (faults_require fun h _ hboth => absurd (hboth.1.symm.trans h) Bool.noConfusion).bind fun _ =>
            faults_state.bind fun _ => (faults_modify _).bind fun _ => faults_pure _
  refine faults_invalid'.bind fun _ => hrows.bind fun _ =>
    (faults_require fun h _ hboth => absurd (hboth.2.symm.trans h) Bool.noConfusion).bind fun _ =>
      Faults.bind ?_ fun _ => faults_pure _
  exact Faults.ite (fun _ => faults_invalid'.bind fun _ => faults_modify _)
    fun _ => faults_modify _

/-- A verification batch that returns had the embedding and the output projection. -/
theorem resident_of_verify {tokens : List Token} {sampled : Bool} {rows : List L}
    (h : forwardBatchVerify l n tokens position sampled s = (.ok rows, s')) :
    l.embeddingResident = true ∧ l.outputResident = true := by
  have hends : (forwardBatchVerify l n tokens position sampled).Ends s
      (fun _ _ => l.embeddingResident = true ∧ l.outputResident = true) fun _ => True := by
    simp only [forwardBatchVerify, batchRows, keepRows, ends_bind, ends_require, ends_state, ends_modify,
      ends_pure, ends_ite]
    tauto
  exact hends.of_ok h

/-- Where a step of one token is refused, the layout does not run it. -/
theorem faults_forwardGreedy {useMtp save computeLogits : Bool} :
    (forwardGreedy l n token position useMtp save computeLogits).Faults fun e =>
      e = .unsupported → ¬ l.RunsScalar := by
  refine Faults.ite (fun hbatch => ?_) fun _ => ?_
  · simp only [Bool.and_eq_true] at hbatch
    obtain ⟨⟨-, hbatch⟩, hallocated⟩ := hbatch
    have hpair : (pairGreedy l n token position useMtp).Faults fun e => e = .unsupported → ¬ l.RunsScalar := by
      refine faults_state.bind fun _ => Faults.ite (fun h => ?_) fun _ => faults_pure _
      simp only [Bool.and_eq_true] at h
      exact fun s e s' he => not_unsupported (faults_mtpPair h.1.1 s e s' he)
    refine hpair.bind fun _ => Faults.bind (fun s e s' he hun hruns => ?_) fun _ => Faults.bind ?_ fun _ => faults_pure _
    · exact faults_forwardBatchVerify hbatch s e s' he hun (hruns hbatch hallocated)
    · exact Faults.ite (fun _ => faults_modify _) fun _ => faults_pure _
  · refine Faults.bind (Faults.bind faults_invalid' fun _ => Faults.bind ?_ fun _ =>
      faults_state.bind fun _ => (faults_modify _).bind fun _ => Faults.bind ?_ fun _ => faults_pure _)
      fun _ => faults_pure _
    · refine faults_state.bind fun s => Faults.ite (fun h => ?_) fun _ => faults_pure _
      simp only [Bool.and_eq_true] at h
      refine Faults.ite (fun _ => faults_invalid') fun _ =>
        faults_invalid'.bind fun _ => ?_
      exact fun s e s' he => not_unsupported (faults_mtpPair h.1 s e s' he)
    · exact Faults.ite (fun _ => Faults.ite (fun _ => faults_modify _) fun _ => faults_pure _) fun _ =>
        Faults.ite (fun _ => faults_modify _) fun _ => faults_pure _

/-- A step of one token that returns is one that the layout runs. -/
theorem runsScalar_of_forwardGreedy {useMtp save computeLogits : Bool} {next : Option Token}
    (h : forwardGreedy l n token position useMtp save computeLogits s = (.ok next, s')) : l.RunsScalar := by
  intro hbatch hallocated
  rw [forwardGreedy, if_pos (by rw [Layout.pipeline_of_batchSupported hbatch, hbatch, hallocated]; rfl)] at h
  obtain ⟨_, s₁, -, h⟩ := run_bind_eq_ok.mp h
  obtain ⟨rows, s₂, h, -⟩ := run_bind_eq_ok.mp h
  exact resident_of_verify h

/-! ### The branches -/

variable (l n) in
/-- What follows a verification in three rows. -/
def acceptThree (position : ℕ) (drafts picked : List Token) : Call T H D (List Token) :=
  match drafts, picked with
  | [first, second], [v₁, v₂, v₃] =>
    if first ≠ v₁ then do
      acceptSampled l n drafts position 0
      pure [v₁]
    else if second ≠ v₂ then do
      acceptSampled l n drafts position 1
      pure [first, v₂]
    else do
      acceptSampled l n drafts position 2
      pure [first, second, v₃]
  | _, _ => fail .invalid

theorem threeRows_eq : threeRows l n token position =
    verifyThree l n token position false >>= fun r => acceptThree l n position r.1 (r.2.map n.argmax) := rfl

theorem faults_acceptThree {drafts picked : List Token} :
    (acceptThree l n position drafts picked).Faults (· = .invalid) := by
  have haccept (accepted : ℕ) (tokens : List Token) :
      (do acceptSampled l n drafts position accepted; pure tokens : Call T H D (List Token)).Faults (· = .invalid) :=
    faults_acceptSampled.bind fun _ => faults_pure _
  unfold acceptThree
  split
  · exact Faults.ite (fun _ => haccept _ _) fun _ => Faults.ite (fun _ => haccept _ _) fun _ => haccept _ _
  · exact faults_fail rfl

/-- All tokens but the last one are accepted drafts. -/
theorem acceptThree_of_ok {drafts picked tokens : List Token}
    (h : acceptThree l n position drafts picked s = (.ok tokens, s')) :
    (judge drafts picked).verified = 2 ∧ tokens.length = (judge drafts picked).matched + 1 := by
  have haccept (accepted : ℕ) (tokens' : List Token)
      (h : (do acceptSampled l n drafts position accepted; pure tokens' : Call T H D (List Token)) s =
        (.ok tokens, s')) : tokens = tokens' := by
    obtain ⟨_, _, -, h⟩ := run_bind_eq_ok.mp h
    cases h
    rfl
  unfold acceptThree at h
  split at h
  · rw [run_ite, run_ite] at h
    split_ifs at h with hfirst hsecond
    · simp [haccept _ _ h, judge, hfirst]
    · simp [haccept _ _ h, judge, not_not.mp hfirst, hsecond]
    · simp [haccept _ _ h, judge, not_not.mp hfirst, not_not.mp hsecond]
  · cases h

/-- Two drafts: all tokens but the last one were accepted. -/
theorem judgeThree_of_ok {tokens : List Token} (h : threeRows l n token position s = (.ok tokens, s')) :
    ∃ j s₁, judgeThree l n token position s = (.ok j, s₁) ∧ j.verified = 2 ∧ tokens.length = j.matched + 1 := by
  rw [threeRows_eq] at h
  obtain ⟨⟨drafts, rows⟩, s₁, hverify, h⟩ := run_bind_eq_ok.mp h
  exact ⟨_, s₁, run_bind_eq_ok.mpr ⟨_, _, hverify, rfl⟩, acceptThree_of_ok h⟩

theorem judgeThree_of_unsupported (h : threeRows l n token position s = (.error .unsupported, s')) :
    ∀ j s₁, judgeThree l n token position s ≠ (.ok j, s₁) := by
  intro j s₁ hj
  obtain ⟨r, s₂, hverify, -⟩ := run_bind_eq_ok.mp hj
  rw [threeRows_eq] at h
  rcases run_bind_eq_error.mp h with h | ⟨r', s₃, -, h⟩
  · rw [hverify] at h
    cases h
  · cases faults_acceptThree _ _ _ h

variable (l n) in
/-- What follows a verification in two rows. -/
def acceptTwo (position : ℕ) (draft : Token) (picked : List Token) : Call T H D (List Token) :=
  match picked with
  | [v₁, v₂] =>
    if draft = v₁ then do
      modify fun s => { s with pendingHidden := s.verifyHidden 1, lastTargetPosition := position + 1 }
      let s ← state
      mtpPair l n draft (position + 1) (s.verifyHidden 0)
      pure [draft, v₂]
    else do
      modify fun s => { s with
        target := n.target.restoreFirst s.target
        pendingHidden := s.verifyHidden 0
        lastTargetPosition := position }
      pure [v₁]
  | _ => fail .invalid

variable (l n) in
/-- The verification in two rows, with its draft. -/
def verifyTwo (token : Token) (position : ℕ) : Call T H D (Token × List L) := do
  let draft ← mtpDraftGreedy l n token position
  let rows ← forwardBatchVerify l n [token, draft] position false
  pure (draft, rows)

theorem twoRows_eq : twoRows l n token position =
    verifyTwo l n token position >>= fun r => acceptTwo l n position r.1 (r.2.map n.argmax) := by
  simp only [verifyTwo, bind_assoc, pure_bind]
  rfl

theorem judgeTwo_eq : judgeTwo l n token position =
    verifyTwo l n token position >>= fun r => pure (judge [r.1] (r.2.map n.argmax)) := by
  simp only [verifyTwo, bind_assoc, pure_bind]
  rfl

theorem faults_acceptTwo {draft : Token} {picked : List Token} (hactive : l.mtpActive = true) :
    (acceptTwo l n position draft picked).Faults (· = .invalid) := by
  unfold acceptTwo
  split
  · exact Faults.ite (fun _ => (faults_modify _).bind fun _ => faults_state.bind fun _ =>
      (faults_mtpPair hactive).bind fun _ => faults_pure _) fun _ => (faults_modify _).bind fun _ => faults_pure _
  · exact faults_fail rfl

theorem judgeTwo_of_ok {tokens : List Token} (h : twoRows l n token position s = (.ok tokens, s')) :
    l.RunsScalar ∧ ∃ j s₁, judgeTwo l n token position s = (.ok j, s₁) ∧ j.verified ≤ 1 := by
  rw [twoRows_eq] at h
  obtain ⟨⟨draft, rows⟩, s₁, hverify, -⟩ := run_bind_eq_ok.mp h
  refine ⟨fun _ _ => ?_, _, s₁, ?_, judge_verified_le [draft] (rows.map n.argmax)⟩
  · obtain ⟨draft, s₂, -, hverify⟩ := run_bind_eq_ok.mp hverify
    obtain ⟨rows, s₃, hverify, -⟩ := run_bind_eq_ok.mp hverify
    exact resident_of_verify hverify
  · rw [judgeTwo_eq]
    exact run_bind_eq_ok.mpr ⟨_, _, hverify, rfl⟩

theorem judgeTwo_of_unsupported (hactive : l.mtpActive = true) (hbatch : l.batchSupported 2 = true)
    (h : twoRows l n token position s = (.error .unsupported, s')) :
    ¬ l.RunsScalar ∧ ∀ j s₁, judgeTwo l n token position s ≠ (.ok j, s₁) := by
  have hone : l.batchSupported 1 = true := Layout.batchSupported_of_le hbatch Nat.one_pos (by decide) (by decide)
  rw [twoRows_eq] at h
  rcases run_bind_eq_error.mp h with h | ⟨r, s₁, -, h⟩
  · refine ⟨fun hruns => ?_, fun j s₂ hj => ?_⟩
    · have hresident := hruns hone (l.allocated_of_active hactive)
      rcases run_bind_eq_error.mp h with h | ⟨draft, s₁, -, h⟩
      · cases faults_mtpDraftGreedy hactive _ _ _ h
      rcases run_bind_eq_error.mp h with h | ⟨rows, s₁, -, h⟩
      · exact faults_forwardBatchVerify hbatch _ _ _ h rfl hresident
      · cases h
    · rw [judgeTwo_eq] at hj
      obtain ⟨r, s₃, hverify, -⟩ := run_bind_eq_ok.mp hj
      rw [h] at hverify
      cases hverify
  · cases faults_acceptTwo hactive _ _ _ h

theorem judgeScalars_of_ok {tokens : List Token} (h : twoScalars l n token position s = (.ok tokens, s')) :
    l.RunsScalar ∧ ∃ j s₁, judgeScalars l n token position s = (.ok j, s₁) ∧ j.verified ≤ 1 := by
  obtain ⟨next, s₁, hnext, h⟩ := run_bind_eq_ok.mp h
  refine ⟨runsScalar_of_forwardGreedy hnext, ?_⟩
  cases next with
  | none => cases h
  | some first =>
    obtain ⟨draft, s₂, hdraft, h⟩ := run_bind_eq_ok.mp h
    obtain ⟨second, s₃, hsecond, -⟩ := run_bind_eq_ok.mp h
    exact ⟨_, s₃, run_bind_eq_ok.mpr ⟨_, _, hnext, run_bind_eq_ok.mpr ⟨_, _, hdraft,
      run_bind_eq_ok.mpr ⟨_, _, hsecond, rfl⟩⟩⟩, judge_verified_le _ _⟩

theorem judgeScalars_of_unsupported (hactive : l.mtpActive = true)
    (h : twoScalars l n token position s = (.error .unsupported, s')) :
    ¬ l.RunsScalar ∧ ∀ j s₁, judgeScalars l n token position s ≠ (.ok j, s₁) := by
  rcases run_bind_eq_error.mp h with h | ⟨next, s₁, hnext, h⟩
  · refine ⟨faults_forwardGreedy _ _ _ h rfl, fun j s₂ hj => ?_⟩
    obtain ⟨next, s₃, hnext, -⟩ := run_bind_eq_ok.mp hj
    rw [h] at hnext
    cases hnext
  -- behind the first token the layout is known to run the second one
  have hruns := runsScalar_of_forwardGreedy hnext
  cases next with
  | none => cases h
  | some first =>
    rcases run_bind_eq_error.mp h with h | ⟨draft, s₂, hdraft, h⟩
    · cases faults_mtpDraftGreedy hactive _ _ _ h
    rcases run_bind_eq_error.mp h with h | ⟨second, s₃, hsecond, h⟩
    · exact absurd hruns (faults_forwardGreedy _ _ _ h rfl)
    · cases second with
      | none => cases h
      | some second => cases h

/-! ### All branches -/

/-- A round that returns: with two drafts its tokens are the accepted ones and one more; any other round has
at most one draft. -/
theorem judgeGreedy_of_ok {size : ℕ} (hsize : 3 ≤ size) {tokens : List Token}
    (h : forwardGreedySpeculative l n size token position s = (.ok tokens, s')) :
    ∃ j s₁, judgeGreedy l n size token position s = (.ok j, s₁) ∧
      (l.DraftsTwo position → j.verified = 2 ∧ tokens.length = j.matched + 1) ∧
      (¬ l.DraftsTwo position → l.RunsScalar ∧ j.verified ≤ 1) := by
  have hthree : 3 ≤ (if size ≤ 32 then size else 32) := (le_capacity_iff (by decide)).mpr hsize
  unfold forwardGreedySpeculative at h
  unfold judgeGreedy
  generalize (if size ≤ 32 then size else 32) = capacity at hthree h ⊢
  split_ifs at h ⊢ with hzero hbranch hbranch' hbranch''
  · cases h
  · obtain ⟨hactive, hlimit, -, hcontext, hbatch⟩ := hbranch
    obtain ⟨j, s₁, hj, hverified⟩ := judgeThree_of_ok h
    exact ⟨j, s₁, hj, fun _ => hverified, fun hno => absurd ⟨hactive, hlimit, hcontext, hbatch⟩ hno⟩
  all_goals
    have hno : ¬ l.DraftsTwo position := fun hyes =>
      hbranch ⟨hyes.1, hyes.2.1, hthree, hyes.2.2.1, hyes.2.2.2⟩
  · obtain ⟨hruns, j, s₁, hj, hverified⟩ := judgeTwo_of_ok h
    exact ⟨j, s₁, hj, fun hyes => absurd hyes hno, fun _ => ⟨hruns, hverified⟩⟩
  · obtain ⟨hruns, j, s₁, hj, hverified⟩ := judgeScalars_of_ok h
    exact ⟨j, s₁, hj, fun hyes => absurd hyes hno, fun _ => ⟨hruns, hverified⟩⟩
  · obtain ⟨next, s₁, hnext, -⟩ := run_bind_eq_ok.mp h
    exact ⟨.none, s, rfl, fun hyes => absurd hyes hno,
      fun _ => ⟨runsScalar_of_forwardGreedy hnext, Nat.zero_le _⟩⟩

/-- Where a round is refused, no draft was verified. -/
theorem judgeGreedy_of_unsupported {size : ℕ} (hsize : 3 ≤ size)
    (h : forwardGreedySpeculative l n size token position s = (.error .unsupported, s')) :
    (¬ l.DraftsTwo position → ¬ l.RunsScalar) ∧
      ∀ j s₁, judgeGreedy l n size token position s = (.ok j, s₁) → j = .none := by
  have hthree : 3 ≤ (if size ≤ 32 then size else 32) := (le_capacity_iff (by decide)).mpr hsize
  unfold forwardGreedySpeculative at h
  unfold judgeGreedy
  generalize (if size ≤ 32 then size else 32) = capacity at hthree h ⊢
  split_ifs at h ⊢ with hzero hbranch hbranch' hbranch''
  · cases h
  · obtain ⟨hactive, hlimit, -, hcontext, hbatch⟩ := hbranch
    exact ⟨fun hno => absurd ⟨hactive, hlimit, hcontext, hbatch⟩ hno,
      fun j s₁ hj => absurd hj (judgeThree_of_unsupported h j s₁)⟩
  · obtain ⟨hruns, hnone⟩ := judgeTwo_of_unsupported hbranch'.1 hbranch'.2.2.2.2 h
    exact ⟨fun _ => hruns, fun j s₁ hj => absurd hj (hnone j s₁)⟩
  · obtain ⟨hruns, hnone⟩ := judgeScalars_of_unsupported hbranch''.1 h
    exact ⟨fun _ => hruns, fun j s₁ hj => absurd hj (hnone j s₁)⟩
  · refine ⟨fun _ => ?_, fun j s₁ hj => by cases hj; rfl⟩
    rcases run_bind_eq_error.mp h with h | ⟨next, s₁, -, h⟩
    · exact faults_forwardGreedy _ _ _ h rfl
    · cases next with
      | none => cases h
      | some first => cases h

end Qwen35

end FortAI
