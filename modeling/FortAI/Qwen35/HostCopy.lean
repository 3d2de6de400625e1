import FortAI.Qwen35.Pending

/-!
# The row on the host

A draft head that follows the target token by token (`mtp_pair`) reads the row that is kept on the host, also
where it is on a device itself.  The rounds of a draft head on a device keep their row there only.

* `HostAligned` : the row on the host is that of the last position.
* `Request.KeepsHost` : the requests that keep it right.
* `hostAligned_of_keepsHost` : so it is in every run of such requests.
* `pair_of_hostAligned` : what the draft head is paired with then.
-/

namespace FortAI

namespace Qwen35

open Procedure

variable {T H D L : Type}

/-- The row on the host is that of the last position, behind the output norm. -/
def HostAligned (n : Networks T H D L) (row : List Token → H) (s : State Positions H D) : Prop :=
  RightCopy (fun host _ => host) n row s

/-- A request keeps the row right, with the last position in front of it: what is saved is saved on the host, and
drafts are verified in rows there only. -/
def Request.KeepsHost (l : Layout) (last : ℤ) : Request → Prop
  | .reset => True
  | .forward _ position useMtp save computeLogits => l.KeepsBodyWhere True last position useMtp save computeLogits
  | .forwardGreedy _ position useMtp save computeLogits =>
    l.KeepsGreedyWhere True last position useMtp save computeLogits
  | .forwardBatch _ position computeLogits updateMtp =>
    -- the row is downloaded with the logits
    if l.mtpActive = true ∧ updateMtp = true ∧ l.mtpSlot.isSome = true then computeLogits = true
    else last < position
  | .speculative size _ position => l.KeepsRoundWhere (l.mtpSlot = none) True last size position
  | .prepare _ _ _ => True
  | .prepareTopk _ _ _ => True
  | .accept _ _ _ => False

/-! ### The calls -/

variable {l : Layout} {n : Networks T H D L} {row : List Token → H} {s : State Positions H D} {token position : ℕ}

/-- Without a device for the draft head there is one row only. -/
theorem hostAligned_iff_aligned (hslot : l.mtpSlot = none) : HostAligned n row s ↔ Aligned l n row s := by
  rw [Aligned, consumedHidden_host hslot]
  rfl

section

variable (h : HostAligned n row s)

include h

theorem ends_forwardBatch_host {tokens : List Token} {computeLogits updateMtp : Bool}
    (hkeeps : if l.mtpActive = true ∧ updateMtp = true ∧ l.mtpSlot.isSome = true then computeLogits = true
      else s.lastTargetPosition < position) :
    (forwardBatch l (n.byRow row) tokens position computeLogits updateMtp).Ends s
      (fun _ s' => HostAligned n row s') (HostAligned n row) := by
  refine ends_forwardBatch (fun hcatches => ?_) h
  split_ifs at hkeeps with hupdate
  · refine ends_updateBatch hcatches (fun _ draft => ?_) (fun hslot => ?_) fun hidle => ?_
    · obtain ⟨count, hcount⟩ : ∃ count, tokens.length = count + 1 :=
        Nat.exists_eq_succ_of_ne_zero hcatches.length_pos.ne'
      have hlast : ((position : ℤ) + tokens.length - 1) = ((position + count : ℕ) : ℤ) := by
        omega
      refine rightCopy_saved (position + count) hlast ?_
      rw [if_pos hkeeps]
      exact getLastD_rows n s.target tokens s.cudaPendingHidden hcount
    · rw [hslot] at hupdate
      cases hupdate.2.2
    · exact absurd ⟨hupdate.1, hupdate.2.1⟩ hidle
  · by_cases hactive : l.mtpActive = true ∧ updateMtp = true
    · have hslot : l.mtpSlot.isSome = false := Bool.eq_false_iff.mpr fun hsome => hupdate ⟨hactive.1, hactive.2, hsome⟩
      exact ends_updateBatch hcatches (fun hsome => by rw [hslot] at hsome; cases hsome)
        (fun _ => h.behind hkeeps rfl rfl rfl) fun hidle => absurd hactive hidle
    · rw [updateBatch, if_neg (by rwa [Bool.and_eq_true]), ends_pure]
      exact h.behind hkeeps rfl rfl rfl

theorem ends_threeRows_host (hslot : l.mtpSlot = none) : (threeRows l (n.byRow row) token position).Ends s
    (fun _ s' => HostAligned n row s') (HostAligned n row) :=
  (ends_threeRows_aligned ((hostAligned_iff_aligned hslot).mp h)).mono
    (fun _ _ => (hostAligned_iff_aligned hslot).mpr) fun _ => (hostAligned_iff_aligned hslot).mpr

theorem ends_twoRows_host (hslot : l.mtpSlot = none) : (twoRows l (n.byRow row) token position).Ends s
    (fun _ s' => HostAligned n row s') (HostAligned n row) :=
  (ends_twoRows_aligned ((hostAligned_iff_aligned hslot).mp h) hslot).mono
    (fun _ _ => (hostAligned_iff_aligned hslot).mpr) fun _ => (hostAligned_iff_aligned hslot).mpr

/-- A round that is prepared stands behind the last position, that stays where it is. -/
theorem ends_verifyThree_host : (verifyThree l (n.byRow row) token position true).Ends s
    (fun _ s' => HostAligned n row s') (HostAligned n row) :=
  ends_verifyThree (fun _ hposition _ _ _ _ _ => h.behind (by omega) rfl rfl rfl) (fun _ => h)
    fun hposition _ _ _ => h.behind (by omega) rfl rfl rfl

end

/-! ### The runs -/

/-- A request that keeps the row right. -/
theorem hostAligned_step {s : Session Positions H D} {request : Request} (h : HostAligned n row s.state)
    (hkeeps : request.KeepsHost l s.state.lastTargetPosition) :
    HostAligned n row ((engine l (n.byRow row)).step s request).2.state := by
  apply step_of_ends (P := fun s => HostAligned n row s.state)
  cases request with
  | reset =>
    simp only [Request.call, Qwen35.reset, ends_bind, ends_modify, ends_pure]
    intro position hlast
    have hlast : (-1 : ℤ) = position := hlast
    omega
  | accept drafts position accepted => exact hkeeps.elim
  | forward token position useMtp save computeLogits =>
    simp only [Request.call, ends_bind, ends_pure]
    exact ends_forwardBody_copy h (fun _ _ _ => rfl) hkeeps
  | forwardGreedy token position useMtp save computeLogits =>
    simp only [Request.call, ends_bind, ends_pure]
    exact (ends_forwardGreedy_copy h (fun _ _ _ => rfl) (fun _ => trivial) hkeeps).mono (fun _ _ h => h.1) fun _ h => h
  | forwardBatch tokens position computeLogits updateMtp =>
    simp only [Request.call, ends_bind, ends_pure]
    exact ends_forwardBatch_host h hkeeps
  | speculative size token position =>
    simp only [Request.call, ends_bind, ends_pure]
    exact ends_speculative_copy h (fun _ _ _ => rfl) (fun _ => trivial) (ends_threeRows_host h)
      (ends_twoRows_host h) hkeeps
  | prepare w token position =>
    simp only [Request.call, prepareSampled, ends_bind, ends_require, ends_pure]
    exact ⟨fun _ => ends_verifyThree_host h, fun _ => h⟩
  | prepareTopk w token position =>
    simp only [Request.call, prepareSampledTopk, ends_bind, ends_require, ends_pure]
    exact ⟨fun _ => ⟨fun _ => ⟨fun _ => ends_verifyThree_host h, fun _ => h⟩, fun _ => h⟩, fun _ => h⟩

/-- **The row on the host is right** in every run of requests that keep it, wherever the draft head is. -/
theorem hostAligned_of_keepsHost (l : Layout) (n : Networks T H D L) (row : List Token → H)
    (s : State Positions H D) (hs : s.lastTargetPosition = -1) (requests : List Request)
    (hkeeps : (engine l (n.byRow row)).Along (fun s request => request.KeepsHost l s.state.lastTargetPosition)
      ⟨s, none⟩ requests) :
    HostAligned n row ((engine l (n.byRow row)).after ⟨s, none⟩ requests).state := by
  have hstart : HostAligned n row s := by
    intro position hlast
    rw [hs] at hlast
    omega
  exact System.invariant_along (I := fun s : Session Positions H D => HostAligned n row s.state)
    (fun _ _ => hostAligned_step) requests ⟨s, none⟩ hstart hkeeps

/-- A prompt on a device, in a batch with its logits, and a round behind it that is not accepted yet. -/
example : HostAligned lengths List.length ((engine (onDevice (some .first) true) lengths).after ⟨settledStart, none⟩
    [.forwardBatch [0] 0 true true, .prepare ⟨2, 3⟩ 0 1]).state :=
  hostAligned_of_keepsHost (onDevice (some .first) true) lengths List.length settledStart rfl _
    ⟨rfl, trivial, trivial⟩

/-- Where the row is right, a token behind the last position is paired with the row in front of it. -/
theorem pair_of_hostAligned (h : HostAligned n row s) (hactive : l.mtpActive = true)
    (hlast : s.lastTargetPosition = position) :
    pairBody l (n.byRow row) token (position + 1) true s =
        mtpPair l (n.byRow row) token (position + 1) (n.outputNorm (row (s.target.upTo position))) s ∧
      pairGreedy l (n.byRow row) token (position + 1) true s =
        mtpPair l (n.byRow row) token (position + 1) (n.outputNorm (row (s.target.upTo position))) s := by
  have hrow := h position hlast
  constructor
  · simp [pairBody, hactive, hlast, hrow]
  · simp [pairGreedy, hactive, hrow]

end Qwen35

end FortAI
