import FortAI.Machine.System
import FortAI.Qwen35.Steps

/-!
# The row in front of the draft head

The draft head starts from the row of the target at the last position.  That row is kept on the host and,
for a draft head on a device, there; the calls that write it do not all write both, and some of them write
what is not behind the output norm.

* `rowTarget` : a target whose row is a function of the tokens up to it.
* `Aligned` : the kept row is that of the last position.
* `Session`, `engine` : the requests of a caller one after the other.
* `Request.Keeps` : the requests that keep the right row.
* `aligned_of_keeps` : so it is in every run of such requests.
-/

namespace FortAI

namespace Qwen35

open Procedure

variable {T H D L : Type}

/-! ### Rows of tokens -/

/-- The tokens at the positions of the caches, and how many were consumed. -/
structure Positions where
  token : ℕ → Token
  consumed : ℕ

/-- The tokens up to a position. -/
def Positions.upTo (t : Positions) (position : ℕ) : List Token := (List.range (position + 1)).map t.token

/-- Tokens are written over those at a position and behind it. -/
def Positions.write (t : Positions) (position : ℕ) (tokens : List Token) : Positions where
  token q := if position ≤ q then tokens.getD (q - position) (t.token q) else t.token q
  consumed := t.consumed + tokens.length

/-- The target whose row is this function of the tokens up to its position. -/
def rowTarget (row : List Token → H) : Target Positions H where
  cleared := ⟨fun _ => 0, 0⟩
  batch t position tokens := (t.write position tokens,
    (List.range tokens.length).map fun j => row ((t.write position tokens).upTo (position + j)))
  scalar t position token := (t.write position [token], row ((t.write position [token]).upTo position))
  restoreFirst := id
  restoreSecond := id
  consumed := Positions.consumed
  length_batch := fun _ _ tokens => by rw [List.length_map, List.length_range]
  consumed_batch := fun _ _ _ => rfl

/-- The row that the draft head starts from is that of the last position, behind the output norm. -/
def Aligned (l : Layout) (n : Networks T H D L) (row : List Token → H) (s : State Positions H D) : Prop :=
  ∀ position : ℕ, s.lastTargetPosition = position →
    s.consumedHidden l = n.outputNorm (row (s.target.upTo position))

/-! ### Runs -/

/-- The requests of a caller. -/
inductive Request
  | reset
  | forward (token position : ℕ) (useMtp saveMtpHidden computeLogits : Bool)
  | forwardGreedy (token position : ℕ) (useMtp saveMtpHidden computeLogits : Bool)
  | forwardBatch (tokens : List Token) (position : ℕ) (computeLogits updateMtp : Bool)
  | speculative (size token position : ℕ)
  | prepare (w : Workspace) (token position : ℕ)
  | prepareTopk (w : TopkWorkspace) (token position : ℕ)
  | accept (drafts : List Token) (position accepted : ℕ)

variable (l : Layout) (n : Networks T H D L)

/-- The call of a request, and the position of a round that it prepares. -/
def Request.call : Request → Call T H D (Option ℕ)
  | .reset => do
    Qwen35.reset l n
    pure none
  | .forward token position useMtp saveMtpHidden computeLogits => do
    let _ ← forwardBody l n token position useMtp saveMtpHidden computeLogits
    pure none
  | .forwardGreedy token position useMtp saveMtpHidden computeLogits => do
    let _ ← Qwen35.forwardGreedy l n token position useMtp saveMtpHidden computeLogits
    pure none
  | .forwardBatch tokens position computeLogits updateMtp => do
    let _ ← Qwen35.forwardBatch l n tokens position computeLogits updateMtp
    pure none
  | .speculative size token position => do
    let _ ← forwardGreedySpeculative l n size token position
    pure none
  | .prepare w token position => do
    let _ ← prepareSampled l n w token position
    pure (some position)
  | .prepareTopk w token position => do
    let _ ← prepareSampledTopk l n w token position
    pure (some position)
  | .accept drafts position accepted => do
    acceptSampled l n drafts position accepted
    pure none

/-- The engine between two requests, and the position of a round that is prepared and not yet accepted. -/
structure Session (T H D : Type) where
  state : State T H D
  prepared : Option ℕ

/-- The engine answers a request; a call that fails prepares nothing. -/
def engine : System (Session T H D) Request Unit where
  step s request :=
    match request.call l n s.state with
    | (.ok prepared, state) => ((), ⟨state, prepared⟩)
    | (.error _, state) => ((), ⟨state, none⟩)

/-! ### The requests that keep the row -/

/-- `forward_body` keeps the row right: it saves it on the host, where the draft head is too, or it goes on
behind the last position. -/
def Layout.KeepsBody (l : Layout) (last : ℤ) (position : ℕ) (useMtp saveMtpHidden computeLogits : Bool) : Prop :=
  if l.saves saveMtpHidden computeLogits then l.mtpSlot = none ∧ l.pipeline = false
  else l.mtpActive = true ∧ useMtp = true ∨ last < position

/-- `forward_greedy` does: a batch of one row saves it on the host. -/
def Layout.KeepsGreedy (l : Layout) (last : ℤ) (position : ℕ) (useMtp saveMtpHidden computeLogits : Bool) :
    Prop :=
  if l.batchesOne then
    if l.mtpActive = true ∧ saveMtpHidden = true then l.mtpSlot = none ∧ (last < position ∨ l.Verifies)
    else last < position
  else l.KeepsBody last position useMtp saveMtpHidden computeLogits

/-- A round of `forward_greedy_speculative` does: with two drafts always, with one on the host. -/
def Layout.KeepsRound (l : Layout) (last : ℤ) (size position : ℕ) : Prop :=
  if size = 0 then True
  else if l.mtpActive = true ∧ 2 ≤ l.mtpLimit ∧ 3 ≤ size ∧ position + 2 < l.maxContext ∧
      l.batchSupported 3 = true then True
  else if l.mtpActive = true ∧ 2 ≤ l.mtpLimit ∧ 2 ≤ size ∧ position + 1 < l.maxContext ∧
      l.batchSupported 2 = true then l.mtpSlot = none
  else l.KeepsGreedy last position true true true

/-- A request keeps the row right.  A round that is prepared is accepted next, or all is reset. -/
def Request.Keeps (l : Layout) (s : Session T H D) (request : Request) : Prop :=
  match s.prepared, request with
  | _, .reset => True
  | some prepared, .accept drafts position accepted =>
    position = prepared ∧ 2 ≤ drafts.length ∧ accepted ≤ 2
  | some _, _ => False
  | none, .accept _ _ _ => False
  | none, .forward _ position useMtp save computeLogits =>
    l.KeepsBody s.state.lastTargetPosition position useMtp save computeLogits
  | none, .forwardGreedy _ position useMtp save computeLogits =>
    l.KeepsGreedy s.state.lastTargetPosition position useMtp save computeLogits
  | none, .forwardBatch _ position _ updateMtp =>
    s.state.lastTargetPosition < position ∨
      l.mtpActive = true ∧ updateMtp = true ∧ l.mtpSlot.isSome = true
  | none, .speculative size _ position => l.KeepsRound s.state.lastTargetPosition size position
  | none, .prepare _ _ _ => True
  | none, .prepareTopk _ _ _ => True

/-! ### Kept rows -/

variable {l : Layout} {n : Networks T H D L} {row : List Token → H} {s : State Positions H D} {position : ℕ}

theorem upTo_write {t : Positions} {position' : ℕ} (h : position' < position) (tokens : List Token) :
    (t.write position tokens).upTo position' = t.upTo position' := by
  refine List.map_congr_left fun q hq => ?_
  have hlt := List.mem_range.mp hq
  exact if_neg (by omega)

/-- A copy of the row, of that on the host and that on the device, is that of the last position. -/
def RightCopy (copy : H → H → H) (n : Networks T H D L) (row : List Token → H) (s : State Positions H D) : Prop :=
  ∀ position : ℕ, s.lastTargetPosition = position →
    copy s.pendingHidden s.cudaPendingHidden = n.outputNorm (row (s.target.upTo position))

/-- The copy that the draft head reads. -/
def Layout.consumed (l : Layout) (host device : H) : H := if l.mtpSlot.isSome then device else host

/-- `forward_body` keeps a copy right: it is `saved` with the one on the host, or the call goes on behind the last
position.  `KeepsBody` says this of the copy that the draft head reads. -/
def Layout.KeepsBodyWhere (l : Layout) (saved : Prop) (last : ℤ) (position : ℕ)
    (useMtp saveMtpHidden computeLogits : Bool) : Prop :=
  if l.saves saveMtpHidden computeLogits then saved ∧ l.pipeline = false
  else l.mtpActive = true ∧ useMtp = true ∨ last < position

/-- `forward_greedy` does. -/
def Layout.KeepsGreedyWhere (l : Layout) (saved : Prop) (last : ℤ) (position : ℕ)
    (useMtp saveMtpHidden computeLogits : Bool) : Prop :=
  if l.batchesOne then
    if l.mtpActive = true ∧ saveMtpHidden = true then l.mtpSlot = none ∧ (last < position ∨ l.Verifies)
    else last < position
  else l.KeepsBodyWhere saved last position useMtp saveMtpHidden computeLogits

/-- A round of `forward_greedy_speculative` does: with two drafts where `three` holds, with one on the host. -/
def Layout.KeepsRoundWhere (l : Layout) (three saved : Prop) (last : ℤ) (size position : ℕ) : Prop :=
  if size = 0 then True
  else if l.mtpActive = true ∧ 2 ≤ l.mtpLimit ∧ 3 ≤ size ∧ position + 2 < l.maxContext ∧
      l.batchSupported 3 = true then three
  else if l.mtpActive = true ∧ 2 ≤ l.mtpLimit ∧ 2 ≤ size ∧ position + 1 < l.maxContext ∧
      l.batchSupported 2 = true then l.mtpSlot = none
  else l.KeepsGreedyWhere saved last position true true true

/-- Behind one token that is kept right the next one is too. -/
theorem Layout.KeepsGreedyWhere.next {saved : Prop} {last : ℤ}
    (hkeeps : l.KeepsGreedyWhere saved last position true true true) (hactive : l.mtpActive = true) :
    l.KeepsGreedyWhere saved position (position + 1) true true true := by
  rw [Layout.KeepsGreedyWhere] at hkeeps ⊢
  split_ifs at hkeeps ⊢ with hone hsaves
  · exact ⟨hkeeps.1, .inl (by omega)⟩
  · exact absurd ⟨hactive, rfl⟩ hsaves
  · rw [Layout.KeepsBodyWhere] at hkeeps ⊢
    split_ifs at hkeeps ⊢ with hsaves
    · exact hkeeps
    · exact .inl ⟨hactive, rfl⟩

section
variable {copy : H → H → H} {s' : State Positions H D}

/-- The copy stays right where what is written stands behind the last position. -/
theorem RightCopy.behind (h : RightCopy copy n row s) {tokens : List Token}
    (hbehind : s.lastTargetPosition < position) (htarget : s'.target = s.target.write position tokens)
    (hlast : s'.lastTargetPosition = s.lastTargetPosition)
    (hcopy : copy s'.pendingHidden s'.cudaPendingHidden = copy s.pendingHidden s.cudaPendingHidden) :
    RightCopy copy n row s' := by
  intro last heq
  rw [hlast] at heq
  rw [hcopy, htarget, upTo_write (by omega), h last heq]

/-- A row that is saved for its position. -/
theorem rightCopy_saved (position : ℕ) (hlast : s'.lastTargetPosition = (position : ℤ))
    (hrow : copy s'.pendingHidden s'.cudaPendingHidden = n.outputNorm (row (s'.target.upTo position))) :
    RightCopy copy n row s' := by
  intro last heq
  rw [hlast] at heq
  rw [hrow, Nat.cast_inj.mp heq]

end

theorem Aligned.rightCopy (h : Aligned l n row s) : RightCopy l.consumed n row s := h

theorem Aligned.behind {s' : State Positions H D} (h : Aligned l n row s) {tokens : List Token}
    (hbehind : s.lastTargetPosition < position) (htarget : s'.target = s.target.write position tokens)
    (hlast : s'.lastTargetPosition = s.lastTargetPosition) (hhidden : s'.consumedHidden l = s.consumedHidden l) :
    Aligned l n row s' :=
  h.rightCopy.behind hbehind htarget hlast hhidden

theorem aligned_saved {s' : State Positions H D} (position : ℕ) (hlast : s'.lastTargetPosition = (position : ℤ))
    (hrow : s'.consumedHidden l = n.outputNorm (row (s'.target.upTo position))) : Aligned l n row s' := by
  have h : RightCopy l.consumed n row s' := rightCopy_saved position hlast hrow
  exact h

theorem consumedHidden_host (hslot : l.mtpSlot = none) (s : State T H D) : s.consumedHidden l = s.pendingHidden := by
  rw [State.consumedHidden, hslot]
  rfl

theorem consumed_eq (hslot : l.mtpSlot = none) (host device : H) : l.consumed host device = host := by
  rw [Layout.consumed, hslot]
  rfl

theorem consumedHidden_device (hslot : l.mtpSlot.isSome = true) (s : State T H D) :
    s.consumedHidden l = s.cudaPendingHidden := by
  rw [State.consumedHidden, if_pos hslot]

/-- The networks with rows that are functions of the tokens. -/
abbrev Networks.byRow (n : Networks T H D L) (row : List Token → H) : Networks Positions H D L :=
  n.withTarget (rowTarget row)

theorem getElem?_rows (n : Networks T H D L) (t : Positions) (tokens : List Token) {i : ℕ}
    (hi : i < tokens.length) : (((rowTarget row).batch t position tokens).2.map n.outputNorm)[i]? =
      some (n.outputNorm (row ((t.write position tokens).upTo (position + i)))) := by
  rw [List.getElem?_map]
  show Option.map _ (List.map _ (List.range tokens.length))[i]? = _
  rw [List.getElem?_map, List.getElem?_range hi]
  rfl

/-- The rows of a batch where they are kept. -/
theorem written_row (n : Networks T H D L) (t : Positions) (tokens : List Token) (buffer : ℕ → H) {i : ℕ}
    (hi : i < tokens.length) :
    written (((rowTarget row).batch t position tokens).2.map n.outputNorm) buffer i =
      n.outputNorm (row ((t.write position tokens).upTo (position + i))) := by
  rw [written, List.getD_eq_getElem?_getD, getElem?_rows n t tokens hi, Option.getD_some]

/-- The last row of a batch. -/
theorem getLastD_rows (n : Networks T H D L) (t : Positions) (tokens : List Token) (x : H) {i : ℕ}
    (hi : tokens.length = i + 1) :
    (((rowTarget row).batch t position tokens).2.map n.outputNorm).getLastD x =
      n.outputNorm (row ((t.write position tokens).upTo (position + i))) := by
  rw [List.getLastD_eq_getLast?, List.getLast?_eq_getElem?, List.length_map, (rowTarget row).length_batch, hi,
    Nat.add_sub_cancel, getElem?_rows n t tokens (by omega), Option.getD_some]

/-! ### The calls -/

section

variable {copy : H → H → H} {saved : Prop} (h : RightCopy copy n row s)
  (hsaved : saved → ∀ host device, copy host device = host) (hhost : l.mtpSlot = none → saved)

include h hsaved

/-- What `forward_body` saves, or leaves. -/
theorem ends_saveBody_copy {token : Token} {draft : D} {save computeLogits useMtp : Bool}
    (hkeeps : l.KeepsBodyWhere saved s.lastTargetPosition position useMtp save computeLogits)
    (hnext : l.mtpActive = true → useMtp = true → (position : ℤ) = s.lastTargetPosition + 1) :
    (saveBody l (n.byRow row) position (row ((s.target.write position [token]).upTo position)) save
      computeLogits).Ends { s with draft, target := s.target.write position [token] }
      (fun _ s' => RightCopy copy n row s' ∧
        (l.mtpActive = true → save = true → computeLogits = true → s'.lastTargetPosition = (position : ℤ)))
      (RightCopy copy n row) := by
  rw [Layout.KeepsBodyWhere] at hkeeps
  refine ends_saveBody (fun hsaves => ?_) fun hsaves => ?_
  · rw [if_pos hsaves] at hkeeps
    refine ⟨rightCopy_saved position rfl ?_, fun _ _ _ => rfl⟩
    rw [hsaved hkeeps.1, hkeeps.2]
    rfl
  · rw [if_neg (Bool.eq_false_iff.mp hsaves)] at hkeeps
    have hlt : s.lastTargetPosition < position := by
      rcases hkeeps with ⟨hactive, huse⟩ | hlt
      · have hposition := hnext hactive huse
        omega
      · exact hlt
    refine ⟨h.behind hlt rfl rfl rfl, fun hactive hsave hlogits => ?_⟩
    rw [Layout.saves, hactive, hsave, hlogits, Bool.or_true] at hsaves
    cases hsaves

theorem ends_forwardBody_copy {token : ℕ} {useMtp save computeLogits : Bool}
    (hkeeps : l.KeepsBodyWhere saved s.lastTargetPosition position useMtp save computeLogits) :
    (forwardBody l (n.byRow row) token position useMtp save computeLogits).Ends s
      (fun _ s' => RightCopy copy n row s') (RightCopy copy n row) :=
  ends_forwardBody
    (fun hnext _ => (ends_saveBody_copy h hsaved hkeeps hnext).mono (fun _ _ h => h.1) fun _ h => h) h

include hhost

theorem ends_forwardGreedy_copy {token : ℕ} {useMtp save computeLogits : Bool}
    (hkeeps : l.KeepsGreedyWhere saved s.lastTargetPosition position useMtp save computeLogits) :
    (forwardGreedy l (n.byRow row) token position useMtp save computeLogits).Ends s
      (fun _ s' => RightCopy copy n row s' ∧
        (l.mtpActive = true → save = true → computeLogits = true → s'.lastTargetPosition = (position : ℤ)))
      (RightCopy copy n row) := by
  rw [Layout.KeepsGreedyWhere] at hkeeps
  refine ends_forwardGreedy (fun hone draft => ?_) (fun hone hnext draft => ?_) (fun _ => h)
    fun hone hembedding houtput draft => ?_
  · rw [if_pos hone] at hkeeps
    refine ends_saveGreedy (fun hactive hsave => ?_) fun hsaves => ?_
    · rw [if_pos ⟨hactive, hsave⟩] at hkeeps
      refine ⟨rightCopy_saved position rfl ?_, fun _ _ _ => rfl⟩
      rw [hsaved (hhost hkeeps.1)]
      exact (congrFun (State.verified_host hkeeps.1) 0).trans
        (written_row n s.target [token] s.verifyHidden Nat.one_pos)
    · rw [if_neg hsaves] at hkeeps
      exact ⟨h.behind hkeeps rfl rfl rfl, fun hactive hsave _ => absurd ⟨hactive, hsave⟩ hsaves⟩
  · rw [if_neg (Bool.eq_false_iff.mp hone)] at hkeeps
    exact ends_saveBody_copy h hsaved hkeeps hnext
  · have hlt : s.lastTargetPosition < position := by
      rw [if_pos hone] at hkeeps
      split_ifs at hkeeps with hsaves
      · refine hkeeps.2.resolve_right fun hverifies => ?_
        rw [hverifies hembedding] at houtput
        cases houtput
      · exact hkeeps
    exact h.behind hlt rfl rfl rfl

theorem ends_twoScalars_copy {token : ℕ} (hactive : l.mtpActive = true)
    (hkeeps : l.KeepsGreedyWhere saved s.lastTargetPosition position true true true) :
    (twoScalars l (n.byRow row) token position).Ends s (fun _ s' => RightCopy copy n row s')
      (RightCopy copy n row) := by
  simp only [twoScalars, ends_bind]
  refine (ends_forwardGreedy_copy h hsaved hhost hkeeps).mono ?_ fun _ h => h
  rintro (_ | first) s₁ ⟨h₁, hlast⟩
  · exact h₁
  · simp only [ends_bind]
    refine ends_mtpDraftGreedy (fun _ _ draft => ?_) h₁
    have hkeeps' : l.KeepsGreedyWhere saved s₁.lastTargetPosition (position + 1) true true true := by
      rw [hlast hactive rfl rfl]
      exact hkeeps.next hactive
    refine (ends_forwardGreedy_copy (s := { s₁ with draft }) h₁ hsaved hhost hkeeps').mono ?_ fun _ h => h
    rintro (_ | second) s₂ ⟨h₂, -⟩
    · exact h₂
    · exact h₂

theorem ends_speculative_copy {three : Prop} {token size : ℕ}
    (hthree : three → (threeRows l (n.byRow row) token position).Ends s (fun _ s' => RightCopy copy n row s')
      (RightCopy copy n row))
    (htwo : l.mtpSlot = none → (twoRows l (n.byRow row) token position).Ends s (fun _ s' => RightCopy copy n row s')
      (RightCopy copy n row))
    (hkeeps : l.KeepsRoundWhere three saved s.lastTargetPosition size position) :
    (forwardGreedySpeculative l (n.byRow row) size token position).Ends s (fun _ s' => RightCopy copy n row s')
      (RightCopy copy n row) := by
  simp only [forwardGreedySpeculative, ends_ite, le_capacity_iff (show 3 ≤ 32 by decide),
    le_capacity_iff (show 2 ≤ 32 by decide)]
  rw [Layout.KeepsRoundWhere] at hkeeps
  refine ⟨fun _ => h, fun hsize => ⟨fun hrows => ?_, fun hrows => ⟨fun hrow => ?_, fun hrow => ?_⟩⟩⟩
  · rw [if_neg hsize, if_pos hrows] at hkeeps
    exact hthree hkeeps
  · rw [if_neg hsize, if_neg hrows, if_pos hrow] at hkeeps
    exact htwo hkeeps
  · rw [if_neg hsize, if_neg hrows, if_neg hrow] at hkeeps
    refine ⟨fun hscalar => ends_twoScalars_copy h hsaved hhost hscalar.1 hkeeps, fun _ => ?_⟩
    rw [ends_bind]
    refine (ends_forwardGreedy_copy h hsaved hhost hkeeps).mono ?_ fun _ h => h
    rintro (_ | next) s₁ ⟨h₁, -⟩
    · exact h₁
    · exact h₁

end

section

variable {token : ℕ} (h : Aligned l n row s)

include h

theorem ends_forwardBatch_aligned {tokens : List Token} {computeLogits updateMtp : Bool}
    (hkeeps : s.lastTargetPosition < position ∨
      l.mtpActive = true ∧ updateMtp = true ∧ l.mtpSlot.isSome = true) :
    (forwardBatch l (n.byRow row) tokens position computeLogits updateMtp).Ends s
      (fun _ s' => Aligned l n row s') (Aligned l n row) := by
  refine ends_forwardBatch (fun hcatches => ?_) h
  refine ends_updateBatch hcatches (fun hslot draft => ?_) (fun hslot => ?_) fun hupdate => ?_
  · obtain ⟨count, hcount⟩ : ∃ count, tokens.length = count + 1 :=
      Nat.exists_eq_succ_of_ne_zero hcatches.length_pos.ne'
    have hlast : ((position : ℤ) + tokens.length - 1) = ((position + count : ℕ) : ℤ) := by
      omega
    refine aligned_saved (position + count) hlast ?_
    rw [consumedHidden_device hslot]
    exact getLastD_rows n s.target tokens s.cudaPendingHidden hcount
  · exact h.behind (hkeeps.resolve_right fun hall => by rw [hslot] at hall; cases hall.2.2) rfl rfl rfl
  · exact h.behind (hkeeps.resolve_right fun hall => hupdate ⟨hall.1, hall.2.1⟩) rfl rfl rfl

omit h in
/-- A round in three rows that is prepared: its rows are on the device. -/
def Drafted (l : Layout) (n : Networks T H D L) (row : List Token → H) (s : State Positions H D)
    (position : ℕ) : Prop :=
  l.mtpActive = true ∧ l.mtpSlot.isSome = true ∧
    ∀ i ≤ 2, s.cudaVerifyHidden i = n.outputNorm (row (s.target.upTo (position + i)))

omit h in
theorem drafted_drafted (hactive : l.mtpActive = true) (hslot : l.mtpSlot.isSome = true)
    {first second : Token} {draft : D} :
    Drafted l n row (s.drafted l (n.byRow row) [token, first, second] position draft) position := by
  refine ⟨hactive, hslot, fun i hi => ?_⟩
  exact (congrFun (State.verified_device hslot) i).trans
    (written_row n s.target [token, first, second] s.cudaVerifyHidden (Nat.lt_succ_of_le hi))

omit h in
/-- The accepted row is the one in front of the next token. -/
theorem Drafted.accepted (h : Drafted l n row s position) {accepted : ℕ} (hle : accepted ≤ 2) :
    Aligned l n row (s.accepted (n.byRow row) position accepted) := by
  refine aligned_saved (position + accepted) (by push_cast; rfl) ?_
  rw [consumedHidden_device h.2.1]
  have htarget : (s.accepted (n.byRow row) position accepted).target = s.target := by
    rw [State.accepted]
    show (if accepted = 0 then s.target else if accepted = 1 then s.target else s.target) = s.target
    rw [ite_self, ite_self]
  rw [htarget]
  exact h.2.2 accepted hle

theorem ends_threeRows_aligned : (threeRows l (n.byRow row) token position).Ends s
    (fun _ s' => Aligned l n row s') (Aligned l n row) := by
  refine ends_threeRows (fun hactive _ hslot _ first second draft _ _ accepted hle _ => ?_) (fun _ => h)
    fun hposition _ _ _ => h.behind (by omega) rfl rfl rfl
  exact (drafted_drafted hactive hslot).accepted hle

theorem ends_twoRows_aligned (hslot : l.mtpSlot = none) : (twoRows l (n.byRow row) token position).Ends s
    (fun _ s' => Aligned l n row s') (Aligned l n row) := by
  refine ends_twoRows (fun _ _ _ first draft _ _ accepted hle _ => ?_) (fun _ => h)
    fun hposition _ _ => h.behind (by omega) rfl rfl rfl
  refine aligned_saved (position + accepted) (by push_cast; rfl) ?_
  rw [consumedHidden_host hslot]
  show (s.verified l (n.byRow row) [token, first] position).verifyHidden accepted = n.outputNorm (row
    (Positions.upTo (if accepted = 0 then s.target.write position [token, first]
      else s.target.write position [token, first]) (position + accepted)))
  rw [ite_self]
  exact (congrFun (State.verified_host hslot) accepted).trans
    (written_row n s.target [token, first] s.verifyHidden (Nat.lt_succ_of_le hle))

theorem ends_verifyThree_drafted : (verifyThree l (n.byRow row) token position true).Ends s
    (fun _ s' => Drafted l n row s' position) (Aligned l n row) :=
  ends_verifyThree (fun hactive _ hslot _ _ _ _ => drafted_drafted hactive hslot) (fun _ => h)
    fun hposition _ _ _ => h.behind (by omega) rfl rfl rfl

end

/-! ### The runs -/

/-- Between two requests the row is right, or the rows of a prepared round are. -/
def Session.Right (l : Layout) (n : Networks T H D L) (row : List Token → H) (s : Session Positions H D) : Prop :=
  match s.prepared with
  | none => Aligned l n row s.state
  | some position => Drafted l n row s.state position

/-- What a call ends with holds behind the step of the engine. -/
theorem step_of_ends {P : Session Positions H D → Prop} {s : Session Positions H D} {request : Request}
    (h : (request.call l (n.byRow row)).Ends s.state (fun prepared s' => P ⟨s', prepared⟩) fun s' => P ⟨s', none⟩) :
    P ((engine l (n.byRow row)).step s request).2 := by
  rw [engine]
  unfold Procedure.Ends at h
  split at h
  · rename_i hrun
    simp only [hrun]
    exact h
  · rename_i hrun
    simp only [hrun]
    exact h

theorem right_of_ends {s : Session Positions H D} {request : Request}
    (h : (request.call l (n.byRow row)).Ends s.state (fun prepared s' => Session.Right l n row ⟨s', prepared⟩)
      (Aligned l n row)) : Session.Right l n row ((engine l (n.byRow row)).step s request).2 :=
  step_of_ends h

theorem right_reset (s : Session Positions H D) :
    Session.Right l n row ((engine l (n.byRow row)).step s .reset).2 := by
  apply right_of_ends
  simp only [Request.call, Qwen35.reset, ends_bind, ends_modify, ends_pure]
  intro position hlast
  have hlast : (-1 : ℤ) = position := hlast
  omega

theorem right_accept {s : State Positions H D} {drafts : List Token} {accepted : ℕ} (h : Drafted l n row s position)
    (hdrafts : 2 ≤ drafts.length) (hle : accepted ≤ 2) : Session.Right l n row
      ((engine l (n.byRow row)).step ⟨s, some position⟩ (.accept drafts position accepted)).2 := by
  apply right_of_ends
  simp only [Request.call, ends_bind, ends_pure]
  exact ends_acceptSampled h.2.1 (fun hle => h.accepted hle) fun hguard =>
    absurd ⟨hdrafts, hle, l.allocated_of_active h.1⟩ hguard

theorem right_request {s : State Positions H D} {request : Request} (h : Aligned l n row s)
    (hkeeps : request.Keeps l ⟨s, none⟩) :
    Session.Right l n row ((engine l (n.byRow row)).step ⟨s, none⟩ request).2 := by
  cases request with
  | reset => exact right_reset _
  | accept drafts position accepted => exact hkeeps.elim
  | forward token position useMtp save computeLogits =>
    apply right_of_ends
    simp only [Request.call, ends_bind, ends_pure]
    exact ends_forwardBody_copy h.rightCopy consumed_eq hkeeps
  | forwardGreedy token position useMtp save computeLogits =>
    apply right_of_ends
    simp only [Request.call, ends_bind, ends_pure]
    exact (ends_forwardGreedy_copy h.rightCopy consumed_eq id hkeeps).mono (fun _ _ h => h.1) fun _ h => h
  | forwardBatch tokens position computeLogits updateMtp =>
    apply right_of_ends
    simp only [Request.call, ends_bind, ends_pure]
    exact ends_forwardBatch_aligned h hkeeps
  | speculative size token position =>
    apply right_of_ends
    simp only [Request.call, ends_bind, ends_pure]
    exact ends_speculative_copy h.rightCopy consumed_eq id (fun _ => ends_threeRows_aligned h)
      (ends_twoRows_aligned h) hkeeps
  | prepare w token position =>
    apply right_of_ends
    simp only [Request.call, prepareSampled, ends_bind, ends_require, ends_pure]
    exact ⟨fun _ => ends_verifyThree_drafted h, fun _ => h⟩
  | prepareTopk w token position =>
    apply right_of_ends
    simp only [Request.call, prepareSampledTopk, ends_bind, ends_require, ends_pure]
    exact ⟨fun _ => ⟨fun _ => ⟨fun _ => ends_verifyThree_drafted h, fun _ => h⟩, fun _ => h⟩, fun _ => h⟩

/-- A request that keeps the row right. -/
theorem right_step {s : Session Positions H D} {request : Request} (h : s.Right l n row)
    (hkeeps : request.Keeps l s) : Session.Right l n row ((engine l (n.byRow row)).step s request).2 := by
  obtain ⟨s, prepared⟩ := s
  cases prepared with
  | none => exact right_request h hkeeps
  | some position =>
    cases request with
    | reset => exact right_reset _
    | accept drafts position' accepted =>
      obtain ⟨rfl, hdrafts, hle⟩ := hkeeps
      exact right_accept h hdrafts hle
    | _ => exact hkeeps.elim

/-- **The draft head starts from the right row** in every run of requests that keep it: where no round is
prepared, the row that is kept for it is that of the last position. -/
theorem aligned_of_keeps (l : Layout) (n : Networks T H D L) (row : List Token → H) (s : State Positions H D)
    (hs : s.lastTargetPosition = -1) (requests : List Request)
    (hkeeps : (engine l (n.byRow row)).Along (fun s request => request.Keeps l s) ⟨s, none⟩ requests)
    (hsettled : ((engine l (n.byRow row)).after ⟨s, none⟩ requests).prepared = none) :
    Aligned l n row ((engine l (n.byRow row)).after ⟨s, none⟩ requests).state := by
  have hstart : Session.Right l n row ⟨s, none⟩ := by
    intro position hlast
    rw [hs] at hlast
    omega
  have hright := System.invariant_along (fun _ _ => right_step) requests _ hstart hkeeps
  rw [Session.Right, hsettled] at hright
  exact hright

/-! ### Rows that count their tokens -/

/-- A row is the number of the tokens up to it, and one more behind the output norm. -/
def lengths : Networks Positions ℕ Unit ℕ where
  vocabularySize := 1
  target := rowTarget List.length
  draft :=
    { cleared := ()
      pair := fun _ _ _ _ => ()
      catchup := fun _ _ _ _ => ()
      drafted := fun _ => 0
      exported := fun _ => 0 }
  zero := 0
  outputNorm x := x + 1
  logits := id
  argmax := fun _ => 0
  argmax_lt := fun _ => Nat.one_pos
  drafted_lt := fun _ => Nat.one_pos

/-- The state of `reset`. -/
def settledStart : State Positions ℕ Unit where
  target := ⟨fun _ => 0, 0⟩
  draft := ()
  pendingHidden := 0
  cudaPendingHidden := 0
  verifyHidden := fun _ => 0
  cudaVerifyHidden := fun _ => 0
  lastTargetPosition := -1

/-- Two tokens on the host. -/
theorem aligned_onHost : Aligned (onHost true) lengths List.length
    ((engine (onHost true) lengths).after ⟨settledStart, none⟩
      [.forward 0 0 true true true, .forwardGreedy 0 1 true true true]).state :=
  aligned_of_keeps (onHost true) lengths List.length settledStart rfl _ ⟨⟨rfl, rfl⟩, ⟨rfl, rfl⟩, trivial⟩ rfl

/-- On a device the first token leaves the row in front of the output norm, and with the draft head on a
device too it leaves there what `reset` left. -/
theorem not_aligned_onDevice :
    ¬ Aligned (onDevice none true) lengths List.length
      ((engine (onDevice none true) lengths).after ⟨settledStart, none⟩ [.forward 0 0 true true true]).state ∧
    ¬ Aligned (onDevice (some .first) true) lengths List.length
      ((engine (onDevice (some .first) true) lengths).after ⟨settledStart, none⟩
        [.forward 0 0 true true true]).state :=
  ⟨fun h => absurd (h 0 rfl) (by decide), fun h => absurd (h 0 rfl) (by decide)⟩

end Qwen35

end FortAI
