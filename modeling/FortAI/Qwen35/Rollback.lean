import FortAI.Qwen35.Fold
import FortAI.Qwen35.Steps

/-!
# Rolling back rejected drafts

A round of speculation ends in the state that its accepted tokens leave: the rejected rows of a batch are
taken back with the checkpoint behind the last accepted one.

* `Layout.place` : where the recurrent states of a layout are.
* `Advanced` : a call has consumed its token and all but the last of those that it returns.
* `advanced_of_batch` : so it is behind a batch that went back to its accepted rows.
* `rollback_exact` : all rounds of speculation.
-/

namespace FortAI

namespace Qwen35

open Procedure

variable {σ K T H D L : Type}

/-- Where the recurrent states are: with their owner where single tokens run as batches too. -/
def Layout.place (l : Layout) (p : Placed σ K H) : Place := if l.batchesOne then p.onOwner else p.scalar

/-- The logits of the target behind tokens. -/
def Stack.logitsBehind (m : Stack σ K H) (n : Networks T H D L) (tokens : List Token) : Option L :=
  (m.row tokens).map fun x => n.logits (n.outputNorm x)

/-- The next token of the target behind tokens. -/
def Stack.next (m : Stack σ K H) (n : Networks T H D L) (tokens : List Token) : Option Token :=
  (m.logitsBehind n tokens).map n.argmax

/-- The call has returned these tokens, and has consumed its own token and those that it accepted: all but
the last one. -/
structure Advanced (l : Layout) (m : Stack σ K H) (n : Networks T H D L) (consumed : List Token)
    (token : Token) (tokens : List Token) (accepted : ℕ) (s' : State (Caches σ K) H D) : Prop where
  length : tokens.length = accepted + 1
  /-- The recurrent states are the folds over these tokens. -/
  holds : m.Holds l.place s'.target (consumed ++ token :: tokens.take accepted)
  /-- The rows of the KV caches are of these tokens. -/
  rowsOf : m.RowsOf s'.target (consumed ++ token :: tokens.take accepted)
  position : l.mtpActive = true → s'.lastTargetPosition = (consumed.length : ℤ) + accepted
  /-- Each token is the target's own. -/
  next : ∀ j ≤ accepted, tokens[j]? = m.next n (consumed ++ token :: tokens.take j)

variable {l : Layout} {m : Stack σ K H} {n : Networks T H D L} {s : State (Caches σ K) H D}
  {consumed : List Token} {token : Token}

theorem Layout.place_of_batchesOne (h : l.batchesOne = true) :
    (l.place : Placed σ K H → Place) = Placed.onOwner := by
  funext p
  rw [Layout.place, if_pos h]

theorem Layout.place_of_not_batchesOne (h : l.batchesOne = false) :
    (l.place : Placed σ K H → Place) = Placed.scalar := by
  funext p
  rw [Layout.place, h]
  rfl

/-- A layout that runs a verification batch runs single tokens as batches too. -/
theorem Layout.batchesOne_of_batchSupported {count : ℕ} (hactive : l.mtpActive = true)
    (hbatch : l.batchSupported count = true) (hsmall : count ≤ 8) : l.batchesOne = true := by
  rw [Layout.batchesOne, l.pipeline_of_batchSupported hbatch, l.allocated_of_active hactive,
    l.batchSupported_of_le hbatch Nat.one_pos (l.pos_of_batchSupported hbatch) hsmall]
  rfl

/-- What the rows of a batch pick. -/
def picked (m : Stack σ K H) (n : Networks T H D L) (t : Caches σ K) (position : ℕ) (tokens : List Token) :
    List Token :=
  (((m.target.batch t position tokens).2.map n.outputNorm).map n.logits).map n.argmax

theorem logits_batch (hs : m.Holds Placed.onOwner s.target consumed) (tokens : List Token) {j : ℕ}
    (hj : j < tokens.length) :
    (((m.target.batch s.target consumed.length tokens).2.map n.outputNorm).map n.logits)[j]? =
      m.logitsBehind n (consumed ++ tokens.take (j + 1)) := by
  rw [List.getElem?_map, List.getElem?_map, Stack.logitsBehind, ← (Stack.holds_batch hs tokens).2.2 j hj,
    Option.map_map]
  rfl

theorem picked_batch (hs : m.Holds Placed.onOwner s.target consumed) (tokens : List Token) {j : ℕ}
    (hj : j < tokens.length) :
    (picked m n s.target consumed.length tokens)[j]? = m.next n (consumed ++ tokens.take (j + 1)) := by
  rw [picked, List.getElem?_map, logits_batch hs tokens hj]
  rfl

/-- A batch that went back to its accepted rows. -/
theorem advanced_of_batch {drafts : List Token} {accepted : ℕ} {s' : State (Caches σ K) H D}
    (hs : m.Holds Placed.onOwner s.target consumed) (hone : l.batchesOne = true) (hle : accepted ≤ drafts.length)
    (htake : drafts.take accepted = (picked m n s.target consumed.length (token :: drafts)).take accepted)
    (hholds : m.Holds Placed.onOwner s'.target (consumed ++ token :: drafts.take accepted))
    (hposition : l.mtpActive = true → s'.lastTargetPosition = (consumed.length : ℤ) + accepted) :
    Advanced l m n consumed token ((picked m n s.target consumed.length (token :: drafts)).take (accepted + 1))
      accepted s' := by
  have hlength : (picked m n s.target consumed.length (token :: drafts)).length = drafts.length + 1 := by
    rw [picked, List.length_map, List.length_map, List.length_map, m.target.length_batch, List.length_cons]
  have hfront (j : ℕ) (hj : j ≤ accepted) :
      ((picked m n s.target consumed.length (token :: drafts)).take (accepted + 1)).take j = drafts.take j := by
    rw [List.take_take, Nat.min_eq_left (hj.trans (Nat.le_succ _)), ← Nat.min_eq_left hj, ← List.take_take,
      ← List.take_take, htake]
  have hholds' : m.Holds l.place s'.target (consumed ++ token ::
      ((picked m n s.target consumed.length (token :: drafts)).take (accepted + 1)).take accepted) := by
    rw [hfront accepted le_rfl, l.place_of_batchesOne hone]
    exact hholds
  refine ⟨?_, hholds', hholds'.rowsOf, hposition, fun j hj => ?_⟩
  · rw [List.length_take, hlength, Nat.min_eq_left (Nat.succ_le_succ hle)]
  · rw [hfront j hj, List.getElem?_take, if_pos (Nat.lt_succ_of_le hj),
      picked_batch hs _ (Nat.lt_succ_of_le (hj.trans hle)), List.take_succ_cons]

/-! ### Rounds -/

/-- The checkpoint behind the accepted drafts. -/
theorem holds_accepted (hs : m.Holds Placed.onOwner s.target consumed) (first second : Token) {accepted : ℕ}
    (hle : accepted ≤ 2) {s' : State (Caches σ K) H D}
    (htarget : s'.target = (m.target.batch s.target consumed.length [token, first, second]).1) :
    m.Holds Placed.onOwner (s'.accepted (n.withTarget m.target) consumed.length accepted).target
      (consumed ++ token :: [first, second].take accepted) := by
  obtain ⟨hall, hcheckpoint, -⟩ := Stack.holds_batch hs [token, first, second]
  obtain rfl | rfl | rfl : accepted = 0 ∨ accepted = 1 ∨ accepted = 2 := by omega
  · show m.Holds Placed.onOwner (m.restore .first s'.target) _
    rw [htarget]
    exact hcheckpoint .first (by simp [Checkpoint.rows])
  · show m.Holds Placed.onOwner (m.restore .second s'.target) _
    rw [htarget]
    exact hcheckpoint .second (by simp [Checkpoint.rows])
  · show m.Holds Placed.onOwner s'.target _
    rw [htarget]
    exact hall

section

variable (hs : m.Holds l.place s.target consumed)

include hs

theorem ends_threeRows_advanced : (threeRows l (n.withTarget m.target) token consumed.length).Ends s
    (fun tokens s' => ∃ accepted, Advanced l m n consumed token tokens accepted s') fun _ => True := by
  refine ends_threeRows (fun hactive _ _ hbatch first second draft _ hpicked accepted hle htake => ?_)
    (fun _ => trivial) fun _ _ _ _ => trivial
  have hone := l.batchesOne_of_batchSupported hactive hbatch (by decide)
  rw [l.place_of_batchesOne hone] at hs
  rw [hpicked] at htake ⊢
  exact ⟨accepted, advanced_of_batch hs hone hle htake (holds_accepted hs first second hle rfl) fun _ => rfl⟩

theorem ends_twoRows_advanced : (twoRows l (n.withTarget m.target) token consumed.length).Ends s
    (fun tokens s' => ∃ accepted, Advanced l m n consumed token tokens accepted s') fun _ => True := by
  refine ends_twoRows (fun hactive _ hbatch first draft _ hpicked accepted hle htake => ?_)
    (fun _ => trivial) fun _ _ _ => trivial
  have hone := l.batchesOne_of_batchSupported hactive hbatch (by decide)
  rw [l.place_of_batchesOne hone] at hs
  rw [hpicked] at htake ⊢
  refine ⟨accepted, advanced_of_batch hs hone hle htake ?_ fun _ => rfl⟩
  obtain ⟨hall, hcheckpoint, -⟩ := Stack.holds_batch hs [token, first]
  obtain rfl | rfl : accepted = 0 ∨ accepted = 1 := by omega
  · exact hcheckpoint .first (by simp [Checkpoint.rows])
  · exact hall

/-- A single token: nothing is drafted. -/
theorem ends_forwardGreedy_advanced : (forwardGreedy l (n.withTarget m.target) token consumed.length true true true).Ends s
    (fun next s' => ∃ first, next = some first ∧ Advanced l m n consumed token [first] 0 s') fun _ => True := by
  refine ends_forwardGreedy (fun hone draft => ?_) (fun hone _ draft => ?_) (fun _ => trivial)
    fun _ _ _ _ => trivial
  · rw [l.place_of_batchesOne hone] at hs
    have hlength : (picked m n s.target consumed.length [token]).length = 1 := by
      rw [picked, List.length_map, List.length_map, List.length_map, m.target.length_batch]
      rfl
    obtain ⟨first, hfirst⟩ := List.length_eq_one_iff.mp hlength
    have hhead : ((((m.target.batch s.target consumed.length [token]).2.map n.outputNorm).map n.logits).head?.map
        n.argmax) = some first := by
      rw [← List.head?_map]
      exact congrArg List.head? hfirst
    have hadvanced {s' : State (Caches σ K) H D} (htarget : s'.target = (m.batch s.target consumed.length [token]).1)
        (hposition : l.mtpActive = true → s'.lastTargetPosition = (consumed.length : ℤ)) :
        Advanced l m n consumed token [first] 0 s' := by
      have h : Advanced l m n consumed token ((picked m n s.target consumed.length [token]).take (0 + 1)) 0 s' :=
        advanced_of_batch hs hone (Nat.zero_le _) rfl (htarget ▸ (Stack.holds_batch hs [token]).1)
          (by simpa using hposition)
      rwa [hfirst] at h
    refine ends_saveGreedy (fun _ _ => ⟨first, hhead, hadvanced rfl fun _ => rfl⟩) fun hinactive => ?_
    exact ⟨first, hhead, hadvanced rfl fun hactive => absurd ⟨hactive, rfl⟩ hinactive⟩
  · rw [l.place_of_not_batchesOne hone] at hs
    obtain ⟨hholds, hrow⟩ := Stack.holds_scalar hs token
    have hadvanced {s' : State (Caches σ K) H D} (htarget : s'.target = (m.scalar s.target consumed.length token).1)
        (hposition : l.mtpActive = true → s'.lastTargetPosition = (consumed.length : ℤ)) :
        Advanced l m n consumed token
          [n.argmax (n.logits (n.outputNorm (m.scalar s.target consumed.length token).2))] 0 s' := by
      have hholds' : m.Holds l.place s'.target (consumed ++ [token]) := by
        rw [htarget, l.place_of_not_batchesOne hone]
        exact hholds
      refine ⟨rfl, hholds', hholds'.rowsOf, by simpa using hposition, fun j hj => ?_⟩
      obtain rfl := Nat.le_zero.mp hj
      show some _ = m.next n (consumed ++ [token])
      rw [Stack.next, Stack.logitsBehind, ← hrow]
      rfl
    refine ends_saveBody (fun _ => ⟨_, rfl, hadvanced rfl fun _ => rfl⟩) fun hsaves => ⟨_, rfl, hadvanced rfl ?_⟩
    intro hactive
    rw [Layout.saves, hactive] at hsaves
    simp at hsaves

omit hs in
/-- Two tokens in a row. -/
theorem Advanced.two {first second : Token} {s₁ s₂ : State (Caches σ K) H D}
    (h₁ : Advanced l m n consumed token [first] 0 s₁) (h₂ : Advanced l m n (consumed ++ [token]) first [second] 0 s₂) :
    Advanced l m n consumed token [first, second] 1 s₂ := by
  have hconsumed : (consumed ++ [token]) ++ [first] = consumed ++ [token, first] := by
    rw [List.append_assoc]
    rfl
  have hholds := h₂.holds
  rw [List.take_zero, hconsumed] at hholds
  refine ⟨rfl, hholds, hholds.rowsOf, fun hactive => ?_, fun j hj => ?_⟩
  · rw [h₂.position hactive, List.length_append, List.length_singleton]
    push_cast
    rw [add_zero]
  · obtain rfl | rfl : j = 0 ∨ j = 1 := by omega
    · exact h₁.next 0 le_rfl
    · have hnext := h₂.next 0 le_rfl
      rw [List.take_zero, hconsumed] at hnext
      exact hnext

theorem ends_twoScalars_advanced : (twoScalars l (n.withTarget m.target) token consumed.length).Ends s
    (fun tokens s' => ∃ accepted, Advanced l m n consumed token tokens accepted s') fun _ => True := by
  simp only [twoScalars, ends_bind]
  refine (ends_forwardGreedy_advanced hs).mono ?_ fun _ _ => trivial
  rintro _ s₁ ⟨first, rfl, hfirst⟩
  simp only [ends_bind]
  refine ends_mtpDraftGreedy (fun _ _ draft => ?_) trivial
  have hholds : m.Holds l.place s₁.target (consumed ++ [token]) := hfirst.holds
  have hsecond : (forwardGreedy l (n.withTarget m.target) first (consumed ++ [token]).length true true true).Ends
      { s₁ with draft } (fun next s' => ∃ second, next = some second ∧
        Advanced l m n (consumed ++ [token]) first [second] 0 s') fun _ => True :=
    ends_forwardGreedy_advanced hholds
  rw [List.length_append, List.length_singleton] at hsecond
  refine hsecond.mono ?_ fun _ _ => trivial
  rintro _ s₂ ⟨second, rfl, hsecond⟩
  exact ⟨1, hfirst.two hsecond⟩

theorem ends_speculative_advanced (size : ℕ) :
    (forwardGreedySpeculative l (n.withTarget m.target) size token consumed.length).Ends s
      (fun tokens s' => ∃ accepted, Advanced l m n consumed token tokens accepted s') fun _ => True := by
  simp only [forwardGreedySpeculative, ends_ite]
  refine ⟨fun _ => trivial, fun _ => ⟨fun _ => ends_threeRows_advanced hs, fun _ =>
    ⟨fun _ => ends_twoRows_advanced hs, fun _ => ⟨fun _ => ends_twoScalars_advanced hs, fun _ => ?_⟩⟩⟩⟩
  rw [ends_bind]
  refine (ends_forwardGreedy_advanced hs).mono ?_ fun _ _ => trivial
  rintro _ s₁ ⟨first, rfl, hfirst⟩
  exact ⟨0, hfirst⟩

omit hs in
/-- What a prepared round is accepted to: the drafts, the logits behind each of them, and any number of
accepted drafts. -/
def Rolled (l : Layout) (m : Stack σ K H) (n : Networks T H D L) (consumed : List Token) (token : Token)
    (drafts : List Token) (rows : List L) (s₁ : State (Caches σ K) H D) : Prop :=
  (∀ j ≤ 2, rows[j]? = m.logitsBehind n (consumed ++ token :: drafts.take j)) ∧
    ∀ accepted s₂, acceptSampled l (n.withTarget m.target) drafts consumed.length accepted s₁ = (.ok (), s₂) →
      m.Holds l.place s₂.target (consumed ++ token :: drafts.take accepted) ∧
        m.RowsOf s₂.target (consumed ++ token :: drafts.take accepted) ∧
          s₂.lastTargetPosition = (consumed.length : ℤ) + accepted

theorem ends_verifyThree_rolled : (verifyThree l (n.withTarget m.target) token consumed.length true).Ends s
    (fun r s₁ => Rolled l m n consumed token r.1 r.2 s₁) fun _ => True := by
  refine ends_verifyThree (fun hactive _ hslot hbatch first second draft => ?_) (fun _ => trivial)
    fun _ _ _ _ => trivial
  have hone := l.batchesOne_of_batchSupported hactive hbatch (by decide)
  rw [l.place_of_batchesOne hone] at hs
  refine ⟨fun j hj => ?_, fun accepted s₂ haccept => ?_⟩
  · rw [← List.take_succ_cons]
    exact logits_batch hs [token, first, second] (Nat.lt_succ_of_le hj)
  · have hends : (acceptSampled l (n.withTarget m.target) [first, second] consumed.length accepted).Ends
        (s.drafted l (n.withTarget m.target) [token, first, second] consumed.length draft)
        (fun _ s₂ => m.Holds l.place s₂.target (consumed ++ token :: [first, second].take accepted) ∧
          m.RowsOf s₂.target (consumed ++ token :: [first, second].take accepted) ∧
            s₂.lastTargetPosition = (consumed.length : ℤ) + accepted) fun _ => True := by
      refine ends_acceptSampled hslot (fun hle => ?_) fun _ => trivial
      rw [l.place_of_batchesOne hone]
      have hholds : m.Holds Placed.onOwner (State.accepted (n.withTarget m.target)
          (s.drafted l (n.withTarget m.target) [token, first, second] consumed.length draft) consumed.length
          accepted).target (consumed ++ token :: [first, second].take accepted) :=
        holds_accepted hs first second hle rfl
      exact ⟨hholds, hholds.rowsOf, rfl⟩
    exact hends.of_ok haccept

theorem ends_prepareSampled_rolled (w : Workspace) :
    (prepareSampled l (n.withTarget m.target) w token consumed.length).Ends s
      (fun r s₁ => Rolled l m n consumed token r.1 r.2 s₁) fun _ => True := by
  simp only [prepareSampled, ends_bind, ends_require]
  exact ⟨fun _ => ends_verifyThree_rolled hs, fun _ => trivial⟩

theorem ends_prepareSampledTopk_rolled (w : TopkWorkspace) :
    (prepareSampledTopk l (n.withTarget m.target) w token consumed.length).Ends s
      (fun r s₁ => Rolled l m n consumed token r.1 r.2 s₁) fun _ => True := by
  simp only [prepareSampledTopk, ends_bind, ends_require]
  exact ⟨fun _ => ⟨fun _ => ⟨fun _ => ends_verifyThree_rolled hs, fun _ => trivial⟩, fun _ => trivial⟩,
    fun _ => trivial⟩

end

/-- **Rolling back is exact.**  A call that returns has consumed its token and the tokens that it accepted,
and nothing else: in the recurrent states, in the KV caches and in the position of the draft head. -/
theorem rollback_exact (l : Layout) (m : Stack σ K H) (n : Networks T H D L) (s : State (Caches σ K) H D)
    (consumed : List Token) (token : Token) (hs : m.Holds l.place s.target consumed) :
    (∀ size tokens s', forwardGreedySpeculative l (n.withTarget m.target) size token consumed.length s = (.ok tokens, s') →
      ∃ accepted, Advanced l m n consumed token tokens accepted s') ∧
    (∀ w drafts rows s₁, prepareSampled l (n.withTarget m.target) w token consumed.length s = (.ok (drafts, rows), s₁) →
      Rolled l m n consumed token drafts rows s₁) ∧
    ∀ w drafts rows s₁, prepareSampledTopk l (n.withTarget m.target) w token consumed.length s = (.ok (drafts, rows), s₁) →
      Rolled l m n consumed token drafts rows s₁ :=
  ⟨fun size _ _ hrun => (ends_speculative_advanced hs size).of_ok hrun,
    fun w _ _ _ hrun => (ends_prepareSampled_rolled hs w).of_ok hrun,
    fun w _ _ _ hrun => (ends_prepareSampledTopk_rolled hs w).of_ok hrun⟩

/-! ### Two layers -/

/-- A recurrent layer that adds up its rows, and an attention layer that counts its rows. -/
def sums : Stack ℕ Unit ℕ where
  layers :=
    [⟨.recurrent fun sum x => (sum + x, sum + x), 0, .first, .host⟩,
      ⟨.attention (fun _ => ()) fun x rows => x + rows.length, 0, .first, .host⟩]
  embedding token := token + 1

/-- They pick a token by the parity of a row, and always draft the same one. -/
def parity : Networks (Caches ℕ Unit) ℕ Unit ℕ where
  vocabularySize := 2
  target := sums.target
  draft :=
    { cleared := ()
      pair := fun _ _ _ _ => ()
      catchup := fun _ _ _ _ => ()
      drafted := fun _ => 0
      exported := fun _ => 0 }
  zero := 0
  outputNorm := id
  logits := id
  argmax row := row % 2
  argmax_lt row := Nat.mod_lt row Nat.two_pos
  drafted_lt := fun _ => Nat.two_pos

/-- The state of `reset`. -/
def atStart : State (Caches ℕ Unit) ℕ Unit where
  target := sums.cleared
  draft := ()
  pendingHidden := 0
  cudaPendingHidden := 0
  verifyHidden := fun _ => 0
  cudaVerifyHidden := fun _ => 0
  lastTargetPosition := -1

/-- They pick a token by the remainder of a row at three. -/
def thirds : Networks (Caches ℕ Unit) ℕ Unit ℕ :=
  { parity with
    vocabularySize := 3
    argmax := fun row => row % 3
    argmax_lt := fun row => Nat.mod_lt row (Nat.succ_pos 2)
    drafted_lt := fun _ => Nat.succ_pos 2 }

/-- The state behind the token 1, in batches. -/
def afterOne : State (Caches ℕ Unit) ℕ Unit :=
  { atStart with target := (sums.batch sums.cleared 0 [1]).1, lastTargetPosition := 0 }

theorem holds_afterOne : sums.Holds (onDevice (some .first) true).place afterOne.target [1] := by
  rw [Layout.place_of_batchesOne rfl]
  exact (Stack.holds_batch (sums.holds_cleared Placed.onOwner) [1]).1

/-- Three rows on a device: the first draft is accepted and the second is not. -/
theorem rollback_onDevice : ∃ accepted, Advanced (onDevice (some .first) true) sums thirds [1] 1 [0, 2] accepted
    (forwardGreedySpeculative (onDevice (some .first) true) thirds 3 1 1 afterOne).2 :=
  (rollback_exact (onDevice (some .first) true) sums thirds afterOne [1] 1 holds_afterOne).1 3 [0, 2] _ rfl

/-- Without a draft head its position stays, though a token is consumed. -/
theorem position_idle :
    (forwardGreedySpeculative (onHost false) parity 1 1 0 atStart).1 = .ok [1] ∧
      (forwardGreedySpeculative (onHost false) parity 1 1 0 atStart).2.lastTargetPosition ≠ 0 :=
  ⟨rfl, by decide⟩

end Qwen35

end FortAI
