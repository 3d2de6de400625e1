import FortAI.Qwen35.Judgement
import FortAI.Service.Cache
import FortAI.Service.Draft

/-!
# The published acceptance figures

A request publishes how many drafts were verified and how many of them were accepted.  The service counts
two drafts for each round of speculation that returns, and accepts all tokens of a greedy round but one.

* `Answers.speculating` : the service on the engine.
* `judgePass` : what a pass through the generation loop says about its drafts.
* `speculate_ok_tally`, `speculate_unsupported_tally` : one round; `Tallied` : one pass.
* `draft_accounting_iff` : a whole request.
-/

namespace FortAI

open Arithmetic

variable {T H D' L Δ R D : Type} [Arithmetic R D]

/-! ### The service on the engine -/

/-- A call of the engine, as the service sees it. -/
def engineReply {α : Type} (fed : Fed) (reply : Except Fault α × Qwen35.State T H D') :
    Except Failure α × Qwen35.State T H D' :=
  match reply with
  | (.ok a, s) => (.ok a, s)
  | (.error e, s) => (.error ⟨e, fed⟩, s)

theorem engineReply_ok {α : Type} {fed : Fed} {reply : Except Fault α × Qwen35.State T H D'} {a : α}
    (h : (engineReply fed reply).1 = .ok a) : ∃ s, reply = (.ok a, s) := by
  obtain ⟨(e | b), s⟩ := reply
  · cases h
  · cases h
    exact ⟨s, rfl⟩

theorem engineReply_error {α : Type} {fed : Fed} {reply : Except Fault α × Qwen35.State T H D'}
    {failure : Failure} (h : (engineReply fed reply).1 = .error failure) : ∃ s, reply = (.error failure.fault, s) := by
  obtain ⟨(e | b), s⟩ := reply
  · cases h
    exact ⟨s, rfl⟩
  · cases h

/-- `forward_greedy_speculative` with the workspace of the service, that holds 32 tokens. -/
def greedyRound (l : Qwen35.Layout) (n : Qwen35.Networks T H D' L) (token : Token) (position : ℕ) :
    Qwen35.Call T H D' (List Token) := do
  Procedure.require (decide (0 ≤ token)) .invalid
  let tokens ← Qwen35.forwardGreedySpeculative l n 32 token.toNat position
  pure (tokens.map Nat.cast)

/-- The answers of the engine to the calls that verify drafts; the other calls are answered as by `A`. -/
def Answers.speculating (A : Answers (Qwen35.State T H D') R) (l : Qwen35.Layout)
    (n : Qwen35.Networks T H D' L) : Answers (Qwen35.State T H D') R :=
  { A with
    acceptSampledSpeculative := fun s fed drafts position accepted =>
      engineReply fed (Qwen35.acceptSampled l n (drafts.toList.map Int.toNat) position accepted s)
    forwardGreedySpeculative := fun s fed token position => engineReply fed (greedyRound l n token position s) }

/-! ### What a pass says about its drafts -/

section

variable (setup : Setup) (A : Answers (Qwen35.State T H D') R) (l : Qwen35.Layout) (n : Qwen35.Networks T H D' L)
variable (c : Call R) (ids : List Token)

/-- The tokens that the target picks behind the accepted drafts, up to the first one that is no draft. -/
def sampledTargets {α : Type} (pick : α → Mt19937 → List Token → ℕ → Token × Mt19937) (rows : Rows α)
    (drafts : Drafts) (generator : Mt19937) (history : List Token) (i : ℕ) : List Token :=
  let (first, generator) := pick rows.first generator history i
  if first ≠ drafts.first then [first]
  else
    let history := history.set i drafts.first
    let (second, generator) := pick rows.second generator history (i + 1)
    if second ≠ drafts.second then [first, second]
    else
      let history := history.set (i + 1) drafts.second
      [first, second, (pick rows.third generator history (i + 2)).1]

/-- A verification of two drafts whose rows are sampled from. -/
def judgeSampled {α : Type} (prepared : Except Fault (Drafts × Rows α))
    (pick : α → Mt19937 → List Token → ℕ → Token × Mt19937) (g : Locals (Qwen35.State T H D') Δ R) : Judgement :=
  match prepared with
  | .error _ => .none
  | .ok (drafts, rows) =>
    { verified := 2
      matched := (judge drafts.toList (sampledTargets pick rows drafts g.generator g.history
        (ids.length + g.generatedIds.length))).matched }

/-- A round of speculation. -/
def judgeRound (position : ℕ) (g : Locals (Qwen35.State T H D') Δ R) : Judgement :=
  if c.needsLogits then
    if c.useDeviceTopk then
      judgeSampled ids (g.model.prepareSampledSpeculativeTopk A g.current position c.options.topK.toNat).1
        (pickTopk setup c) g
    else judgeSampled ids (g.model.prepareSampledSpeculative A g.current position).1 (pickRow c) g
  else
    match (Qwen35.judgeGreedy l n 32 g.current.toNat position g.model.oracle).1 with
    | .error _ => .none
    | .ok j => j

/-- The pass from the loop head `g` begins with a round of speculation. -/
def speculates (g : Locals (Qwen35.State T H D') Δ R) : Bool :=
  advances setup c ids g && g.useNativeMtp && decide (2 ≤ c.maxTokens.toNat - (g.generatedIds.length + 1))

/-- The pass from the loop head `g`. -/
def judgePass (g : Locals (Qwen35.State T H D') Δ R) : Judgement :=
  if speculates setup c ids g then
    judgeRound setup A l n c ids (ids.length + g.generatedIds.length) (emit ids g.current g)
  else .none

/-- A greedy round of speculation that the layout does not refuse verifies two drafts. -/
def DraftsTwo (g : Locals (Qwen35.State T H D') Δ R) : Prop :=
  speculates setup c ids g = true → c.needsLogits = false → l.RunsScalar →
    l.DraftsTwo (ids.length + g.generatedIds.length)

end

variable {setup : Setup} {A : Answers (Qwen35.State T H D') R} {B : Answers Δ R} {l : Qwen35.Layout}
variable {n : Qwen35.Networks T H D' L} {c : Call R} {ids : List Token} {position : ℕ} {tokens : List Token}
variable {g g' : Locals (Qwen35.State T H D') Δ R}

/-! ### One round -/

/-- The service accepts the leading drafts that the target has picked. -/
theorem verifySampled_accepted {α : Type} (pick : α → Mt19937 → List Token → ℕ → Token × Mt19937)
    (rows : Rows α) (drafts : Drafts) (generator : Mt19937) (history : List Token) (i : ℕ) :
    (verifySampled pick rows drafts generator history i).accepted =
      (judge drafts.toList (sampledTargets pick rows drafts generator history i)).matched := by
  unfold verifySampled sampledTargets
  dsimp only
  split_ifs with hfirst hsecond
  · simp [judge, Drafts.toList, Ne.symm hfirst]
  · simp [judge, Drafts.toList, not_not.mp hfirst, Ne.symm hsecond]
  · simp [judge, Drafts.toList, not_not.mp hfirst, not_not.mp hsecond]

theorem greedyRound_ok {token : Token} {s s' : Qwen35.State T H D'}
    (h : greedyRound l n token position s = (.ok tokens, s')) :
    ∃ picked, Qwen35.forwardGreedySpeculative l n 32 token.toNat position s = (.ok picked, s') ∧
      tokens.length = picked.length := by
  obtain ⟨_, s₁, hguard, h⟩ := Procedure.run_bind_eq_ok.mp h
  rw [Procedure.run_require] at hguard
  split_ifs at hguard
  · cases hguard
    obtain ⟨picked, s₂, hround, h⟩ := Procedure.run_bind_eq_ok.mp h
    cases h
    exact ⟨picked, hround, List.length_map _⟩
  · cases hguard

theorem greedyRound_unsupported {token : Token} {s s' : Qwen35.State T H D'}
    (h : greedyRound l n token position s = (.error .unsupported, s')) :
    Qwen35.forwardGreedySpeculative l n 32 token.toNat position s = (.error .unsupported, s') := by
  rcases Procedure.run_bind_eq_error.mp h with h | ⟨_, s₁, hguard, h⟩
  · cases Procedure.faults_require (E := (· = .invalid)) (fun _ => rfl) _ _ _ h
  rw [Procedure.run_require] at hguard
  split_ifs at hguard
  · cases hguard
    rcases Procedure.run_bind_eq_error.mp h with h | ⟨picked, s₂, -, h⟩
    · exact h
    · cases h
  · cases hguard

/-- A round that returns counts two drafts, and the accepted ones are counted right where there were two. -/
theorem speculate_ok_tally (h : speculate setup (A.speculating l n) c ids position g = (.ok tokens, g')) :
    g'.draftTokens = g.draftTokens + 2 ∧
      ((c.needsLogits = false → l.DraftsTwo position) →
        (judgeRound setup A l n c ids position g).verified = 2 ∧
          g'.draftAccepted = g.draftAccepted + (judgeRound setup A l n c ids position g).matched) ∧
      (c.needsLogits = false → ¬ l.DraftsTwo position →
        l.RunsScalar ∧ (judgeRound setup A l n c ids position g).verified ≤ 1) := by
  unfold speculate at h
  unfold judgeRound
  split_ifs at h ⊢ with hneeds htopk
  · obtain ⟨drafts, rows, v, model, hrows, rfl, -, -, rfl⟩ := speculateSampled_ok h
    obtain ⟨m, hm⟩ := Live.answered_of_ok { g.model with prepared := g.current } (fun _ => []) hrows
    have hprepared : (g.model.prepareSampledSpeculativeTopk A g.current position c.options.topK.toNat).1 =
        .ok (drafts, rows) := congrArg Prod.fst hm
    rw [hprepared]
    refine ⟨rfl, fun _ => ⟨rfl, ?_⟩, fun hno => absurd hneeds (Bool.eq_false_iff.mp hno)⟩
    exact congrArg (g.draftAccepted + ·) (verifySampled_accepted _ _ _ _ _ _)
  · obtain ⟨drafts, rows, v, model, hrows, rfl, -, -, rfl⟩ := speculateSampled_ok h
    obtain ⟨m, hm⟩ := Live.answered_of_ok { g.model with prepared := g.current } (fun _ => []) hrows
    have hprepared : (g.model.prepareSampledSpeculative A g.current position).1 = .ok (drafts, rows) :=
      congrArg Prod.fst hm
    rw [hprepared]
    refine ⟨rfl, fun _ => ⟨rfl, ?_⟩, fun hno => absurd hneeds (Bool.eq_false_iff.mp hno)⟩
    exact congrArg (g.draftAccepted + ·) (verifySampled_accepted _ _ _ _ _ _)
  · obtain ⟨model, hreply, -, rfl⟩ := speculateGreedy_ok h
    obtain ⟨s', hround⟩ := engineReply_ok hreply
    obtain ⟨picked, hround, hlength⟩ := greedyRound_ok hround
    obtain ⟨j, s₁, hj, htwo, hone⟩ := Qwen35.judgeGreedy_of_ok (by decide) hround
    rw [hj]
    refine ⟨rfl, fun h => ⟨(htwo (h (Bool.eq_false_iff.mpr hneeds))).1, ?_⟩, fun _ hno => hone hno⟩
    have hpicked := (htwo (h (Bool.eq_false_iff.mpr hneeds))).2
    show g.draftAccepted + (tokens.length - 1) = g.draftAccepted + j.matched
    rw [hlength, hpicked, Nat.add_sub_cancel]

/-- In a sampled round that is refused no draft was verified. -/
theorem judgeSampled_of_unsupported {α : Type} {prepared : Except Fault (Drafts × Rows α) × Live (Qwen35.State T H D')}
    {pick : α → Mt19937 → List Token → ℕ → Token × Mt19937}
    {keep : α → Locals (Qwen35.State T H D') Δ R → Locals (Qwen35.State T H D') Δ R}
    (h : speculateSampled (A.speculating l n) prepared pick keep ids position g = (.error .unsupported, g')) :
    judgeSampled ids prepared.1 pick g = .none := by
  obtain ⟨(f | ⟨drafts, rows⟩), model⟩ := prepared
  · rfl
  · -- the rows are there, so it is the acceptance that was refused
    simp only [speculateSampled] at h
    split at h
    · rename_i f g₁ haccept
      cases h
      unfold acceptVerified at haccept
      dsimp only at haccept
      split at haccept
      · rename_i f m hcall
        cases haccept
        obtain ⟨⟨failure, hreply, hfault⟩, -⟩ := Live.answered_error hcall
        obtain ⟨s, hcall⟩ := engineReply_error hreply
        rw [hfault] at hcall
        cases Qwen35.faults_acceptSampled _ _ _ hcall
      · cases haccept
    · cases h

/-- In a round that is refused no draft was verified. -/
theorem speculate_unsupported_tally
    (h : speculate setup (A.speculating l n) c ids position g = (.error .unsupported, g')) :
    judgeRound setup A l n c ids position g = .none ∧
      (c.needsLogits = false → ¬ l.DraftsTwo position → ¬ l.RunsScalar) := by
  unfold speculate at h
  unfold judgeRound
  split_ifs at h ⊢ with hneeds htopk
  · exact ⟨judgeSampled_of_unsupported h, fun hno => absurd hneeds (Bool.eq_false_iff.mp hno)⟩
  · exact ⟨judgeSampled_of_unsupported h, fun hno => absurd hneeds (Bool.eq_false_iff.mp hno)⟩
  · unfold speculateGreedy at h
    split at h
    · rename_i f m hcall
      cases h
      obtain ⟨⟨failure, hreply, hfault⟩, -⟩ := Live.answered_error hcall
      obtain ⟨s, hround⟩ := engineReply_error hreply
      rw [hfault] at hround
      obtain ⟨hruns, hnone⟩ := Qwen35.judgeGreedy_of_unsupported (by decide) (greedyRound_unsupported hround)
      refine ⟨?_, fun _ => hruns⟩
      rcases hj : Qwen35.judgeGreedy l n 32 g.current.toNat position g.model.oracle with ⟨e | j, s₁⟩
      · rfl
      · exact hnone j s₁ hj
    · cases h

/-! ### One pass -/

/-- What a pass counts, against what it says about its drafts. -/
structure Tallied (fits : Prop) (j : Judgement) (g g' : Locals (Qwen35.State T H D') Δ R) : Prop where
  le : g.draftTokens + j.verified ≤ g'.draftTokens
  eq_iff : g'.draftTokens = g.draftTokens + j.verified ↔ fits
  all_or_none : fits → j.verified = 0 ∨ j.verified = 2
  accepted : fits → g'.draftAccepted = g.draftAccepted + j.matched

/-- A pass that counts nothing and verifies nothing. -/
theorem Tallied.none {fits : Prop} (hfits : fits) (htokens : g'.draftTokens = g.draftTokens)
    (haccepted : g'.draftAccepted = g.draftAccepted) : Tallied fits .none g g' where
  le := htokens.ge
  eq_iff := iff_of_true htokens hfits
  all_or_none := fun _ => .inl rfl
  accepted := fun _ => haccepted

/-- A round that returned. -/
theorem Tallied.round {fits : Prop} {j : Judgement} (htokens : g'.draftTokens = g.draftTokens + 2)
    (htwo : fits → j.verified = 2 ∧ g'.draftAccepted = g.draftAccepted + j.matched)
    (hone : ¬ fits → j.verified ≤ 1) : Tallied fits j g g' := by
  by_cases hfits : fits
  · obtain ⟨hverified, haccepted⟩ := htwo hfits
    exact ⟨by omega, iff_of_true (by omega) hfits, fun _ => .inr hverified, fun _ => haccepted⟩
  · have := hone hfits
    exact ⟨by omega, iff_of_false (by omega) hfits, fun h => absurd h hfits, fun h => absurd h hfits⟩

/-- Drafts behind a rejected one are counted, though the target says nothing about them. -/
theorem Tallied.compared {fits : Prop} {j : Judgement} (h : Tallied fits j g g') :
    g.draftTokens + j.compared ≤ g'.draftTokens ∧
      (g'.draftTokens = g.draftTokens + j.compared ↔ fits ∧ (j.verified ≠ 0 → j.matched ≠ 0)) := by
  obtain ⟨hle, heq, htwo, -⟩ := h
  have hcompared := j.compared_le
  refine ⟨by omega, fun hsame => ?_, fun ⟨hfits, hfirst⟩ => ?_⟩
  · have hfits : fits := heq.mp (by omega)
    refine ⟨hfits, fun hsome hzero => ?_⟩
    have hsame' := heq.mpr hfits
    have := htwo hfits
    rw [Judgement.compared, hzero] at hsame
    split_ifs at hsame
    all_goals omega
  · rw [heq.mpr hfits, Judgement.compared]
    have := htwo hfits
    split_ifs
    all_goals omega

theorem scalarStep_counters {e : Branch} (h : scalarStep setup (A.speculating l n) B c ids position g = .next e g') :
    g'.draftTokens = g.draftTokens ∧ g'.draftAccepted = g.draftAccepted := by
  rcases scalarStep_next h with
    ⟨-, -, _, _, _, _, -, -, -, -, rfl⟩ | ⟨-, -, -, -, _, _, _, _, -, -, -, -, rfl⟩ |
    ⟨-, -, -, -, _, _, _, -, -, -, rfl⟩
  · exact ⟨rfl, rfl⟩
  · exact ⟨rfl, rfl⟩
  · exact ⟨rfl, rfl⟩

/-- A pass that emitted a token and goes on. -/
theorem advance_tallied {e : Branch} (hadvances : advances setup c ids g = true)
    {flow : Flow (Locals (Qwen35.State T H D') Δ R) Branch}
    (h : advance setup (A.speculating l n) B c ids (emit ids g.current g) = flow)
    (hflow : flow = .next e g' ∨ flow = .done e g') :
    Tallied (DraftsTwo setup l c ids g) (judgePass setup A l n c ids g) g g' := by
  have hlength : (emit ids g.current g).generatedIds.length = g.generatedIds.length + 1 := List.length_append
  have hscalar : ∀ {g₀ : Locals (Qwen35.State T H D') Δ R} {position : ℕ},
      scalarStep setup (A.speculating l n) B c ids position g₀ = flow →
      g'.draftTokens = g₀.draftTokens ∧ g'.draftAccepted = g₀.draftAccepted := by
    intro g₀ position hstep
    rcases hflow with rfl | rfl
    · exact scalarStep_counters hstep
    · exact absurd hstep scalarStep_not_done
  unfold advance at h
  dsimp only at h
  rw [hlength, show ids.length + (g.generatedIds.length + 1) - 1 = ids.length + g.generatedIds.length from rfl] at h
  by_cases hspeculates : speculates setup c ids g = true
  · have hround : (g.useNativeMtp && decide (c.maxTokens.toNat - (g.generatedIds.length + 1) ≥ 2)) = true := by
      simpa only [speculates, hadvances, Bool.true_and] using hspeculates
    rw [if_pos (show ((emit ids g.current g).useNativeMtp &&
      decide (c.maxTokens.toNat - (g.generatedIds.length + 1) ≥ 2)) = true from hround)] at h
    rw [judgePass, if_pos hspeculates]
    split at h
    · rename_i tokens g₁ hspeculate
      obtain ⟨htokens, htwo, hone⟩ := speculate_ok_tally hspeculate
      have hcommit : g'.draftTokens = g₁.draftTokens ∧ g'.draftAccepted = g₁.draftAccepted := by
        rcases hflow with rfl | rfl
        · obtain ⟨-, -, -, _, _, -, rfl⟩ := commitSpeculation_next h
          exact ⟨rfl, rfl⟩
        · obtain ⟨-, -, -, -, _, _, -, rfl⟩ := commitSpeculation_done h
          exact ⟨rfl, rfl⟩
      refine .round (hcommit.1.trans htokens) (fun hfits => ?_) fun hfits => ?_
      · rw [hcommit.2]
        refine htwo fun hneeds => ?_
        by_contra hno
        exact hno (hfits hspeculates hneeds (hone hneeds hno).1)
      · simp only [DraftsTwo, not_forall] at hfits
        obtain ⟨-, hneeds, -, hno⟩ := hfits
        exact (hone hneeds hno).2
    · rename_i g₁ hspeculate
      obtain ⟨hnone, hrefused⟩ := speculate_unsupported_tally hspeculate
      obtain ⟨model, generator, history, -, rfl⟩ := speculate_unsupported hspeculate
      obtain ⟨htokens, haccepted⟩ := hscalar h
      rw [hnone]
      refine .none (fun _ hneeds hruns => ?_) htokens haccepted
      by_contra hno
      exact hrefused hneeds hno hruns
    · rcases hflow with rfl | rfl <;> cases h
  · have hround : ¬ (g.useNativeMtp && decide (c.maxTokens.toNat - (g.generatedIds.length + 1) ≥ 2)) = true := by
      simpa only [speculates, hadvances, Bool.true_and] using hspeculates
    rw [if_neg (show ¬ ((emit ids g.current g).useNativeMtp &&
      decide (c.maxTokens.toNat - (g.generatedIds.length + 1) ≥ 2)) = true from hround)] at h
    obtain ⟨htokens, haccepted⟩ := hscalar h
    rw [judgePass, if_neg hspeculates]
    exact .none (fun h => absurd h hspeculates) htokens haccepted

/-- Every pass counts two drafts for a round that returns. -/
theorem generationStep_tallied {e : Branch}
    (h : generationStep setup (A.speculating l n) B c ids g = .next e g' ∨
      generationStep setup (A.speculating l n) B c ids g = .done e g') :
    Tallied (DraftsTwo setup l c ids g) (judgePass setup A l n c ids g) g g' := by
  -- a pass that leaves the loop in front of the model speculates about nothing
  have hstops (hno : advances setup c ids g = false) (htokens : g'.draftTokens = g.draftTokens)
      (haccepted : g'.draftAccepted = g.draftAccepted) :
      Tallied (DraftsTwo setup l c ids g) (judgePass setup A l n c ids g) g g' := by
    have hspeculates : ¬ speculates setup c ids g = true := by simp [speculates, hno]
    rw [judgePass, if_neg hspeculates]
    exact .none (fun h => absurd h hspeculates) htokens haccepted
  rcases h with h | h
  · obtain ⟨hlt, hcontext, hcur, hstop, hadvance⟩ := generationStep_next h
    exact advance_tallied (by simp [advances, hlt, hcontext, hcur, hstop]) hadvance (.inl rfl)
  · rcases generationStep_done h with
      ⟨rfl, ⟨-, hlimit⟩ | ⟨-, hneg⟩⟩ | ⟨-, hstop, rfl⟩ |
      ⟨hcur, hstop, ⟨-, hlast, rfl⟩ | ⟨hlt, hcontext, hadvance⟩⟩
    · refine hstops (Bool.eq_false_iff.mpr fun h => hlimit ?_) rfl rfl
      simp only [advances, Bool.and_eq_true, decide_eq_true_eq] at h
      exact ⟨by omega, h.1.1.2⟩
    · refine hstops (Bool.eq_false_iff.mpr fun h => Int.not_lt.mpr ?_ hneg) rfl rfl
      simp only [advances, Bool.and_eq_true, decide_eq_true_eq] at h
      exact h.1.2
    · exact hstops (by simp [advances, hstop]) rfl rfl
    · exact hstops (by simp [advances, hlast]) rfl rfl
    · exact advance_tallied (by simp [advances, hlt, hcontext, hcur, hstop]) hadvance (.inr rfl)

/-! ### The prompt -/

section

variable {Ω : Type} {setup : Setup} {A : Answers Ω R} {s : Service Ω Δ R} {g g' : Locals Ω Δ R}

/-- Nothing has been counted yet. -/
def Uncounted (g : Locals Ω Δ R) : Prop := g.draftTokens = 0 ∧ g.draftAccepted = 0

theorem claim_uncounted (setup : Setup) (c : Call R) (s : Service Ω Δ R) (ids : List Token) :
    Uncounted (claim setup c s ids) := by
  have htake : Uncounted (takeOver setup c s ids) := by
    unfold takeOver
    dsimp only
    split_ifs
    · exact ⟨rfl, rfl⟩
    · exact ⟨rfl, rfl⟩
  have hreset : Uncounted (resetDraft setup c (takeOver setup c s ids)) := by
    unfold resetDraft
    split_ifs
    · exact htake
    · exact htake
  have hhit : Uncounted (fullHit setup c s ids (resetDraft setup c (takeOver setup c s ids))) := by
    unfold fullHit
    split
    · split_ifs
      · exact hreset
      · exact hreset
    · exact hreset
  unfold claim
  dsimp only
  split_ifs
  · exact hhit
  · exact hreset

theorem promptToken_uncounted {i : ℕ} {token : Token} (hg : Uncounted g)
    (h : promptToken setup A B c ids i token g = .ok g') : Uncounted g' := by
  have hdraft : ∀ {g₀ : Locals Ω Δ R}, Uncounted g₀ → draftStep setup B c token (i - 1) g₀ = .ok g' → Uncounted g' := by
    intro g₀ hg₀ hstep
    obtain ⟨draft, -, rfl⟩ := draftStep_ok hstep
    exact hg₀
  unfold promptToken at h
  dsimp only at h
  split_ifs at h
  all_goals
    split at h
    · cases h
    · refine hdraft ?_ h
      exact hg

theorem promptScalar_uncounted {i : ℕ} {rest : List Token} (hg : Uncounted g)
    (h : promptScalar setup A B c ids i rest g = .ok g') : Uncounted g' := by
  induction rest generalizing i g with
  | nil =>
    cases h
    exact hg
  | cons token rest ih =>
    rw [promptScalar] at h
    split at h
    · cases h
    · rename_i g₁ htoken
      exact ih (promptToken_uncounted hg htoken) h

theorem promptBatches_uncounted {fuel batchBegin : ℕ} {whole : Bool} (hg : Uncounted g)
    (h : promptBatches A c ids fuel batchBegin g = .ok (whole, g')) : Uncounted g' := by
  induction fuel generalizing batchBegin g with
  | zero =>
    cases h
    exact hg
  | succ fuel ih =>
    rw [promptBatches] at h
    dsimp only at h
    split at h
    · cases h
      exact hg
    split at h
    · cases h
      exact hg
    split at h
    · cases h
    split at h
    · cases h
      exact hg
    · refine ih ?_ h
      exact hg

theorem promptPhase_uncounted (hg : Uncounted g) (h : promptPhase setup A B c ids g = .ok g') : Uncounted g' := by
  unfold promptPhase at h
  split at h
  · cases h
  rename_i g₁ hprompt
  cases h
  show Uncounted g₁
  unfold evaluatePrompt at hprompt
  split at hprompt
  · split at hprompt
    · cases hprompt
    · rename_i g₂ hbatches
      cases hprompt
      exact promptBatches_uncounted hg hbatches
    · rename_i g₂ hbatches
      exact promptScalar_uncounted (promptBatches_uncounted hg hbatches) hprompt
  · exact promptScalar_uncounted hg hprompt

end

/-! ### A whole request -/

/-- The tokens of the prompt and the heads of the passes through the generation loop. -/
def heads {Ω : Type} (setup : Setup) (A : Answers Ω R) (B : Answers Δ R) (c : Call R) (s : Service Ω Δ R) :
    List (List Token × Locals Ω Δ R) :=
  match admitted setup c with
  | .error _ => []
  | .ok ids =>
    match promptPhase setup A B c ids (claim setup c s ids) with
    | .error _ => []
    | .ok g =>
      (Loop.passes (generationStep setup A B c ids) (c.maxTokens.toNat + 1) g).map fun p => (ids, p.1)

/-- What a completed request publishes, against what its passes say about their drafts. -/
theorem published_tally (s : Service (Qwen35.State T H D') Δ R)
    (hcompleted : (complete setup (A.speculating l n) B c s).1.code ≠ -1) :
    let published := (complete setup (A.speculating l n) B c s).2
    let passes := heads setup (A.speculating l n) B c s
    (published.lastDraftTokens = (passes.map fun p => (judgePass setup A l n c p.1 p.2).verified).sum ↔
      ∀ p ∈ passes, DraftsTwo setup l c p.1 p.2) ∧
    (published.lastDraftTokens = (passes.map fun p => (judgePass setup A l n c p.1 p.2).compared).sum ↔
      ∀ p ∈ passes, DraftsTwo setup l c p.1 p.2 ∧
        ((judgePass setup A l n c p.1 p.2).verified ≠ 0 → (judgePass setup A l n c p.1 p.2).matched ≠ 0)) ∧
    ((∀ p ∈ passes, DraftsTwo setup l c p.1 p.2) →
      published.lastDraftAccepted = (passes.map fun p => (judgePass setup A l n c p.1 p.2).matched).sum) := by
  intro published passes
  cases hadmitted : admitted setup c with
  | error promptTokens =>
    have hpublished : published.lastDraftTokens = 0 ∧ published.lastDraftAccepted = 0 := by
      simp only [published, complete, hadmitted, and_self]
    have hpasses : passes = [] := by simp only [passes, heads, hadmitted]
    rw [hpasses]
    simp [hpublished]
  | ok ids =>
    cases hserve : serve setup (A.speculating l n) B c s ids with
    | error r =>
      refine absurd ?_ hcompleted
      simp only [complete, hadmitted, hserve]
      rfl
    | ok g' =>
      obtain ⟨g, hprompt, hgenerate⟩ := serve_ok hserve
      obtain ⟨htokens, haccepted⟩ := promptPhase_uncounted (claim_uncounted setup c s ids) hprompt
      have hpublished : published.lastDraftTokens = g'.draftTokens ∧ published.lastDraftAccepted = g'.draftAccepted := by
        simp only [published, complete, hadmitted, hserve, publish]
        split_ifs
        · exact ⟨rfl, rfl⟩
        · exact ⟨rfl, rfl⟩
      have hpasses : passes = (Loop.passes (generationStep setup (A.speculating l n) B c ids)
          (c.maxTokens.toNat + 1) g).map fun p => (ids, p.1) := by
        simp only [passes, heads, hadmitted, hprompt]
      have hverified := Loop.run_tally (f := Locals.draftTokens)
        (fun g₁ e g₂ h => ⟨(generationStep_tallied h).le, (generationStep_tallied h).eq_iff⟩) hgenerate
      have hcompared := Loop.run_tally (f := Locals.draftTokens)
        (fun g₁ e g₂ h => (generationStep_tallied h).compared) hgenerate
      rw [htokens, Nat.zero_add] at hverified hcompared
      rw [hpublished.1, hpublished.2, hpasses]
      simp only [List.map_map, List.forall_mem_map, Function.comp_def]
      refine ⟨hverified.2, hcompared.2, fun hfits => ?_⟩
      have hsum := Loop.run_sum (f := Locals.draftAccepted) (w := fun g => (judgePass setup A l n c ids g).matched)
        (fun p hp => (generationStep_tallied (Loop.of_mem_passes hp)).accepted (hfits p hp)) hgenerate
      rw [haccepted, Nat.zero_add] at hsum
      exact hsum

/-- A completed request publishes the drafts that were verified and those that were accepted exactly when
every greedy round that is not refused verifies two of them.  Drafts behind a rejected one are counted too:
the drafts that were compared are published exactly when, besides, no round rejects its first draft. -/
theorem draft_accounting_iff (setup : Setup) (A : Answers (Qwen35.State T H D') R) (B : Answers Δ R)
    (l : Qwen35.Layout) (n : Qwen35.Networks T H D' L) (c : Call R) (s : Service (Qwen35.State T H D') Δ R)
    (hcompleted : (complete setup (A.speculating l n) B c s).1.code ≠ -1) :
    let published := (complete setup (A.speculating l n) B c s).2
    let passes := heads setup (A.speculating l n) B c s
    let total (figure : Judgement → ℕ) := (passes.map fun p => figure (judgePass setup A l n c p.1 p.2)).sum
    (published.lastDraftTokens = total Judgement.verified ∧ published.lastDraftAccepted = total Judgement.matched ↔
      ∀ p ∈ passes, DraftsTwo setup l c p.1 p.2) ∧
    (published.lastDraftTokens = total Judgement.compared ∧ published.lastDraftAccepted = total Judgement.matched ↔
      ∀ p ∈ passes, DraftsTwo setup l c p.1 p.2 ∧
        ((judgePass setup A l n c p.1 p.2).verified ≠ 0 → (judgePass setup A l n c p.1 p.2).matched ≠ 0)) := by
  intro published passes total
  obtain ⟨hverified, hcompared, haccepted⟩ := published_tally s hcompleted
  refine ⟨⟨fun h => hverified.mp h.1, fun h => ⟨hverified.mpr h, haccepted h⟩⟩,
    ⟨fun h => hcompared.mp h.1, fun h => ⟨hcompared.mpr h, haccepted fun p hp => (h p hp).1⟩⟩⟩

/-! ### A draft head that is always wrong -/

namespace Contrary

/-- The draft head proposes 0 and the target picks 1. -/
def networks : Qwen35.Networks ℕ Unit Unit Unit :=
  { Qwen35.counting with
    vocabularySize := 2
    argmax := fun _ => 1
    argmax_lt := fun _ => Nat.lt_succ_self 1
    drafted_lt := fun _ => Nat.two_pos }

/-- On the processor, the prompt goes through `forward_greedy`; the other calls are not needed. -/
def answers : Answers (Qwen35.State ℕ Unit Unit) ℚ where
  batchSupported _ _ := false
  forward s fed _ _ _ := (.error ⟨.unsupported, fed⟩, s)
  forwardGreedy s fed token position last :=
    let reply := Qwen35.forwardGreedy (Qwen35.onHost true) networks token.toNat position false last last s
    engineReply fed (reply.1.map fun next => ((next.getD 0 : ℕ) : ℤ), reply.2)
  forwardBatch s fed _ _ _ := (.error ⟨.unsupported, fed⟩, s)
  prepareSampledSpeculative s fed _ _ := (.error ⟨.unsupported, fed⟩, s)
  prepareSampledSpeculativeTopk s fed _ _ _ := (.error ⟨.unsupported, fed⟩, s)
  acceptSampledSpeculative s fed _ _ _ := (.error ⟨.unsupported, fed⟩, s)
  forwardGreedySpeculative s fed _ _ := (.error ⟨.unsupported, fed⟩, s)

/-- The service with the engine behind `reset`. -/
def idle : Service (Qwen35.State ℕ Unit Unit) Unit ℚ :=
  { Counting.idle with
    model := ⟨[], 0, 0, { Qwen35.behindOne with target := 0, lastTargetPosition := -1 }⟩ }

def speculating : Answers (Qwen35.State ℕ Unit Unit) ℚ := answers.speculating (Qwen35.onHost true) networks

/-- Three tokens are asked for. -/
def call : Call ℚ := Counting.call [1] 3 0 0 true

def total (figure : Judgement → ℕ) : ℕ :=
  ((heads Counting.setup speculating Counting.answers call idle).map fun p =>
    figure (judgePass Counting.setup answers (Qwen35.onHost true) networks call p.1 p.2)).sum

end Contrary

theorem draft_accounting_contrary :
    let published := (complete Counting.setup Contrary.speculating Counting.answers Contrary.call Contrary.idle).2
    published.lastDraftTokens = Contrary.total Judgement.verified ∧
        published.lastDraftAccepted = Contrary.total Judgement.matched ↔
      ∀ p ∈ heads Counting.setup Contrary.speculating Counting.answers Contrary.call Contrary.idle,
        DraftsTwo Counting.setup (Qwen35.onHost true) Contrary.call p.1 p.2 :=
  (draft_accounting_iff Counting.setup Contrary.answers Counting.answers (Qwen35.onHost true) Contrary.networks
    Contrary.call Contrary.idle (by decide +kernel)).1

/-- One draft was verified, and it was wrong: two are published, and one of them as accepted. -/
theorem draft_accounting_wrong :
    let published := (complete Counting.setup Contrary.speculating Counting.answers Contrary.call Contrary.idle).2
    (published.lastDraftTokens, published.lastDraftAccepted) = (2, 1) ∧
      (Contrary.total Judgement.verified, Contrary.total Judgement.matched) = (1, 0) := by
  decide +kernel

end FortAI
