import FortAI.Service.Prompt

/-!
# The calls of the prompt phase

Which tokens the prompt phase gives to the model, in which calls, at which positions, and for which
of them it asks for logits.  A model is observed through `Answers.recorded`, which answers as before
and writes every call down.

* `Covers` : calls that evaluate a part of the prompt, one after the other.
* `promptPhase_forget` : writing the calls down changes nothing else.
* `promptBatches_fuel` : the batch loop ends by itself.
* `prompt_covered` : the calls of the prompt phase cover what the cache left of the prompt.
-/

namespace FortAI

open Arithmetic

/-- A call of a model, and whether it succeeded. -/
inductive ModelCall
  /-- `forward`, `forward_greedy` or `forward_batch`. -/
  | evaluate (tokens : List Token) (position : ℕ) (computeLogits succeeded : Bool)
  /-- A call of the speculative decoder. -/
  | speculate (succeeded : Bool)
  deriving DecidableEq

namespace ModelCall

def succeeded : ModelCall → Bool
  | evaluate _ _ _ succeeded => succeeded
  | speculate succeeded => succeeded

/-- The tokens of an evaluation, with their positions. -/
def fed : ModelCall → Fed
  | evaluate tokens position _ _ => feedAt position tokens
  | speculate _ => []

end ModelCall

section

variable {Ω R : Type} {α : Type}

/-- A reply, with the call written down behind `calls`. -/
def noted (call : Bool → ModelCall) (calls : List ModelCall) (reply : Except Failure α × Ω) :
    Except Failure α × Ω × List ModelCall :=
  (reply.1, reply.2, calls ++ [call reply.1.isOk])

/-- The same answers; every call is written down. -/
def Answers.recorded (A : Answers Ω R) : Answers (Ω × List ModelCall) R where
  batchSupported ω := A.batchSupported ω.1
  forward ω fed token position computeLogits :=
    noted (.evaluate [token] position computeLogits) ω.2
      (A.forward ω.1 fed token position computeLogits)
  forwardGreedy ω fed token position computeLogits :=
    noted (.evaluate [token] position computeLogits) ω.2
      (A.forwardGreedy ω.1 fed token position computeLogits)
  forwardBatch ω fed tokens position computeLogits :=
    noted (.evaluate tokens position computeLogits) ω.2
      (A.forwardBatch ω.1 fed tokens position computeLogits)
  prepareSampledSpeculative ω fed token position :=
    noted .speculate ω.2 (A.prepareSampledSpeculative ω.1 fed token position)
  prepareSampledSpeculativeTopk ω fed token position topK :=
    noted .speculate ω.2 (A.prepareSampledSpeculativeTopk ω.1 fed token position topK)
  acceptSampledSpeculative ω fed drafts position accepted :=
    noted .speculate ω.2 (A.acceptSampledSpeculative ω.1 fed drafts position accepted)
  forwardGreedySpeculative ω fed token position :=
    noted .speculate ω.2 (A.forwardGreedySpeculative ω.1 fed token position)

/-- The calls written down so far. -/
def Live.record (m : Live (Ω × List ModelCall)) : List ModelCall := m.oracle.2

/-- The model without its record. -/
def Live.forget (m : Live (Ω × List ModelCall)) : Live Ω where
  consumed := m.consumed
  prepared := m.prepared
  calls := m.calls
  oracle := m.oracle.1

/-- The call succeeded or failed, and the record says which. -/
def Live.Notes (m : Live (Ω × List ModelCall)) (call : Bool → ModelCall)
    (r : Except Fault α × Live (Ω × List ModelCall)) : Prop :=
  (∃ a m', r = (.ok a, m') ∧ m'.record = m.record ++ [call true]) ∨
    ∃ f m', r = (.error f, m') ∧ m'.record = m.record ++ [call false]

theorem Live.answered_noted (m : Live (Ω × List ModelCall)) (call : Bool → ModelCall)
    (reply : Except Failure α × Ω) (fed : α → Fed) :
    m.Notes call (m.answered (noted call m.oracle.2 reply) fed) := by
  obtain ⟨(f | a), ω⟩ := reply
  · exact .inr ⟨_, _, rfl, rfl⟩
  · exact .inl ⟨_, _, rfl, rfl⟩

theorem Live.answered_forget (m : Live (Ω × List ModelCall)) (call : Bool → ModelCall)
    (reply : Except Failure α × Ω) (fed : α → Fed) :
    m.forget.answered reply fed =
      ((m.answered (noted call m.oracle.2 reply) fed).1,
        (m.answered (noted call m.oracle.2 reply) fed).2.forget) := by
  obtain ⟨(f | a), ω⟩ := reply <;> rfl

section

variable (A : Answers Ω R) (m : Live (Ω × List ModelCall)) (token : Token) (tokens : List Token)
variable (position : ℕ) (computeLogits : Bool)

theorem Live.forward_forget :
    m.forget.forward A token position computeLogits =
      ((m.forward A.recorded token position computeLogits).1,
        (m.forward A.recorded token position computeLogits).2.forget) :=
  Live.answered_forget _ _ _ _

theorem Live.forwardGreedy_forget :
    m.forget.forwardGreedy A token position computeLogits =
      ((m.forwardGreedy A.recorded token position computeLogits).1,
        (m.forwardGreedy A.recorded token position computeLogits).2.forget) :=
  Live.answered_forget _ _ _ _

theorem Live.forwardBatch_forget :
    m.forget.forwardBatch A tokens position computeLogits =
      ((m.forwardBatch A.recorded tokens position computeLogits).1,
        (m.forwardBatch A.recorded tokens position computeLogits).2.forget) :=
  Live.answered_forget _ _ _ _

end

end

/-! ### Consecutive calls -/

/-- Calls that evaluate the prompt tokens `i` up to `j` (from 0) one after the other, none of them
empty, token `i` at position `i`; those that end at a token with `logits` ask for logits. -/
inductive Covers (ids : List Token) (logits : ℕ → Bool) : ℕ → ℕ → List ModelCall → Prop
  | nil (i : ℕ) : Covers ids logits i i []
  | cons {i k j : ℕ} {calls : List ModelCall} (pos : 0 < k) (le : i + k ≤ ids.length)
      (rest : Covers ids logits (i + k) j calls) :
      Covers ids logits i j (.evaluate ((ids.drop i).take k) i (logits (i + k)) true :: calls)

namespace Covers

variable {ids : List Token} {logits : ℕ → Bool} {i j k : ℕ} {calls calls' : List ModelCall}

theorem append (h : Covers ids logits i j calls) (h' : Covers ids logits j k calls') :
    Covers ids logits i k (calls ++ calls') := by
  induction h with
  | nil => exact h'
  | cons pos le _ ih => exact cons pos le (ih h')

theorem single (h : i < ids.length) (token : Token) (htoken : ids[i] = token) :
    Covers ids logits i (i + 1) [.evaluate [token] i (logits (i + 1)) true] := by
  have htake : (ids.drop i).take 1 = [token] := by
    rw [List.drop_eq_getElem_cons h, htoken]
    rfl
  have hcall : Covers ids logits i (i + 1) _ := cons Nat.one_pos h (nil (i + 1))
  rwa [htake] at hcall

theorem le (h : Covers ids logits i j calls) : i ≤ j := by
  induction h with
  | nil => exact Nat.le_refl _
  | cons pos _ _ ih => omega

/-- Together the calls feed each token once, in order, at its own position. -/
theorem flatMap_fed (h : Covers ids logits i j calls) :
    calls.flatMap ModelCall.fed = feedAt i ((ids.drop i).take (j - i)) := by
  induction h with
  | nil => simp [feedAt]
  | @cons i k j calls pos hle rest ih =>
    have hsplit : j - i = k + (j - (i + k)) := by have := rest.le; omega
    have hlength : ((ids.drop i).take k).length = k := by simp; omega
    rw [List.flatMap_cons, ih, hsplit, List.take_add, List.drop_drop, feedAt_append, hlength]
    rfl

/-- Every call is an evaluation of at least one token, and asks for logits as its end says. -/
theorem of_mem (h : Covers ids logits i j calls) {call : ModelCall} (hcall : call ∈ calls) :
    ∃ tokens position, call = .evaluate tokens position (logits (position + tokens.length)) true ∧
      tokens ≠ [] := by
  induction h with
  | nil => cases hcall
  | @cons i k j calls pos hle rest ih =>
    rcases List.mem_cons.mp hcall with rfl | hcall
    · have hlength : ((ids.drop i).take k).length = k := by simp; omega
      exact ⟨_, _, by rw [hlength], List.ne_nil_of_length_pos (hlength.symm ▸ pos)⟩
    · exact ih hcall

end Covers

/-! ### Runs with a record -/

section

variable {Ω Δ R D : Type} [Arithmetic R D]

/-- The working variables of a run whose models are recorded. -/
abbrev Recorded (Ω Δ R : Type) := Locals (Ω × List ModelCall) (Δ × List ModelCall) R

/-- What a phase leaves behind, whether it succeeded or failed. -/
def outcome {α : Type} : Except α α → α
  | .ok a => a
  | .error a => a

/-- What a part of the prompt phase did from `g` on: unless a call failed, it succeeded, and its
calls cover the prompt tokens from `i` to `j`; the standalone draft, if it is in use, was fed the
same tokens one at a time. -/
def Evaluates (setup : Setup) (c : Call R) (ids : List Token) (i j : ℕ) (g : Recorded Ω Δ R)
    (r : Except (Recorded Ω Δ R) (Recorded Ω Δ R)) : Prop :=
  ∃ calls drafted, (outcome r).model.record = g.model.record ++ calls ∧
    (outcome r).draft.record = g.draft.record ++ drafted ∧
    ((∀ call ∈ calls ++ drafted, call.succeeded = true) → r = .ok (outcome r) ∧
      Covers ids (fun last => decide (last = ids.length)) i j calls ∧
      (c.useExternalDraft setup = true → Covers ids (fun _ => true) i j drafted) ∧
      (c.useExternalDraft setup = false → drafted = []))

/-- What the batch loop did from `g` on: its calls cover the prompt up to where `prompt_start` stands,
which is behind the prompt when the loop says that the whole of it has been evaluated. -/
def EvaluatesBatches (setup : Setup) (c : Call R) (ids : List Token) (i : ℕ) (g : Recorded Ω Δ R)
    (r : Except (Recorded Ω Δ R) (Bool × Recorded Ω Δ R)) : Prop :=
  ∃ j ≤ ids.length, Evaluates setup c ids i j g (r.map Prod.snd) ∧
    ∀ whole g', r = .ok (whole, g') → g'.promptStart = j + 1 ∧ (whole = true → j = ids.length)

variable {setup : Setup} {A : Answers Ω R} {B : Answers Δ R} {c : Call R}
variable {s : Service (Ω × List ModelCall) (Δ × List ModelCall) R} {ids : List Token} {i j k : ℕ}
variable {g g' : Recorded Ω Δ R} {r : Except (Recorded Ω Δ R) (Recorded Ω Δ R)}

theorem Evaluates.nil (i : ℕ) (g : Recorded Ω Δ R) : Evaluates setup c ids i i g (.ok g) :=
  ⟨[], [], (List.append_nil _).symm, (List.append_nil _).symm,
    fun _ => ⟨rfl, .nil i, fun _ => .nil i, fun _ => rfl⟩⟩

theorem Evaluates.trans (h : Evaluates setup c ids i j g (.ok g'))
    (h' : Evaluates setup c ids j k g' r) : Evaluates setup c ids i k g r := by
  obtain ⟨calls, drafted, hcalls, hdrafted, hok⟩ := h
  obtain ⟨calls', drafted', hcalls', hdrafted', hok'⟩ := h'
  refine ⟨calls ++ calls', drafted ++ drafted', ?_, ?_, fun hall => ?_⟩
  · rw [hcalls', show g'.model.record = _ from hcalls, List.append_assoc]
  · rw [hdrafted', show g'.draft.record = _ from hdrafted, List.append_assoc]
  · simp only [List.mem_append] at hall
    obtain ⟨-, hcover, huse, hnone⟩ := hok fun call hcall => hall call (by
      rcases List.mem_append.mp hcall with h | h <;> simp [h])
    obtain ⟨hr, hcover', huse', hnone'⟩ := hok' fun call hcall => hall call (by
      rcases List.mem_append.mp hcall with h | h <;> simp [h])
    refine ⟨hr, hcover.append hcover', fun hd => (huse hd).append (huse' hd), fun hd => ?_⟩
    rw [hnone hd, hnone' hd, List.append_nil]

/-- A failed call ends the run. -/
theorem Evaluates.failed {call : ModelCall} (hfailed : call.succeeded = false)
    (hcall : g'.model.record = g.model.record ++ [call]) (hdraft : g'.draft = g.draft) :
    Evaluates setup c ids i j g (.error g') := by
  refine ⟨[call], [], hcall, by rw [List.append_nil]; exact congrArg Live.record hdraft, fun hall => ?_⟩
  have := hall call (by simp)
  rw [hfailed] at this
  exact absurd this Bool.false_ne_true

/-- The model has been given token `i`; the draft step follows suit. -/
theorem evaluates_draftStep {token : Token} (hlt : i < ids.length) (htoken : ids[i] = token)
    (hmodel : g'.model.record =
      g.model.record ++ [.evaluate [token] i (decide (i + 1 = ids.length)) true])
    (hdraft : g'.draft = g.draft) :
    Evaluates setup c ids i (i + 1) g (draftStep setup B.recorded c token i g') := by
  unfold draftStep
  split_ifs with hd
  · have hcall : g'.draft.Notes (.evaluate [token] i true)
        (g'.draft.forwardGreedy B.recorded token i true) := Live.answered_noted _ _ _ _
    rcases hcall with ⟨next, draft, hcall, hrecord⟩ | ⟨f, draft, hcall, hrecord⟩
    · rw [hdraft] at hrecord
      rw [hcall]
      exact ⟨_, _, hmodel, hrecord, fun _ => ⟨rfl, .single hlt token htoken,
        fun _ => .single hlt token htoken, fun h => absurd hd (by simp [h])⟩⟩
    · rw [hdraft] at hrecord
      rw [hcall]
      refine ⟨_, _, hmodel, hrecord, fun hall => ?_⟩
      exact absurd (hall _ (List.mem_append_right _ List.mem_cons_self)) Bool.false_ne_true
  · exact ⟨_, [], hmodel, by rw [List.append_nil]; exact congrArg Live.record hdraft,
      fun _ => ⟨rfl, .single hlt token htoken, fun h => absurd h hd, fun _ => rfl⟩⟩

theorem evaluates_promptToken {token : Token} (hlt : i < ids.length) (htoken : ids[i] = token) :
    Evaluates setup c ids i (i + 1) g
      (promptToken setup A.recorded B.recorded c ids (i + 1) token g) := by
  unfold promptToken
  simp only [Nat.add_sub_cancel]
  by_cases hneeds : c.needsLogits = true
  · rw [if_pos hneeds]
    have hcall : g.model.Notes (.evaluate [token] i (decide (i + 1 = ids.length)))
        (g.model.forward A.recorded token i (decide (i + 1 = ids.length))) :=
      Live.answered_noted _ _ _ _
    rcases hcall with ⟨logits, model, hcall, hrecord⟩ | ⟨f, model, hcall, hrecord⟩
    · rw [hcall]
      exact evaluates_draftStep hlt htoken hrecord rfl
    · rw [hcall]
      exact .failed rfl hrecord rfl
  · rw [if_neg hneeds]
    have hcall : g.model.Notes (.evaluate [token] i (decide (i + 1 = ids.length)))
        (g.model.forwardGreedy A.recorded token i (decide (i + 1 = ids.length))) :=
      Live.answered_noted _ _ _ _
    rcases hcall with ⟨next, model, hcall, hrecord⟩ | ⟨f, model, hcall, hrecord⟩
    · rw [hcall]
      exact evaluates_draftStep hlt htoken hrecord rfl
    · rw [hcall]
      exact .failed rfl hrecord rfl

/-- The scalar loop covers the rest of the prompt. -/
theorem evaluates_promptScalar {rest : List Token} (hle : i ≤ ids.length) (hrest : rest = ids.drop i) :
    Evaluates setup c ids i ids.length g
      (promptScalar setup A.recorded B.recorded c ids (i + 1) rest g) := by
  induction rest generalizing i g with
  | nil =>
    obtain rfl : i = ids.length := by
      have := congrArg List.length hrest
      simp at this
      omega
    exact .nil _ _
  | cons token rest ih =>
    have hlt : i < ids.length := by
      have := congrArg List.length hrest
      simp at this
      omega
    rw [List.drop_eq_getElem_cons hlt, List.cons.injEq] at hrest
    have hstep : Evaluates setup c ids i (i + 1) g
        (promptToken setup A.recorded B.recorded c ids (i + 1) token g) :=
      evaluates_promptToken hlt hrest.1.symm
    simp only [promptScalar]
    cases hr : promptToken setup A.recorded B.recorded c ids (i + 1) token g with
    | error g₁ =>
      rw [hr] at hstep
      obtain ⟨calls, drafted, hcalls, hdrafted, hok⟩ := hstep
      exact ⟨calls, drafted, hcalls, hdrafted, fun hall => absurd (hok hall).1 (fun h => by cases h)⟩
    | ok g₁ =>
      rw [hr] at hstep
      exact hstep.trans (ih hlt hrest.2)

theorem evaluates_promptRest (hi : g.promptStart = i + 1) (hle : i ≤ ids.length) :
    Evaluates setup c ids i ids.length g (promptRest setup A.recorded B.recorded c ids g) := by
  unfold promptRest
  rw [hi]
  exact evaluates_promptScalar hle rfl

/-- A batch of `k` tokens succeeded. -/
theorem evaluates_batch (hd : c.useExternalDraft setup = false) (hk : 0 < k)
    (hle : i + k ≤ ids.length) (hdraft : g'.draft = g.draft)
    (hmodel : g'.model.record = g.model.record ++
      [.evaluate ((ids.drop i).take k) i (decide (i + k = ids.length)) true]) :
    Evaluates setup c ids i (i + k) g (.ok g') := by
  refine ⟨_, [], hmodel, by rw [List.append_nil]; exact congrArg Live.record hdraft, fun _ => ?_⟩
  exact ⟨rfl, .cons hk hle (.nil _), fun h => absurd h (by simp [hd]), fun _ => rfl⟩

/-- The batches cover the prompt up to where they stop. -/
theorem evaluates_promptBatches (hd : c.useExternalDraft setup = false) (hcap : 1 < c.batchCapacity) :
    ∀ (fuel : ℕ) {i : ℕ} {g : Recorded Ω Δ R}, i ≤ ids.length → g.promptStart = i + 1 →
      EvaluatesBatches setup c ids i g (promptBatches A.recorded c ids fuel (i + 1) g) := by
  intro fuel
  induction fuel with
  | zero =>
    intro i g hle hstart
    refine ⟨i, hle, .nil i g, fun whole g' h => ?_⟩
    cases h
    exact ⟨hstart, fun h => absurd h Bool.false_ne_true⟩
  | succ fuel ih =>
    intro i g hle hstart
    -- the loop stops here: the prompt is at its end, or the layout refuses the chunk
    have hstop : EvaluatesBatches setup c ids i g (.ok (false, g)) := by
      refine ⟨i, hle, .nil i g, fun whole g' h => ?_⟩
      cases h
      exact ⟨hstart, fun h => absurd h Bool.false_ne_true⟩
    simp only [promptBatches, Nat.add_sub_cancel]
    by_cases hmore : i + 1 > ids.length
    · rw [if_pos hmore]
      exact hstop
    rw [if_neg hmore]
    set count := batchCount c.batchCapacity (ids.length - (i + 1) + 1) with hcount
    have hfit : i + count ≤ ids.length := by
      have := batchCount_le c.batchCapacity (ids.length - (i + 1) + 1)
      omega
    have hpos : 0 < count := batchCount_pos hcap (by omega)
    have hend : i + 1 + count - 1 = i + count := by omega
    rw [hend]
    by_cases hsupported : (!A.recorded.batchSupported g.model.oracle count) = true
    · rw [if_pos hsupported]
      exact hstop
    rw [if_neg hsupported]
    have hcall : g.model.Notes
        (.evaluate ((ids.drop i).take count) i (decide (i + count = ids.length)))
        (g.model.forwardBatch A.recorded ((ids.drop i).take count) i
          (decide (i + count = ids.length))) := Live.answered_noted _ _ _ _
    rcases hcall with ⟨logits, model, hcall, hrecord⟩ | ⟨f, model, hcall, hrecord⟩
    · rw [hcall]
      by_cases hlast : i + count = ids.length
      · simp only [if_pos hlast]
        refine ⟨i + count, hfit, evaluates_batch hd hpos hfit rfl hrecord, fun whole g' h => ?_⟩
        cases h
        exact ⟨rfl, fun _ => hlast⟩
      · simp only [if_neg hlast]
        set g₁ : Recorded Ω Δ R := { g with
          model := model, logits := some logits, stateCount := i + count,
          promptStart := i + count + 1 }
        obtain ⟨j, hj, hrest, hstop⟩ := ih (g := g₁) hfit rfl
        have hbatch : Evaluates setup c ids i (i + count) g (.ok g₁) :=
          evaluates_batch hd hpos hfit rfl hrecord
        exact ⟨j, hj, hbatch.trans hrest, hstop⟩
    · rw [hcall]
      exact ⟨i, hle, .failed rfl hrecord rfl, fun whole g' h => by cases h⟩

theorem evaluates_evaluatePrompt (hi : g.promptStart = i + 1) (hle : i ≤ ids.length) :
    Evaluates setup c ids i ids.length g
      (evaluatePrompt setup A.recorded B.recorded c ids g) := by
  unfold evaluatePrompt
  split_ifs with hbatch
  · simp only [Bool.and_eq_true, Bool.not_eq_true', decide_eq_true_eq] at hbatch
    obtain ⟨j, hj, hbatches, hstop⟩ := evaluates_promptBatches (A := A) hbatch.1.1 hbatch.2
      ids.length hle hi
    rw [hi]
    cases hr : promptBatches A.recorded c ids ids.length (i + 1) g with
    | error g₁ =>
      rw [hr] at hbatches
      obtain ⟨calls, drafted, hcalls, hdrafted, hok⟩ := hbatches
      exact ⟨calls, drafted, hcalls, hdrafted, fun hall => absurd (hok hall).1 (fun h => by cases h)⟩
    | ok r =>
      obtain ⟨whole, g₁⟩ := r
      rw [hr] at hbatches
      obtain ⟨hstart, hwhole⟩ := hstop whole g₁ hr
      cases whole with
      | true => exact hwhole rfl ▸ hbatches
      | false => exact hbatches.trans (evaluates_promptRest hstart hj)
  · exact evaluates_promptRest hi hle

theorem evaluates_promptPhase (hi : g.promptStart = i + 1) (hle : i ≤ ids.length) :
    Evaluates setup c ids i ids.length g
      (promptPhase setup A.recorded B.recorded c ids g) := by
  have hprompt : Evaluates setup c ids i ids.length g
      (evaluatePrompt setup A.recorded B.recorded c ids g) := evaluates_evaluatePrompt hi hle
  unfold promptPhase
  cases hr : evaluatePrompt setup A.recorded B.recorded c ids g with
  | error g₁ =>
    rw [hr] at hprompt
    exact hprompt
  | ok g₁ =>
    rw [hr] at hprompt
    obtain ⟨calls, drafted, hcalls, hdrafted, hok⟩ := hprompt
    exact ⟨calls, drafted, hcalls, hdrafted, fun hall => ⟨rfl, (hok hall).2⟩⟩

/-- The prompt starts behind the cached prefix, at the latest behind the prompt itself. -/
theorem claim_start (setup : Setup) (c : Call R) (s : Service Ω Δ R) (ids : List Token) :
    1 ≤ (claim setup c s ids).promptStart ∧ (claim setup c s ids).promptStart ≤ ids.length + 1 := by
  have htaken : 1 ≤ (takeOver setup c s ids).promptStart ∧
      (takeOver setup c s ids).promptStart ≤ ids.length + 1 := by
    unfold takeOver
    cases hit : cacheHit setup c s ids with
    | false => simp [initialLocals]
    | true =>
      obtain ⟨-, -, hle, -⟩ := prefixHit_spec (cacheHit_prefixHit hit)
      simpa using hle
  have hreset : (resetDraft setup c (takeOver setup c s ids)).promptStart =
      (takeOver setup c s ids).promptStart := by
    unfold resetDraft
    split_ifs <;> rfl
  unfold claim
  dsimp only
  split_ifs
  · obtain ⟨logits, current, generator, heq, -⟩ :=
      fullHit_spec setup c s ids (resetDraft setup c (takeOver setup c s ids))
    rw [heq]
    exact hreset.symm ▸ htaken
  · exact hreset.symm ▸ htaken

/-- Claiming the cache is no call of a model. -/
theorem claim_record (setup : Setup) (c : Call R)
    (s : Service (Ω × List ModelCall) (Δ × List ModelCall) R) (ids : List Token) :
    (claim setup c s ids).model.record = s.model.record ∧
      (claim setup c s ids).draft.record = s.draft.record := by
  have htaken : (takeOver setup c s ids).model.record = s.model.record ∧
      (takeOver setup c s ids).draft.record = s.draft.record := by
    unfold takeOver
    dsimp only
    split_ifs <;> exact ⟨rfl, rfl⟩
  have hreset : (resetDraft setup c (takeOver setup c s ids)).model.record = s.model.record ∧
      (resetDraft setup c (takeOver setup c s ids)).draft.record = s.draft.record := by
    unfold resetDraft
    split_ifs <;> exact htaken
  unfold claim
  dsimp only
  split_ifs
  · obtain ⟨logits, current, generator, heq, -⟩ :=
      fullHit_spec setup c s ids (resetDraft setup c (takeOver setup c s ids))
    rw [heq]
    exact hreset
  · exact hreset

/-! ### The loop ends -/

/-- With enough fuel the batch loop ends by itself, however much more there is. -/
theorem promptBatches_fuel (A : Answers Ω R) (hcap : 1 < c.batchCapacity) :
    ∀ {fuel fuel' begin : ℕ} (g : Locals Ω Δ R), ids.length + 1 ≤ fuel + begin → fuel ≤ fuel' →
      promptBatches A c ids fuel' begin g = promptBatches A c ids fuel begin g := by
  intro fuel
  induction fuel with
  | zero =>
    intro fuel' begin g henough _
    cases fuel' with
    | zero => rfl
    | succ fuel' =>
      have hend : begin > ids.length := by omega
      simp only [promptBatches, hend, if_true]
  | succ fuel ih =>
    intro fuel' begin g henough hmore
    cases fuel' with
    | zero => omega
    | succ fuel' =>
      simp only [promptBatches]
      by_cases hend : begin > ids.length
      · rw [if_pos hend, if_pos hend]
      rw [if_neg hend, if_neg hend]
      have hpos : 0 < batchCount c.batchCapacity (ids.length - begin + 1) :=
        batchCount_pos hcap (Nat.succ_pos _)
      split_ifs
      · rfl
      · rfl
      · split
        · rfl
        · exact ih _ (by omega) (by omega)

/-! ### Recording changes nothing -/

/-- The working variables without the records. -/
def Locals.forget (g : Recorded Ω Δ R) : Locals Ω Δ R where
  model := g.model.forget
  draft := g.draft.forget
  generator := g.generator
  current := g.current
  logits := g.logits
  cacheResultLogitsValid := g.cacheResultLogitsValid
  history := g.history
  stateTokens := g.stateTokens
  stateCount := g.stateCount
  generatedIds := g.generatedIds
  stopTokenCount := g.stopTokenCount
  useNativeMtp := g.useNativeMtp
  promptStart := g.promptStart
  lastPromptTokens := g.lastPromptTokens
  draftTokens := g.draftTokens
  draftAccepted := g.draftAccepted

def forgetRecord : Except (Recorded Ω Δ R) (Recorded Ω Δ R) → Except (Locals Ω Δ R) (Locals Ω Δ R)
  | .ok g => .ok g.forget
  | .error g => .error g.forget

/-- The service without the records. -/
def Service.forget (s : Service (Ω × List ModelCall) (Δ × List ModelCall) R) : Service Ω Δ R where
  model := s.model.forget
  draft := s.draft.forget
  cacheTokens := s.cacheTokens
  cacheLogits := s.cacheLogits
  cacheCount := s.cacheCount
  cacheNextToken := s.cacheNextToken
  cacheValid := s.cacheValid
  cacheLogitsValid := s.cacheLogitsValid
  lastPromptTokens := s.lastPromptTokens
  lastGenerationTokens := s.lastGenerationTokens
  lastDraftTokens := s.lastDraftTokens
  lastDraftAccepted := s.lastDraftAccepted

theorem draftStep_forget (token : Token) (position : ℕ) (g : Recorded Ω Δ R) :
    draftStep setup B c token position g.forget =
      forgetRecord (draftStep setup B.recorded c token position g) := by
  unfold draftStep
  split_ifs
  · rw [show g.forget.draft.forwardGreedy B token position true = _ from
      Live.forwardGreedy_forget B g.draft token position true]
    rcases g.draft.forwardGreedy B.recorded token position true with ⟨(f | next), draft⟩ <;> rfl
  · rfl

theorem promptToken_forget (i : ℕ) (token : Token) (g : Recorded Ω Δ R) :
    promptToken setup A B c ids i token g.forget =
      forgetRecord (promptToken setup A.recorded B.recorded c ids i token g) := by
  unfold promptToken
  dsimp only
  by_cases hneeds : c.needsLogits = true
  · rw [if_pos hneeds, if_pos hneeds]
    rw [show g.forget.model.forward A token (i - 1) _ = _ from
      Live.forward_forget A g.model token (i - 1) (decide (i = ids.length))]
    rcases g.model.forward A.recorded token (i - 1) (decide (i = ids.length)) with ⟨(f | logits), model⟩
    · rfl
    · let picked := if decide (i = ids.length) = true then pickToken c logits g.generator g.history i
        else (g.current, g.generator)
      let g₁ : Recorded Ω Δ R := { g with
        model := model, logits := some logits, current := picked.1, generator := picked.2,
        stateCount := i }
      exact draftStep_forget token (i - 1) g₁
  · rw [if_neg hneeds, if_neg hneeds]
    rw [show g.forget.model.forwardGreedy A token (i - 1) _ = _ from
      Live.forwardGreedy_forget A g.model token (i - 1) (decide (i = ids.length))]
    rcases g.model.forwardGreedy A.recorded token (i - 1) (decide (i = ids.length)) with ⟨(f | next), model⟩
    · rfl
    · let g₁ : Recorded Ω Δ R := { g with model := model, current := next, stateCount := i }
      exact draftStep_forget token (i - 1) g₁

theorem promptScalar_forget (rest : List Token) :
    ∀ (i : ℕ) (g : Recorded Ω Δ R),
      promptScalar setup A B c ids i rest g.forget =
        forgetRecord (promptScalar setup A.recorded B.recorded c ids i rest g) := by
  induction rest with
  | nil => intro i g; rfl
  | cons token rest ih =>
    intro i g
    simp only [promptScalar, promptToken_forget]
    cases promptToken setup A.recorded B.recorded c ids i token g with
    | error g₁ => rfl
    | ok g₁ => exact ih (i + 1) g₁

/-- The batch loop, with its result without the records. -/
theorem promptBatches_forget (fuel : ℕ) :
    ∀ (begin : ℕ) (g : Recorded Ω Δ R),
      promptBatches A c ids fuel begin g.forget =
        match promptBatches A.recorded c ids fuel begin g with
        | .ok (whole, g) => .ok (whole, g.forget)
        | .error g => .error g.forget := by
  induction fuel with
  | zero => intro begin g; rfl
  | succ fuel ih =>
    intro begin g
    simp only [promptBatches]
    by_cases hend : begin > ids.length
    · rw [if_pos hend, if_pos hend]
    rw [if_neg hend, if_neg hend]
    set count := batchCount c.batchCapacity (ids.length - begin + 1)
    rw [show A.batchSupported g.forget.model.oracle count =
      A.recorded.batchSupported g.model.oracle count from rfl]
    by_cases hsupported : (!A.recorded.batchSupported g.model.oracle count) = true
    · rw [if_pos hsupported, if_pos hsupported]
    rw [if_neg hsupported, if_neg hsupported]
    rw [show g.forget.model.forwardBatch A _ _ _ = _ from
      Live.forwardBatch_forget A g.model ((ids.drop (begin - 1)).take count) (begin - 1)
        (decide (begin + count - 1 = ids.length))]
    rcases g.model.forwardBatch A.recorded ((ids.drop (begin - 1)).take count) (begin - 1)
      (decide (begin + count - 1 = ids.length)) with ⟨(f | logits), model⟩
    · rfl
    by_cases hlast : begin + count - 1 = ids.length
    · simp only [if_pos hlast]
      rfl
    · simp only [if_neg hlast]
      let g₁ : Recorded Ω Δ R := { g with
        model := model, logits := some logits, stateCount := begin + count - 1,
        promptStart := begin + count - 1 + 1 }
      exact ih (begin + count - 1 + 1) g₁

theorem promptPhase_forget (g : Recorded Ω Δ R) :
    promptPhase setup A B c ids g.forget =
      forgetRecord (promptPhase setup A.recorded B.recorded c ids g) := by
  have hprompt : evaluatePrompt setup A B c ids g.forget =
      forgetRecord (evaluatePrompt setup A.recorded B.recorded c ids g) := by
    unfold evaluatePrompt
    rw [show g.forget.promptStart = g.promptStart from rfl]
    split_ifs
    · rw [promptBatches_forget]
      rcases promptBatches A.recorded c ids ids.length g.promptStart g with g₁ | ⟨whole, g₁⟩
      · rfl
      · cases whole
        · exact promptScalar_forget _ _ _
        · rfl
    · exact promptScalar_forget _ _ _
  unfold promptPhase
  rw [hprompt]
  cases evaluatePrompt setup A.recorded B.recorded c ids g <;> rfl

theorem fullHit_forget (s : Service (Ω × List ModelCall) (Δ × List ModelCall) R)
    (g : Recorded Ω Δ R) :
    fullHit setup c s.forget ids g.forget = (fullHit setup c s ids g).forget := by
  unfold fullHit
  rw [show s.forget.cacheLogits = s.cacheLogits from rfl,
    show cacheLogitsUsable setup s.forget = cacheLogitsUsable setup s from rfl]
  cases s.cacheLogits with
  | none => rfl
  | some logits =>
    dsimp only
    split_ifs <;> rfl

theorem claim_forget (s : Service (Ω × List ModelCall) (Δ × List ModelCall) R) :
    claim setup c s.forget ids = (claim setup c s ids).forget := by
  have hhit : cacheHit setup c s.forget ids = cacheHit setup c s ids := rfl
  have htaken : takeOver setup c s.forget ids = (takeOver setup c s ids).forget := by
    unfold takeOver
    dsimp only
    rw [hhit]
    split_ifs <;> rfl
  have hreset : resetDraft setup c (takeOver setup c s.forget ids) =
      (resetDraft setup c (takeOver setup c s ids)).forget := by
    rw [htaken]
    unfold resetDraft
    split_ifs <;> rfl
  unfold claim
  dsimp only
  rw [hreset, hhit, show ((resetDraft setup c (takeOver setup c s ids)).forget).promptStart =
    (resetDraft setup c (takeOver setup c s ids)).promptStart from rfl]
  split_ifs
  · rw [fullHit_forget]
    rfl
  · rfl

/-! ### The whole prompt phase -/

/-- The service with empty records. -/
def Service.recorded (s : Service Ω Δ R) :
    Service (Ω × List ModelCall) (Δ × List ModelCall) R where
  model := ⟨s.model.consumed, s.model.prepared, s.model.calls, s.model.oracle, []⟩
  draft := ⟨s.draft.consumed, s.draft.prepared, s.draft.calls, s.draft.oracle, []⟩
  cacheTokens := s.cacheTokens
  cacheLogits := s.cacheLogits
  cacheCount := s.cacheCount
  cacheNextToken := s.cacheNextToken
  cacheValid := s.cacheValid
  cacheLogitsValid := s.cacheLogitsValid
  lastPromptTokens := s.lastPromptTokens
  lastGenerationTokens := s.lastGenerationTokens
  lastDraftTokens := s.lastDraftTokens
  lastDraftAccepted := s.lastDraftAccepted

/-- Unless one of its calls fails, the prompt phase succeeds; its calls give the prompt tokens from
`prompt_start` on to the model, each once, in order, token `i` (from 1) at position `i - 1`, and those
whose last token is the last of the prompt, and no others, ask for logits.  The batch loop ends by
itself, and the run with records is the run of the source. -/
theorem prompt_covered (setup : Setup) (A : Answers Ω R) (B : Answers Δ R) (c : Call R)
    (s : Service Ω Δ R) (ids : List Token) :
    let g := claim setup c s ids
    let r := promptPhase setup A.recorded B.recorded c ids (claim setup c s.recorded ids)
    ∃ calls drafted, (outcome r).model.record = calls ∧ (outcome r).draft.record = drafted ∧
      promptPhase setup A B c ids g = forgetRecord r ∧
      (1 < c.batchCapacity → ∀ fuel, ids.length ≤ fuel →
        promptBatches A c ids fuel g.promptStart g = promptBatches A c ids ids.length g.promptStart g) ∧
      ((∀ call ∈ calls ++ drafted, call.succeeded = true) → r = .ok (outcome r) ∧
        calls.flatMap ModelCall.fed = feedAt (g.promptStart - 1) (ids.drop (g.promptStart - 1)) ∧
        (∀ call ∈ calls, ∃ tokens position, tokens ≠ [] ∧
          call = .evaluate tokens position (decide (position + tokens.length = ids.length)) true) ∧
        drafted.flatMap ModelCall.fed = if c.useExternalDraft setup then
          feedAt (g.promptStart - 1) (ids.drop (g.promptStart - 1)) else []) := by
  intro g r
  have hbounds : 1 ≤ g.promptStart ∧ g.promptStart ≤ ids.length + 1 := claim_start setup c s ids
  obtain ⟨hpos, hle⟩ := hbounds
  have hforget : g = (claim setup c s.recorded ids).forget := claim_forget s.recorded
  have hstart : (claim setup c s.recorded ids).promptStart = g.promptStart := hforget ▸ rfl
  have hrecord := claim_record setup c s.recorded ids
  have hevaluates : Evaluates setup c ids (g.promptStart - 1) ids.length
      (claim setup c s.recorded ids) r := evaluates_promptPhase (by omega) (by omega)
  obtain ⟨calls, drafted, hcalls, hdrafted, hok⟩ := hevaluates
  refine ⟨calls, drafted, hcalls.trans (by rw [hrecord.1]; rfl),
    hdrafted.trans (by rw [hrecord.2]; rfl), ?_, fun hcap fuel hfuel => ?_, fun hall => ?_⟩
  · rw [hforget]
    exact promptPhase_forget _
  · exact promptBatches_fuel A hcap g (by omega) hfuel
  obtain ⟨hr, hcover, hexternal, hnone⟩ := hok hall
  have htake : (ids.drop (g.promptStart - 1)).take (ids.length - (g.promptStart - 1)) =
      ids.drop (g.promptStart - 1) := List.take_of_length_le (by simp)
  refine ⟨hr, by rw [hcover.flatMap_fed, htake], fun call hcall => ?_, ?_⟩
  · obtain ⟨tokens, position, hcall, hne⟩ := hcover.of_mem hcall
    exact ⟨tokens, position, hne, hcall⟩
  · cases hd : c.useExternalDraft setup with
    | true => rw [(hexternal hd).flatMap_fed, htake, if_pos rfl]
    | false =>
      rw [hnone hd]
      rfl

end

end FortAI
