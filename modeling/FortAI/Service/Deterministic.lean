import FortAI.Service.Completion
import Mathlib.Algebra.Order.Field.Rat

/-!
# A deterministic model

`Answers.ofTarget` answers every call from a function `target` that gives the logits after a list of
consumed tokens; its verification batches are evaluated row by row.

* `Answers.ofTarget_follows` : it is deterministic in the sense of `Answers.Follows`.
* `Counting` : a model over eight tokens whose next token is the successor of the last one, on exact
  rational numbers.
-/

namespace FortAI

open Arithmetic

section

variable {R D : Type} [Arithmetic R D]

/-- `f` after the token alone, after one draft, and after both. -/
def Rows.after {α : Type} (f : Fed → α) (fed : Fed) (token : Token) (position : ℕ)
    (drafts : Drafts) : Rows α where
  first := f (fed ++ feedAt position [token])
  second := f (fed ++ feedAt position [token, drafts.first])
  third := f (fed ++ feedAt position [token, drafts.first, drafts.second])

theorem Rows.get_after {α : Type} (f : Fed → α) (fed : Fed) (token : Token) (position : ℕ)
    (drafts : Drafts) {i : ℕ} (hi : i ≤ 2) :
    (Rows.after f fed token position drafts).get i =
      f (fed ++ feedAt position (token :: drafts.toList.take i)) := by
  match i, hi with
  | 0, _ => rfl
  | 1, _ => rfl
  | 2, _ => rfl

/-- The target's tokens as long as they agree with the drafts, and the first that does not. -/
def acceptGreedy (rows : Rows Token) (drafts : Drafts) : List Token :=
  if rows.first ≠ drafts.first then [rows.first]
  else if rows.second ≠ drafts.second then [rows.first, rows.second]
  else [rows.first, rows.second, rows.third]

/-- The candidates of a row in the device's format. -/
def topkRow (topK : ℕ) (logits : List R) : TopkRow R :=
  (topCandidates logits (min logits.length topK)).map fun c => ((c.2 : ℤ) - 1, c.1)

/-- The answers of a deterministic model: it runs batches of at most `batchLimit` tokens, proposes
`drafts`, and refuses verification batches at the positions that `speculates` rules out. -/
def Answers.ofTarget (target : Fed → List R) (batchLimit : ℕ) (drafts : Fed → Token → Drafts)
    (speculates : ℕ → Bool) : Answers Unit R where
  batchSupported _ count := decide (count ≤ batchLimit)
  forward _ fed token position _ := (.ok (target (fed ++ feedAt position [token])), ())
  forwardGreedy _ fed token position _ :=
    (.ok (argmax (target (fed ++ feedAt position [token]))), ())
  forwardBatch _ fed tokens position _ := (.ok (target (fed ++ feedAt position tokens)), ())
  prepareSampledSpeculative _ fed token position :=
    if speculates position then
      (.ok (drafts fed token, .after target fed token position (drafts fed token)), ())
    else (.error ⟨.unsupported, fed⟩, ())
  prepareSampledSpeculativeTopk _ fed token position topK :=
    if speculates position then
      (.ok (drafts fed token,
        .after (topkRow topK ∘ target) fed token position (drafts fed token)), ())
    else (.error ⟨.unsupported, fed⟩, ())
  acceptSampledSpeculative _ _ _ _ _ := (.ok (), ())
  forwardGreedySpeculative _ fed token position :=
    if speculates position then
      (.ok (acceptGreedy (.after (argmax ∘ target) fed token position (drafts fed token))
        (drafts fed token)), ())
    else (.error ⟨.unsupported, fed⟩, ())

theorem isTopkRow_topkRow (topK : ℕ) (logits : List R) :
    IsTopkRow topK logits (topkRow topK logits) := by
  unfold IsTopkRow topkRow
  rw [List.take_of_length_le (by simpa using topCandidates_length_le _ _)]

theorem acceptGreedy_spec (f : Fed → Token) (fed : Fed) (token : Token) (position : ℕ)
    (drafts : Drafts) :
    let tokens := acceptGreedy (.after f fed token position drafts) drafts
    tokens ≠ [] ∧ tokens.length ≤ 3 ∧ ∀ i (h : i < tokens.length),
      tokens[i] = f (fed ++ feedAt position (token :: tokens.take i)) := by
  unfold acceptGreedy Rows.after
  dsimp only
  split_ifs with h₁ h₂
  · refine ⟨by simp, by simp, fun i hi => ?_⟩
    match i, hi with
    | 0, _ => rfl
  · rw [not_not] at h₁
    refine ⟨by simp, by simp, fun i hi => ?_⟩
    match i, hi with
    | 0, _ => rfl
    | 1, _ => exact congrArg (fun t => f (fed ++ feedAt position [token, t])) h₁.symm
  · rw [not_not] at h₁ h₂
    refine ⟨by simp, by simp, fun i hi => ?_⟩
    match i, hi with
    | 0, _ => rfl
    | 1, _ => exact congrArg (fun t => f (fed ++ feedAt position [token, t])) h₁.symm
    | 2, _ => exact congrArg₂ (fun t u => f (fed ++ feedAt position [token, t, u])) h₁.symm h₂.symm

/-- The answers made from a target agree with it. -/
theorem Answers.ofTarget_follows (target : Fed → List R) (batchLimit : ℕ)
    (drafts : Fed → Token → Drafts) (speculates : ℕ → Bool) :
    (Answers.ofTarget target batchLimit drafts speculates).Follows target where
  forward _ _ _ _ _ h := (Except.ok.inj h).symm
  forwardGreedy _ _ _ _ _ h := (Except.ok.inj h).symm
  forwardBatch _ _ _ _ _ h := (Except.ok.inj h).symm
  rows _ fed token position ds rows h i hi := by
    unfold Answers.ofTarget at h
    dsimp only at h
    split_ifs at h
    obtain ⟨rfl, rfl⟩ := Prod.mk.inj (Except.ok.inj h)
    exact Rows.get_after target fed token position _ hi
  topkRows _ fed token position topK ds rows h i hi := by
    unfold Answers.ofTarget at h
    dsimp only at h
    split_ifs at h
    obtain ⟨rfl, rfl⟩ := Prod.mk.inj (Except.ok.inj h)
    rw [Rows.get_after _ _ _ _ _ hi]
    exact isTopkRow_topkRow topK _
  greedyTokens _ fed token position tokens h := by
    unfold Answers.ofTarget at h
    dsimp only at h
    split_ifs at h
    obtain rfl := Except.ok.inj h
    exact acceptGreedy_spec (argmax ∘ target) fed token position _

end

/-! ### Exact arithmetic -/

/-- Exact arithmetic.  `exp` and `log` are exact where they are used here, at 0 and at 1. -/
instance : Arithmetic ℚ ℚ where
  zero := 0
  one := 1
  add := (· + ·)
  sub := (· - ·)
  mul := (· * ·)
  div := (· / ·)
  exp x := 1 + x + x * x / 2
  log x := x - 1
  ofCount n := n
  lt a b := decide (a < b)
  le a b := decide (a ≤ b)
  eq a b := decide (a = b)
  finite _ := true
  zeroD := 0
  addD := (· + ·)
  mulD := (· * ·)
  leD a b := decide (a ≤ b)
  widen := id
  unit64 low high := (low + high * 2 ^ 32) / 2 ^ 64
  not_lt_of_eq h := by simp_all

/-! ### The counting model -/

namespace Counting

/-- The logits over eight tokens: the successor of the last token consumed stands out. -/
def target (fed : Fed) : List ℚ :=
  (List.range 8).map fun t =>
    if (t : ℤ) = ((fed.getLast?.map Prod.fst).getD 0 + 1) % 8 then 1 else 0

theorem target_length (fed : Fed) : (target fed).length = 8 := by simp [target]

def setup : Setup where
  ready := true
  vocabularySize := 8
  maxContext := 32
  externalDraftActive := false
  encode bytes := some (bytes.map fun b => (b.toNat : ℤ))
  decode tokens := tokens.map fun t => UInt8.ofNat t.toNat
  isStop t := t == 7

/-- Sampling without penalties. -/
def options (topK : ℤ) : SamplingOptions ℚ := ⟨topK, 1, 0, 1, 0, 0, 64⟩

/-- A request; unwritten memory reads as zero. -/
def call (prompt : List UInt8) (maxTokens : ℤ) (temperature : ℚ) (topK : ℤ) (mtpActive : Bool) :
    Call ℚ where
  promptText := prompt
  maxTokens := maxTokens
  temperature := temperature
  seed := 5489
  options := options topK
  mtpActive := mtpActive
  batchCapacity := 1
  ignoreEos := false
  clock := 0
  stateMemory _ := 0
  historyMemory _ := 0
  logitsMemory := []

/-- The drafts are right about the next token and one too high about the one after. -/
def drafts (_ : Fed) (token : Token) : Drafts := ⟨(token + 1) % 8, (token + 3) % 8⟩

/-- Verification batches run while three more positions fit the context. -/
def answers : Answers Unit ℚ := .ofTarget target 4 drafts fun position => decide (position + 2 < 32)

/-- The service before its first request. -/
def idle : Service Unit Unit ℚ where
  model := ⟨[], 0, 0, ()⟩
  draft := ⟨[], 0, 0, ()⟩
  cacheTokens := none
  cacheLogits := none
  cacheCount := 0
  cacheNextToken := 0
  cacheValid := false
  cacheLogitsValid := false
  lastPromptTokens := 0
  lastGenerationTokens := 0
  lastDraftTokens := 0
  lastDraftAccepted := 0

end Counting

end FortAI
