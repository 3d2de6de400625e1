import FortAI.Service.Sampling
import Mathlib.Algebra.Order.Ring.Int
import Mathlib.Data.List.Basic

/-!
# Contexts of llama.cpp

`fortai_llama_fast.c` drives a context of the target model and, for speculation, a context of a
draft model or of a next-token head.  The memory of a context is the list of the rows that were
decoded into it.

* `Network` : a model behind `llama_decode` and `llama_get_logits_ith`.
* `decode`, `decodeGreedy`, `decodeSpeculative`, `reset` : the entry points of the handle.
* `Picks` : tokens that are, one after the other, the first largest logits of a model.
* `draftLoop_spec`, `acceptLoop_spec` : what the two loops of a speculative call do.
-/

namespace FortAI

namespace Llama

open Arithmetic

/-! ### The largest logit -/

section Argmax

variable {R D : Type} [Arithmetic R D]

/-- The scalar loop of `fortai_argmax_f32`: the best index and value so far, and the sum. -/
def argmaxLoop (best : ℕ) (bestValue total : R) : ℕ → List R → ℕ × R
  | _, [] => (best, total)
  | i, v :: values =>
    if lt bestValue v then argmaxLoop i v (add total v) (i + 1) values
    else argmaxLoop best bestValue (add total v) (i + 1) values

/-- One lane of the vectors of `fortai_argmax_avx2`. -/
structure Lane (R : Type) where
  maximum : R
  sum : R
  index : ℕ
  nextIndex : ℕ

def Lane.add (lane : Lane R) (v : R) : Lane R where
  maximum := if lt lane.maximum v then v else lane.maximum
  sum := Arithmetic.add lane.sum v
  index := if lt lane.maximum v then lane.nextIndex else lane.index
  nextIndex := lane.nextIndex + 8

/-- The loop over blocks of eight values, and what is left behind them. -/
def laneLoop (lanes : List (Lane R)) : List R → List (Lane R) × List R
  | a :: b :: c :: d :: e :: f :: g :: h :: values =>
    laneLoop (lanes.zipWith Lane.add [a, b, c, d, e, f, g, h]) values
  | values => (lanes, values)

/-- The better one of two lanes: the smaller index where the maxima are equal. -/
def Lane.better (best lane : Lane R) : Lane R :=
  if lt best.maximum lane.maximum || (eq lane.maximum best.maximum && decide (lane.index < best.index)) then
    lane
  else best

/-- `fortai_argmax_avx2` -/
def argmaxAvx2 (negativeInfinity : R) (values : List R) : ℕ × R :=
  let start : List (Lane R) := (List.range 8).map fun i => ⟨negativeInfinity, zero, 0, i⟩
  let (lanes, rest) := laneLoop start values
  let total := lanes.foldl (fun total lane => Arithmetic.add total lane.sum) zero
  match lanes with
  | [] => (0, total)
  | lane :: others =>
    let best := others.foldl Lane.better lane
    argmaxLoop best.index best.maximum total (values.length - rest.length) rest

/-- The scalar part of `fortai_argmax_f32` -/
def argmaxScalar : List R → ℕ × R
  | [] => (0, zero)
  | v :: values => argmaxLoop 0 v v 1 values

end Argmax

/-! ### Contexts -/

structure Row where
  token : ℤ
  position : ℤ
  deriving DecidableEq

/-- Tokens at consecutive positions. -/
def rows (position : ℤ) : List ℤ → List Row
  | [] => []
  | token :: tokens => ⟨token, position⟩ :: rows (position + 1) tokens

@[simp] theorem length_rows (position : ℤ) (tokens : List ℤ) :
    (rows position tokens).length = tokens.length := by
  induction tokens generalizing position with
  | nil => rfl
  | cons token tokens ih => exact congrArg (· + 1) (ih _)

theorem rows_append (position : ℤ) (tokens others : List ℤ) :
    rows position (tokens ++ others) =
      rows position tokens ++ rows (position + tokens.length) others := by
  induction tokens generalizing position with
  | nil =>
    rw [List.length_nil, Nat.cast_zero, add_zero]
    rfl
  | cons token tokens ih =>
    rw [List.cons_append, rows, ih, List.length_cons, Nat.cast_succ, add_assoc, add_comm (1 : ℤ)]
    rfl

theorem rows_take (position : ℤ) (tokens : List ℤ) (n : ℕ) :
    (rows position tokens).take n = rows position (tokens.take n) := by
  induction tokens generalizing position n with
  | nil => rw [rows, List.take_nil, List.take_nil, rows]
  | cons token tokens ih =>
    cases n with
    | zero => rfl
    | succ n => rw [rows, List.take_succ_cons, ih, List.take_succ_cons, rows]

theorem mem_rows {position : ℤ} {tokens : List ℤ} {row : Row} (h : row ∈ rows position tokens) :
    position ≤ row.position ∧ row.position < position + tokens.length := by
  induction tokens generalizing position with
  | nil => cases h
  | cons token tokens ih =>
    rw [List.length_cons]
    rcases List.mem_cons.mp h with rfl | h
    · exact ⟨le_refl _, by push_cast; omega⟩
    · have := ih h
      push_cast
      omega

/-- A model behind a context, whose memory holds rows of this kind.  The logits of a row depend on
the rows up to it only, and a batch that is decoded can be decoded row by row. -/
structure Network (ρ R : Type) where
  /-- `llama_decode` returns 0 for this batch behind that memory. -/
  accepts : List ρ → List ρ → Bool
  /-- The logits of the last one of these rows; `none` for a null pointer. -/
  logits : List ρ → Option (List R)
  accepts_cons : ∀ {memory : List ρ} {row : ρ} {batch : List ρ}, accepts memory (row :: batch) = true →
    accepts memory [row] = true ∧ (batch ≠ [] → accepts (memory ++ [row]) batch = true)

/-- `llama_decode` -/
def Network.decode {ρ R : Type} (network : Network ρ R) (memory batch : List ρ) : Option (List ρ) :=
  if network.accepts memory batch then some (memory ++ batch) else none

/-- `llama_memory_seq_rm` of the positions from `position` on. -/
def removeFrom (position : ℤ) (memory : List Row) : List Row :=
  memory.filter (·.position < position)

/-- A head for the token after next: it reads the hidden row of the target beside its rows. -/
structure Head (H R : Type) where
  /-- `llama_get_embeddings_nextn` of the target, from the rows of its memory. -/
  hidden : List Row → Option H
  network : Network (Row × H) R

/-- `fortai_llama_handle`, as it is created. -/
structure Handle (H R : Type) where
  avx2 : Bool
  negativeInfinity : R
  target : Network Row R
  vocab : ℕ
  maxContext : ℤ
  draft : Option (Network Row R)
  draftVocab : ℕ
  specMax : ℕ
  specEnabled : Bool
  /-- `llama_memory_seq_rm` is there. -/
  seqRm : Bool
  /-- `llama_memory_seq_rm` of the positions from one on succeeds. -/
  removes : List Row → ℤ → Bool
  mtp : Option (Head H R)
  vocab_pos : 0 < vocab
  specMax_le : specMax ≤ 32

/-- The memories of the contexts. -/
structure State (H : Type) where
  target : List Row
  draft : List Row
  mtp : List (Row × H)
  deriving DecidableEq

variable {H R D : Type} [Arithmetic R D] (h : Handle H R)

/-- `fortai_argmax_f32` -/
def Handle.argmax (values : List R) : ℕ × R :=
  if h.avx2 then argmaxAvx2 h.negativeInfinity values else argmaxScalar values

/-- `fortai_llama_fast_context_decode` -/
def decode (s : State H) (token position : ℤ) (logitsCount : ℕ) : Except ℕ (State H × List R) :=
  if token < 0 ∨ position < 0 ∨ h.maxContext ≤ position ∨ logitsCount < h.vocab then .error 1
  else
    match h.target.decode s.target [⟨token, position⟩] with
    | none => .error 2
    | some memory =>
      match h.target.logits memory with
      | none => .error 3
      | some logits => .ok ({ s with target := memory }, logits.take h.vocab)

/-- `fortai_llama_fast_context_decode_greedy`: the token and the sum of the logits. -/
def decodeGreedy (s : State H) (token position : ℤ) : Except ℕ (State H × ℤ × R) :=
  if token < 0 ∨ position < 0 ∨ h.maxContext ≤ position then .error 1
  else
    match h.target.decode s.target [⟨token, position⟩] with
    | none => .error 2
    | some memory =>
      match h.target.logits memory with
      | none => .error 3
      | some logits =>
        let best := h.argmax (logits.take h.vocab)
        .ok ({ s with target := memory }, best.1, best.2)

/-- The branch of `fortai_llama_fast_context_decode_speculative` with a head. -/
def decodeHead (head : Head H R) (s : State H) (token position : ℤ) :
    Except ℕ (State H × List ℤ × R) :=
  match h.target.decode s.target [⟨token, position⟩] with
  | none => .error 2
  | some memory =>
    match h.target.logits memory, head.hidden memory with
    | some targetLogits, some hidden =>
      let target := h.argmax (targetLogits.take h.vocab)
      match head.network.decode s.mtp [(⟨token, position⟩, hidden)] with
      | none => .error 4
      | some mtp =>
        match head.network.logits mtp with
        | none => .error 5
        | some draftLogits =>
          let draft := (h.argmax (draftLogits.take h.vocab)).1
          let token : ℤ := if draft = target.1 then draft else target.1
          .ok ({ s with target := memory, mtp := mtp }, [token], target.2)
    | _, _ => .error 3

/-- The loop over the draft tokens: the memory of the draft, and the tokens. -/
def draftLoop (draft : Network Row R) : ℕ → ℤ → ℤ → List Row → Except ℕ (List Row × List ℤ)
  | 0, _, _, memory => .ok (memory, [])
  | n + 1, input, position, memory =>
    match draft.decode memory [⟨input, position⟩] with
    | none => .error 3
    | some memory =>
      match draft.logits memory with
      | none => .error 4
      | some logits =>
        let token : ℤ := (h.argmax (logits.take h.draftVocab)).1
        match draftLoop draft n token (position + 1) memory with
        | .error code => .error code
        | .ok (memory, tokens) => .ok (memory, token :: tokens)

/-- The loop that compares the draft tokens, from row `i` on, with the largest logits of the rows:
how many are accepted, and the token behind them with the sum of its logits. -/
def acceptLoop (logits : ℕ → Option (List R)) : ℕ → List ℤ → Except ℕ (ℕ × ℤ × R)
  | i, [] =>
    match logits i with
    | none => .error 7
    | some values =>
      let best := h.argmax (values.take h.vocab)
      .ok (i, best.1, best.2)
  | i, draft :: drafts =>
    match logits i with
    | none => .error 6
    | some values =>
      let best := h.argmax (values.take h.vocab)
      if (best.1 : ℤ) = draft then acceptLoop logits (i + 1) drafts else .ok (i, best.1, best.2)

/-- The branch of `fortai_llama_fast_context_decode_speculative` with a draft model. -/
def decodeDrafts (draft : Network Row R) (s : State H) (token position : ℤ) :
    Except ℕ (State H × List ℤ × R) :=
  match draftLoop h draft h.specMax token position s.draft with
  | .error code => .error code
  | .ok (draftMemory, drafts) =>
    let batch := rows position (token :: drafts)
    match h.target.decode s.target batch with
    | none => .error 5
    | some memory =>
      match acceptLoop h (fun i => h.target.logits (s.target ++ batch.take (i + 1))) 0 drafts with
      | .error code => .error code
      | .ok (accepted, mismatch, sum) =>
        let tokens := drafts.take accepted ++ [mismatch]
        let limit := position + accepted + 1
        if accepted < h.specMax then
          if h.removes memory limit = false then .error 8
          else if h.removes draftMemory limit = false then .error 9
          else .ok ({ s with target := removeFrom limit memory, draft := removeFrom limit draftMemory },
            tokens, sum)
        else .ok ({ s with target := memory, draft := draftMemory }, tokens, sum)

/-- The draft model that a call speculates with. -/
def Handle.speculates (position capacity : ℤ) : Option (Network Row R) :=
  if h.specEnabled = false ∨ h.specMax ≤ 0 ∨ h.seqRm = false ∨ capacity < h.specMax + 1 ∨
      h.maxContext - position < h.specMax + 1 then none
  else h.draft

/-- `fortai_llama_fast_context_decode_speculative`: the tokens and the sum of the logits. -/
def decodeSpeculative (s : State H) (token position capacity : ℤ) : Except ℕ (State H × List ℤ × R) :=
  if token < 0 ∨ position < 0 ∨ h.maxContext ≤ position ∨ capacity ≤ 0 then .error 1
  else
    match h.mtp with
    | some head => decodeHead h head s token position
    | none =>
      match h.speculates position capacity with
      | none =>
        match decodeGreedy h s token position with
        | .error _ => .error 2
        | .ok (s, next, sum) => .ok (s, [next], sum)
      | some draft => decodeDrafts h draft s token position

/-- `fortai_llama_fast_context_reset` -/
def reset (s : State H) : State H :=
  if h.mtp.isSome then { s with target := [], mtp := [] }
  else if h.specEnabled ∧ h.draft.isSome then { s with target := [], draft := [] }
  else { s with target := [] }

/-! ### Greedy tokens of a model -/

/-- The token with the first largest logit behind these rows. -/
def Handle.pick (network : Network Row R) (vocab : ℕ) (memory : List Row) : Option ℤ :=
  (network.logits memory).map fun logits => ((h.argmax (logits.take vocab)).1 : ℤ)

/-- The tokens are, one after the other, those that `pick` gives when each is decoded in turn. -/
def Picks (pick : List Row → Option ℤ) : List Row → ℤ → ℤ → List ℤ → Prop
  | _, _, _, [] => True
  | memory, token, position, next :: tokens =>
    pick (memory ++ [⟨token, position⟩]) = some next ∧
      Picks pick (memory ++ [⟨token, position⟩]) next (position + 1) tokens

/-- The rows are decoded one after the other. -/
def Takes (network : Network Row R) : List Row → List Row → Prop
  | _, [] => True
  | memory, row :: batch => network.accepts memory [row] = true ∧ Takes network (memory ++ [row]) batch

section Picks

variable {pick : List Row → Option ℤ} {memory : List Row} {token position : ℤ}

/-- The rows that are decoded before so many tokens are picked. -/
def inputs (token : ℤ) (tokens : List ℤ) : List ℤ := (token :: tokens).take tokens.length

@[simp] theorem inputs_nil (token : ℤ) : inputs token [] = [] := rfl

@[simp] theorem inputs_cons (token next : ℤ) (tokens : List ℤ) :
    inputs token (next :: tokens) = token :: inputs next tokens := rfl

@[simp] theorem length_inputs (token : ℤ) (tokens : List ℤ) :
    (inputs token tokens).length = tokens.length := by
  rw [inputs, List.length_take, List.length_cons]
  omega

/-- What is decoded for an accepted prefix of drafts and the token behind it. -/
theorem inputs_concat (token last : ℤ) (tokens : List ℤ) :
    inputs token (tokens ++ [last]) = token :: tokens := by
  induction tokens generalizing token with
  | nil => rfl
  | cons next tokens ih => rw [List.cons_append, inputs_cons, ih]

theorem picks_append (tokens others : List ℤ) :
    Picks pick memory token position (tokens ++ others) ↔
      Picks pick memory token position tokens ∧
        Picks pick (memory ++ rows position (inputs token tokens)) (tokens.getLastD token)
          (position + tokens.length) others := by
  induction tokens generalizing memory token position with
  | nil =>
    rw [inputs_nil, rows, List.append_nil, List.length_nil, Nat.cast_zero, add_zero]
    exact (and_iff_right trivial).symm
  | cons next tokens ih =>
    rw [List.cons_append, Picks, ih, Picks, inputs_cons, rows, List.getLastD_cons, List.append_assoc,
      List.length_cons, Nat.cast_succ, add_assoc, add_comm (1 : ℤ), and_assoc]
    rfl

/-- No two lists of tokens are picked. -/
theorem Picks.eq {tokens others : List ℤ} (h : Picks pick memory token position tokens)
    (h' : Picks pick memory token position others) (hlength : tokens.length = others.length) :
    tokens = others := by
  induction tokens generalizing memory token position others with
  | nil => exact (List.length_eq_zero_iff.mp hlength.symm).symm
  | cons next tokens ih =>
    cases others with
    | nil => cases hlength
    | cons next' others =>
      obtain ⟨hnext, h⟩ := h
      obtain ⟨hnext', h'⟩ := h'
      obtain rfl : next = next' := Option.some.inj (hnext.symm.trans hnext')
      rw [ih h h' (Nat.succ.inj hlength)]

end Picks

section Takes

variable {network : Network Row R} {memory : List Row}

theorem takes_append (batch others : List Row) :
    Takes network memory (batch ++ others) ↔
      Takes network memory batch ∧ Takes network (memory ++ batch) others := by
  induction batch generalizing memory with
  | nil =>
    rw [List.append_nil]
    exact (and_iff_right trivial).symm
  | cons row batch ih =>
    rw [List.cons_append, Takes, ih, Takes, and_assoc, List.append_assoc]
    rfl

theorem takes_of_accepts {batch : List Row} (h : network.accepts memory batch = true) :
    Takes network memory batch := by
  induction batch generalizing memory with
  | nil => trivial
  | cons row batch ih =>
    obtain ⟨hrow, hbatch⟩ := network.accepts_cons h
    refine ⟨hrow, ?_⟩
    by_cases hnil : batch = []
    · rw [hnil]
      trivial
    · exact ih (hbatch hnil)

theorem Takes.take {batch : List Row} (h : Takes network memory batch) (n : ℕ) :
    Takes network memory (batch.take n) := by
  rw [← List.take_append_drop n batch, takes_append] at h
  exact h.1

end Takes

theorem Network.decode_eq_some {ρ : Type} {network : Network ρ R} {memory batch after : List ρ} :
    network.decode memory batch = some after ↔
      network.accepts memory batch = true ∧ after = memory ++ batch := by
  rw [Network.decode]
  by_cases haccepts : network.accepts memory batch = true
  · rw [if_pos haccepts, Option.some_inj, and_iff_right haccepts, eq_comm]
  · rw [if_neg haccepts]
    exact ⟨fun hnone => absurd hnone (Option.some_ne_none _).symm, fun hand => absurd hand.1 haccepts⟩

/-! ### The memory behind a position -/

theorem removeFrom_of_below {position : ℤ} {memory : List Row}
    (hbelow : ∀ row ∈ memory, row.position < position) : removeFrom position memory = memory :=
  List.filter_eq_self.mpr fun row hrow => decide_eq_true (hbelow row hrow)

theorem removeFrom_rows (position : ℤ) (tokens : List ℤ) (n : ℕ) :
    removeFrom (position + n) (rows position tokens) = rows position (tokens.take n) := by
  rw [← List.take_append_drop n tokens, rows_append, removeFrom, List.filter_append]
  have hfirst : removeFrom (position + n) (rows position (tokens.take n)) =
      rows position (tokens.take n) := by
    refine removeFrom_of_below fun row hrow => ?_
    have := (mem_rows hrow).2
    have := List.length_take_le n tokens
    omega
  have hlast : removeFrom (position + n)
      (rows (position + (tokens.take n).length) (tokens.drop n)) = [] := by
    refine List.filter_eq_nil_iff.mpr fun row hrow hpos => ?_
    obtain ⟨hle, hlt'⟩ := mem_rows hrow
    have hlt := of_decide_eq_true hpos
    rw [List.length_take] at hle hlt'
    rw [List.length_drop] at hlt'
    omega
  rw [removeFrom] at hfirst hlast
  rw [hfirst, hlast, List.append_nil, List.take_append_drop]

/-- The rows behind the accepted ones are removed. -/
theorem removeFrom_append {position : ℤ} {memory : List Row} (tokens : List ℤ) (n : ℕ)
    (hbelow : ∀ row ∈ memory, row.position < position) :
    removeFrom (position + n) (memory ++ rows position tokens) =
      memory ++ rows position (tokens.take n) := by
  rw [← removeFrom_rows, removeFrom, List.filter_append]
  refine congrArg (· ++ _) (removeFrom_of_below fun row hrow => ?_)
  have := hbelow row hrow
  omega

/-! ### The loops of a speculative call -/

/-- The draft tokens are the greedy ones of the draft model, which has decoded all but the last. -/
theorem draftLoop_spec {draft : Network Row R} {n : ℕ} {input position : ℤ} {memory memory' : List Row}
    {tokens : List ℤ} (hloop : draftLoop h draft n input position memory = .ok (memory', tokens)) :
    tokens.length = n ∧ memory' = memory ++ rows position (inputs input tokens) ∧
      Picks (h.pick draft h.draftVocab) memory input position tokens := by
  induction n generalizing input position memory memory' tokens with
  | zero =>
    rw [draftLoop, Except.ok.injEq, Prod.mk.injEq] at hloop
    obtain ⟨rfl, rfl⟩ := hloop
    exact ⟨rfl, (List.append_nil _).symm, trivial⟩
  | succ n ih =>
    rw [draftLoop] at hloop
    split at hloop
    · cases hloop
    · rename_i decoded hdecode
      obtain ⟨-, rfl⟩ := Network.decode_eq_some.mp hdecode
      split at hloop
      · cases hloop
      · rename_i logits hlogits
        simp only at hloop
        split at hloop
        · cases hloop
        · rename_i memory' tokens hrest
          rw [Except.ok.injEq, Prod.mk.injEq] at hloop
          obtain ⟨rfl, rfl⟩ := hloop
          obtain ⟨hlength, hmemory, hpicks⟩ := ih hrest
          refine ⟨congrArg (· + 1) hlength, ?_, ?_, hpicks⟩
          · rw [hmemory, List.append_assoc]
            rfl
          · rw [Handle.pick, hlogits]
            rfl

/-- The accepted drafts and the token behind them are the greedy tokens of the target. -/
theorem acceptLoop_spec {logits : ℕ → Option (List R)} {memory : List Row} {token position mismatch : ℤ}
    {sum : R} {drafts : List ℤ} {i accepted : ℕ}
    (hloop : acceptLoop h logits i drafts = .ok (accepted, mismatch, sum))
    (hlogits : ∀ j, logits (i + j) =
      h.target.logits (memory ++ (rows position (token :: drafts)).take (j + 1))) :
    ∃ k, accepted = i + k ∧ k ≤ drafts.length ∧
      Picks (h.pick h.target h.vocab) memory token position (drafts.take k ++ [mismatch]) ∧
      drafts[k]? ≠ some mismatch := by
  have hfirst : logits i = h.target.logits (memory ++ [⟨token, position⟩]) := hlogits 0
  induction drafts generalizing i memory token position with
  | nil =>
    rw [acceptLoop, hfirst] at hloop
    split at hloop
    · cases hloop
    · rename_i values hvalues
      simp only [Except.ok.injEq, Prod.mk.injEq] at hloop
      obtain ⟨rfl, rfl, -⟩ := hloop
      refine ⟨0, rfl, le_refl _, ⟨?_, trivial⟩, (Option.some_ne_none _).symm⟩
      rw [Handle.pick, hvalues]
      rfl
  | cons draft drafts ih =>
    rw [acceptLoop, hfirst] at hloop
    split at hloop
    · cases hloop
    · rename_i values hvalues
      have hpick : h.pick h.target h.vocab (memory ++ [⟨token, position⟩]) =
          some ((h.argmax (values.take h.vocab)).1 : ℤ) := by
        rw [Handle.pick, hvalues]
        rfl
      simp only at hloop
      split_ifs at hloop with hdraft
      · -- the draft is accepted; the row of the draft is the next one
        have hnext : ∀ j, logits (i + 1 + j) = h.target.logits
            ((memory ++ [⟨token, position⟩]) ++ (rows (position + 1) (draft :: drafts)).take (j + 1)) := by
          intro j
          rw [add_assoc, add_comm 1 j, hlogits, List.append_assoc]
          rfl
        obtain ⟨k, rfl, hk, hpicks, hmismatch⟩ := ih hloop hnext (hnext 0)
        refine ⟨k + 1, by omega, Nat.succ_le_succ hk, ⟨hdraft ▸ hpick, hpicks⟩, hmismatch⟩
      · simp only [Except.ok.injEq, Prod.mk.injEq] at hloop
        obtain ⟨rfl, rfl, -⟩ := hloop
        exact ⟨0, rfl, Nat.zero_le _, ⟨hpick, trivial⟩, fun heq => hdraft (Option.some.inj heq).symm⟩

/-- A call with a draft model: the drafts, how many of them are accepted, and the memories. -/
theorem decodeDrafts_spec {draft : Network Row R} {s s' : State H} {token position : ℤ}
    {tokens : List ℤ} {sum : R} (hcall : decodeDrafts h draft s token position = .ok (s', tokens, sum)) :
    ∃ (drafts : List ℤ) (k : ℕ) (mismatch : ℤ), drafts.length = h.specMax ∧ k ≤ h.specMax ∧
      tokens = drafts.take k ++ [mismatch] ∧ drafts[k]? ≠ some mismatch ∧
      Picks (h.pick draft h.draftVocab) s.draft token position drafts ∧
      Picks (h.pick h.target h.vocab) s.target token position tokens ∧
      h.target.accepts s.target (rows position (token :: drafts)) = true ∧
      s' = if k < h.specMax then
          { s with
            target := removeFrom (position + (k + 1 : ℕ)) (s.target ++ rows position (token :: drafts))
            draft := removeFrom (position + (k + 1 : ℕ))
              (s.draft ++ rows position (inputs token drafts)) }
        else
          { s with
            target := s.target ++ rows position (token :: drafts)
            draft := s.draft ++ rows position (inputs token drafts) } := by
  rw [decodeDrafts] at hcall
  split at hcall
  · cases hcall
  · rename_i draftMemory drafts hloop
    obtain ⟨hlength, rfl, hdrafts⟩ := draftLoop_spec h hloop
    simp only at hcall
    split at hcall
    · cases hcall
    · rename_i memory hdecode
      obtain ⟨haccepts, rfl⟩ := Network.decode_eq_some.mp hdecode
      split at hcall
      · cases hcall
      · rename_i accepted mismatch total haccept
        obtain ⟨k, rfl, hk, hpicks, hmismatch⟩ := acceptLoop_spec h haccept fun j => by rw [zero_add]
        rw [zero_add, add_assoc, ← Nat.cast_succ] at hcall
        refine ⟨drafts, k, mismatch, hlength, hlength ▸ hk, ?_⟩
        split_ifs at hcall ⊢ with hless hremoves hremoves'
        · rw [Except.ok.injEq, Prod.mk.injEq, Prod.mk.injEq] at hcall
          obtain ⟨rfl, rfl, -⟩ := hcall
          exact ⟨rfl, hmismatch, hdrafts, hpicks, haccepts, rfl⟩
        · rw [Except.ok.injEq, Prod.mk.injEq, Prod.mk.injEq] at hcall
          obtain ⟨rfl, rfl, -⟩ := hcall
          exact ⟨rfl, hmismatch, hdrafts, hpicks, haccepts, rfl⟩

end Llama

end FortAI
