import FortAI.Status
import FortAI.Service.Sampling

/-!
# The language model behind the service

The service drives a resident language model whose state moves with every token it consumes.  Here
that state is the list of `(token, position)` pairs consumed since the last reset; how the model
answers is left open (`Answers`), so that everything proved about the service holds for any model
answers, any draft proposals and any point of failure.

* `Live` : the state of a resident model.
* `Live.forward`, `Live.forwardGreedy`, `Live.forwardBatch`, … : the calls of the service, each
  with the tokens it consumes.
* `Answers.Follows` : the model is deterministic: its answers are those of a fixed function from
  token prefixes to logits.
-/

namespace FortAI

/-- What the state of a model has consumed, oldest first. -/
abbrev Fed := List (Token × ℕ)

/-- `tokens` fed at consecutive positions from `position` on. -/
def feedAt (position : ℕ) (tokens : List Token) : Fed := tokens.zipIdx position

@[simp] theorem feedAt_map_fst (position : ℕ) (tokens : List Token) :
    (feedAt position tokens).map Prod.fst = tokens := by
  simp [feedAt, List.zipIdx_map_fst]

@[simp] theorem feedAt_singleton (position : ℕ) (t : Token) :
    feedAt position [t] = [(t, position)] := rfl

/-- The state of a resident model. -/
structure Live (Ω : Type) where
  /-- What it has consumed since the last reset. -/
  consumed : Fed
  /-- The token the pending verification batch started from. -/
  prepared : Token
  /-- The number of calls made so far. -/
  calls : ℕ
  /-- What the answers depend on besides the consumed tokens. -/
  oracle : Ω

namespace Live

variable {Ω : Type}

/-- The tokens consumed since the last reset. -/
def tokens (m : Live Ω) : List Token := m.consumed.map Prod.fst

/-- `qwen35_cpu_reset`. -/
def reset (m : Live Ω) : Live Ω := { m with consumed := [], calls := m.calls + 1 }

@[simp] theorem reset_consumed (m : Live Ω) : m.reset.consumed = [] := rfl
@[simp] theorem reset_tokens (m : Live Ω) : m.reset.tokens = [] := rfl

end Live

/-- Why a call failed and what the state has consumed when it gives up. -/
structure Failure where
  fault : Fault
  left : Fed

/-- `FORTAI_UNSUPPORTED` refuses a call before it touches the state; after any other failure the
state may be anything. -/
def Failure.leaves (f : Failure) (consumed : Fed) : Fed :=
  if f.fault = .unsupported then consumed else f.left

/-- The rows of a verification batch of three tokens. -/
structure Rows (α : Type) where
  first : α
  second : α
  third : α

/-- Row `i` (from 0). -/
def Rows.get {α : Type} (rows : Rows α) : ℕ → α
  | 0 => rows.first
  | 1 => rows.second
  | _ => rows.third

/-- `draft_tokens(2)`. -/
structure Drafts where
  first : Token
  second : Token

def Drafts.toList (d : Drafts) : List Token := [d.first, d.second]

/-- The answers of a model to the calls of the service, from its oracle, the tokens it has
consumed, and the arguments of the call. -/
structure Answers (Ω R : Type) where
  batchSupported : Ω → ℕ → Bool
  /-- `token`, `position`, `compute_logits`. -/
  forward : Ω → Fed → Token → ℕ → Bool → Except Failure (List R) × Ω
  forwardGreedy : Ω → Fed → Token → ℕ → Bool → Except Failure Token × Ω
  /-- `token_ids`, `position_start`, `compute_logits`. -/
  forwardBatch : Ω → Fed → List Token → ℕ → Bool → Except Failure (List R) × Ω
  prepareSampledSpeculative : Ω → Fed → Token → ℕ → Except Failure (Drafts × Rows (List R)) × Ω
  /-- The last argument is the number of candidates asked for, the size of the answer's rows. -/
  prepareSampledSpeculativeTopk :
    Ω → Fed → Token → ℕ → ℕ → Except Failure (Drafts × Rows (TopkRow R)) × Ω
  /-- `draft_tokens`, `position`, `accepted`. -/
  acceptSampledSpeculative : Ω → Fed → Drafts → ℕ → ℕ → Except Failure Unit × Ω
  /-- The list of tokens answered, `tokens(:count)`. -/
  forwardGreedySpeculative : Ω → Fed → Token → ℕ → Except Failure (List Token) × Ω

/-- The model is deterministic: `target` gives the logits after a list of consumed tokens, and
every answer agrees with it.  Calls may still fail, and the drafts may be any tokens. -/
structure Answers.Follows {Ω R D : Type} [Arithmetic R D] (A : Answers Ω R)
    (target : Fed → List R) : Prop where
  forward : ∀ ω fed token position logits,
    (A.forward ω fed token position true).1 = .ok logits →
      logits = target (fed ++ feedAt position [token])
  forwardGreedy : ∀ ω fed token position next,
    (A.forwardGreedy ω fed token position true).1 = .ok next →
      next = argmax (target (fed ++ feedAt position [token]))
  forwardBatch : ∀ ω fed tokens position logits,
    (A.forwardBatch ω fed tokens position true).1 = .ok logits →
      logits = target (fed ++ feedAt position tokens)
  /-- Row `i` of a verification batch is what the scalar path gives after `i` drafts. -/
  rows : ∀ ω fed token position drafts rows,
    (A.prepareSampledSpeculative ω fed token position).1 = .ok (drafts, rows) → ∀ i ≤ 2,
      rows.get i = target (fed ++ feedAt position (token :: drafts.toList.take i))
  topkRows : ∀ ω fed token position topK drafts rows,
    (A.prepareSampledSpeculativeTopk ω fed token position topK).1 = .ok (drafts, rows) → ∀ i ≤ 2,
      IsTopkRow topK (target (fed ++ feedAt position (token :: drafts.toList.take i))) (rows.get i)
  /-- A greedy verification answers one to three tokens, each the target's own after those before
  it. -/
  greedyTokens : ∀ ω fed token position tokens,
    (A.forwardGreedySpeculative ω fed token position).1 = .ok tokens →
      tokens ≠ [] ∧ tokens.length ≤ 3 ∧ ∀ i (h : i < tokens.length),
        tokens[i] = argmax (target (fed ++ feedAt position (token :: tokens.take i)))

namespace Live

variable {Ω R : Type} (A : Answers Ω R) (m : Live Ω)

/-- A call answered with `reply`: on success the state consumes `fed`. -/
def answered {α : Type} (reply : Except Failure α × Ω) (fed : α → Fed) :
    Except Fault α × Live Ω :=
  match reply with
  | (.ok a, oracle) =>
    (.ok a, { m with consumed := m.consumed ++ fed a, calls := m.calls + 1, oracle := oracle })
  | (.error f, oracle) =>
    (.error f.fault,
      { m with consumed := f.leaves m.consumed, calls := m.calls + 1, oracle := oracle })

def forward (token : Token) (position : ℕ) (computeLogits : Bool) :
    Except Fault (List R) × Live Ω :=
  m.answered (A.forward m.oracle m.consumed token position computeLogits)
    fun _ => feedAt position [token]

def forwardGreedy (token : Token) (position : ℕ) (computeLogits : Bool) :
    Except Fault Token × Live Ω :=
  m.answered (A.forwardGreedy m.oracle m.consumed token position computeLogits)
    fun _ => feedAt position [token]

def forwardBatch (tokens : List Token) (position : ℕ) (computeLogits : Bool) :
    Except Fault (List R) × Live Ω :=
  m.answered (A.forwardBatch m.oracle m.consumed tokens position computeLogits)
    fun _ => feedAt position tokens

/-- The verification batch is evaluated, but nothing counts as consumed before it is accepted. -/
def prepareSampledSpeculative (token : Token) (position : ℕ) :
    Except Fault (Drafts × Rows (List R)) × Live Ω :=
  { m with prepared := token }.answered
    (A.prepareSampledSpeculative m.oracle m.consumed token position) fun _ => []

def prepareSampledSpeculativeTopk (token : Token) (position topK : ℕ) :
    Except Fault (Drafts × Rows (TopkRow R)) × Live Ω :=
  { m with prepared := token }.answered
    (A.prepareSampledSpeculativeTopk m.oracle m.consumed token position topK) fun _ => []

/-- Commits the prepared token and the accepted drafts. -/
def acceptSampledSpeculative (drafts : Drafts) (position accepted : ℕ) :
    Except Fault Unit × Live Ω :=
  m.answered (A.acceptSampledSpeculative m.oracle m.consumed drafts position accepted)
    fun _ => feedAt position (m.prepared :: drafts.toList.take accepted)

/-- The last token answered is the model's next token; those before it were accepted. -/
def forwardGreedySpeculative (token : Token) (position : ℕ) :
    Except Fault (List Token) × Live Ω :=
  m.answered (A.forwardGreedySpeculative m.oracle m.consumed token position)
    fun tokens => feedAt position (token :: tokens.dropLast)

variable {A m}

theorem answered_ok {α : Type} {reply : Except Failure α × Ω} {fed : α → Fed} {a : α}
    {m' : Live Ω} (h : m.answered reply fed = (.ok a, m')) :
    reply.1 = .ok a ∧ m'.consumed = m.consumed ++ fed a ∧ m'.prepared = m.prepared ∧
      m'.calls = m.calls + 1 ∧ m'.oracle = reply.2 := by
  obtain ⟨(f | b), oracle⟩ := reply
  · simp [answered] at h
  · simp only [answered, Prod.mk.injEq, Except.ok.injEq] at h
    obtain ⟨rfl, rfl⟩ := h
    exact ⟨rfl, rfl, rfl, rfl, rfl⟩

theorem answered_error {α : Type} {reply : Except Failure α × Ω} {fed : α → Fed} {f : Fault}
    {m' : Live Ω} (h : m.answered reply fed = (.error f, m')) :
    (∃ failure, reply.1 = .error failure ∧ failure.fault = f) ∧
      (f = .unsupported → m'.consumed = m.consumed) := by
  obtain ⟨(failure | b), oracle⟩ := reply
  · simp only [answered, Prod.mk.injEq, Except.error.injEq] at h
    obtain ⟨rfl, rfl⟩ := h
    exact ⟨⟨failure, rfl, rfl⟩, fun hf => by simp [Failure.leaves, hf]⟩
  · simp [answered] at h

theorem answered_of_ok {α : Type} (m : Live Ω) {reply : Except Failure α × Ω} (fed : α → Fed) {a : α}
    (h : reply.1 = .ok a) : ∃ m', m.answered reply fed = (.ok a, m') := by
  obtain ⟨r, oracle⟩ := reply
  obtain rfl : r = .ok a := h
  exact ⟨_, rfl⟩

theorem answered_of_unsupported {α : Type} (m : Live Ω) {reply : Except Failure α × Ω}
    (fed : α → Fed) {left : Fed} (h : reply.1 = .error ⟨.unsupported, left⟩) :
    ∃ m', m.answered reply fed = (.error .unsupported, m') ∧ m'.consumed = m.consumed := by
  obtain ⟨r, oracle⟩ := reply
  obtain rfl : r = .error ⟨.unsupported, left⟩ := h
  exact ⟨_, rfl, rfl⟩

end Live

end FortAI
