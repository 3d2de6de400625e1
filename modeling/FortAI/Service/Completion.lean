import FortAI.Machine.Loop
import FortAI.Service.Model

/-!
# One completion request

`fortai_native_service_complete_text_sampling`, in the phases of the source: the checks of the
arguments (`admitted`), the claim of the prefix cache (`claim`), the evaluation of the prompt
(`promptPhase`), the generation loop (`generationStep`) and the publication of the cache
(`publish`).

An allocated array has the size the source gives it, and its entries are whatever the memory held
until they are written (`Call.stateMemory`, `Call.historyMemory`, `Call.logitsMemory`).  Times are
not modelled.
-/

namespace FortAI

open Arithmetic

/-- What `fortai_native_service_init` fixes. -/
structure Setup where
  ready : Bool
  vocabularySize : ℕ
  maxContext : ℕ
  externalDraftActive : Bool
  /-- `service_tokenizer%encode`; `none` when it produces no buffer. -/
  encode : List UInt8 → Option (List Token)
  decode : List Token → List UInt8
  isStop : Token → Bool

/-- The arguments of a completion, and what it reads from its surroundings. -/
structure Call (R : Type) where
  promptText : List UInt8
  maxTokens : ℤ
  temperature : R
  seed : ℤ
  options : SamplingOptions R
  /-- `service_model%mtp_active`. -/
  mtpActive : Bool
  /-- `service_model%cuda_batch_capacity`. -/
  batchCapacity : ℕ
  /-- `native_ignore_eos_requested()`. -/
  ignoreEos : Bool
  /-- `system_clock(count=clock)`. -/
  clock : ℤ
  stateMemory : ℕ → Token
  historyMemory : ℕ → Token
  logitsMemory : List R

/-- The module variables of the service. -/
structure Service (Ω Δ R : Type) where
  model : Live Ω
  draft : Live Δ
  cacheTokens : Option (List Token)
  cacheLogits : Option (List R)
  cacheCount : ℕ
  cacheNextToken : Token
  cacheValid : Bool
  cacheLogitsValid : Bool
  lastPromptTokens : ℕ
  lastGenerationTokens : ℕ
  lastDraftTokens : ℕ
  lastDraftAccepted : ℕ

/-- The result of a completion. -/
structure Reply where
  /-- The function result: the length of the text, or `-1`. -/
  code : ℤ
  text : List UInt8
  tokenCount : ℕ
  promptTokenCount : ℕ
  /-- The token list passed to `decode`. -/
  decoded : List Token

/-- The working variables of a completion. -/
structure Locals (Ω Δ R : Type) where
  model : Live Ω
  draft : Live Δ
  generator : Mt19937
  current : Token
  /-- `logits`, when allocated. -/
  logits : Option (List R)
  cacheResultLogitsValid : Bool
  history : List Token
  stateTokens : List Token
  stateCount : ℕ
  /-- `generated_ids(:generated_count)`. -/
  generatedIds : List Token
  stopTokenCount : ℕ
  useNativeMtp : Bool
  promptStart : ℕ
  lastPromptTokens : ℕ
  draftTokens : ℕ
  draftAccepted : ℕ

/-- What a pass through the generation loop did. -/
inductive Branch
  /-- `max_tokens` or the context size was reached at the loop head. -/
  | limit
  | noToken
  | stopToken
  /-- `max_tokens` was reached by the token just emitted. -/
  | lastToken
  /-- A verification batch was committed; `stopped`: one of the accepted drafts is a stop token. -/
  | speculativeGreedy (stopped : Bool)
  | speculativeLogits (stopped : Bool)
  | speculativeTopk (stopped : Bool)
  | sampled
  | penalised
  | greedy
  /-- A call failed, or the token log has no room. -/
  | failed
  deriving DecidableEq, Repr

section

variable {Ω Δ R D : Type} [Arithmetic R D]

namespace Call

def temperaturePositive (c : Call R) : Bool := lt zero c.temperature

def penaltiesActive (c : Call R) : Bool := samplingPenaltiesActive c.options

def needsLogits (c : Call R) : Bool := c.temperaturePositive || c.penaltiesActive

def useExternalDraft (setup : Setup) (c : Call R) : Bool :=
  setup.externalDraftActive && eq c.temperature zero && !c.penaltiesActive

def useDeviceTopk (c : Call R) : Bool :=
  c.mtpActive && c.temperaturePositive && decide (0 < c.options.topK) &&
    decide (c.options.topK ≤ 32) && !c.penaltiesActive

def randomSeed (c : Call R) : ℤ :=
  if c.seed ≠ 0 then c.seed else if c.clock ≠ 0 then c.clock else 0x6a09e667f3bcc909

end Call

/-- The checks made before anything is claimed: the prompt's tokens, if they are passed. -/
def admitted (setup : Setup) (c : Call R) : Except ℕ (List Token) :=
  if !setup.ready then .error 0
  else if c.maxTokens ≤ 0 then .error 0
  else if !finite c.temperature then .error 0
  else if lt c.temperature zero then .error 0
  else if !validSamplingOptions c.options then .error 0
  else
    match setup.encode c.promptText with
    | none => .error 0
    | some ids =>
      if ids.length = 0 then .error 0
      else if ids.length ≥ setup.maxContext then .error ids.length
      else .ok ids

/-! ### The prefix cache -/

/-- The cached tokens are a prefix of the prompt. -/
def prefixHit (setup : Setup) (s : Service Ω Δ R) (ids : List Token) : Bool :=
  s.cacheValid && decide (0 < s.cacheCount) &&
    (match s.cacheTokens with
      | none => false
      | some tokens =>
        decide (s.cacheCount ≤ ids.length) &&
          decide (ids.take s.cacheCount = tokens.take s.cacheCount)) &&
    !setup.externalDraftActive

/-- `cache_logits_usable`, for a prompt that hits the cache. -/
def cacheLogitsUsable (setup : Setup) (s : Service Ω Δ R) : Bool :=
  s.cacheLogitsValid &&
    match s.cacheLogits with
    | none => false
    | some logits => decide (logits.length = setup.vocabularySize)

/-- `cache_hit`. -/
def cacheHit (setup : Setup) (c : Call R) (s : Service Ω Δ R) (ids : List Token) : Bool :=
  prefixHit setup s ids &&
    !(c.needsLogits && decide (ids.length = s.cacheCount) && !cacheLogitsUsable setup s)

/-- The token picked from the logits of the whole prompt. -/
def pickToken (c : Call R) (logits : List R) (generator : Mt19937) (history : List Token)
    (historyCount : ℕ) : Token × Mt19937 :=
  if c.temperaturePositive then
    sampleLogits logits c.temperature generator history historyCount c.options
  else if c.penaltiesActive then
    (greedyPenalized logits history historyCount c.options, generator)
  else (argmax logits, generator)

/-- The working variables before the cache is consulted. -/
def initialLocals (c : Call R) (s : Service Ω Δ R) (ids : List Token) : Locals Ω Δ R where
  model := s.model
  draft := s.draft
  generator := Mt19937.seed c.randomSeed
  current := -1
  logits := if c.needsLogits then some c.logitsMemory else none
  cacheResultLogitsValid := false
  history := ids ++ (List.range c.maxTokens.toNat).map c.historyMemory
  stateTokens := ids ++ (List.range c.maxTokens.toNat).map c.stateMemory
  stateCount := 0
  generatedIds := []
  stopTokenCount := 0
  useNativeMtp := c.mtpActive
  promptStart := 1
  lastPromptTokens := 0
  draftTokens := 0
  draftAccepted := 0

/-- The first token of a prompt that is exactly the cached prefix. -/
def fullHit (setup : Setup) (c : Call R) (s : Service Ω Δ R) (ids : List Token)
    (g : Locals Ω Δ R) : Locals Ω Δ R :=
  match s.cacheLogits with
  | some logits =>
    if cacheLogitsUsable setup s then
      let (current, generator) := pickToken c logits g.generator g.history ids.length
      { g with logits := g.logits.map fun _ => logits, current := current, generator := generator }
    else { g with current := s.cacheNextToken }
  | none => { g with current := s.cacheNextToken }

/-- A hit takes the cached state over, and anything else resets the model. -/
def takeOver (setup : Setup) (c : Call R) (s : Service Ω Δ R) (ids : List Token) : Locals Ω Δ R :=
  let g := initialLocals c s ids
  if cacheHit setup c s ids then
    { g with promptStart := s.cacheCount + 1, stateCount := s.cacheCount }
  else { g with model := g.model.reset }

def resetDraft (setup : Setup) (c : Call R) (g : Locals Ω Δ R) : Locals Ω Δ R :=
  if c.useExternalDraft setup then { g with draft := g.draft.reset } else g

/-- The working variables at the start of the prompt. -/
def claim (setup : Setup) (c : Call R) (s : Service Ω Δ R) (ids : List Token) : Locals Ω Δ R :=
  let g := resetDraft setup c (takeOver setup c s ids)
  let g :=
    if cacheHit setup c s ids && decide (g.promptStart > ids.length) then fullHit setup c s ids g
    else g
  { g with lastPromptTokens := ids.length + 1 - g.promptStart }

variable (setup : Setup) (A : Answers Ω R) (B : Answers Δ R) (c : Call R)

/-! ### The prompt -/

/-- Feed a token to the standalone draft. -/
def draftStep (token : Token) (position : ℕ) (g : Locals Ω Δ R) :
    Except (Locals Ω Δ R) (Locals Ω Δ R) :=
  if c.useExternalDraft setup then
    match g.draft.forwardGreedy B token position true with
    | (.ok _, draft) => .ok { g with draft := draft }
    | (.error _, draft) => .error { g with draft := draft }
  else .ok g

/-- The size of the next prompt batch. -/
def batchCount (capacity remaining : ℕ) : ℕ :=
  let count := min capacity remaining
  let count := if count > 32 ∧ count % 32 ≠ 0 then 32 * (count / 32) else count
  if count > 8 ∧ count < 32 then 8 else count

/-- The batched prompt from token `batchBegin` (from 1) on; `true` when the whole prompt has been
evaluated.  Every batch holds at least one token, so `fuel = ids.length` is enough. -/
def promptBatches (ids : List Token) :
    ℕ → ℕ → Locals Ω Δ R → Except (Locals Ω Δ R) (Bool × Locals Ω Δ R)
  | 0, _, g => .ok (false, g)
  | fuel + 1, batchBegin, g =>
    if batchBegin > ids.length then .ok (false, g)
    else
      let count := batchCount c.batchCapacity (ids.length - batchBegin + 1)
      if !A.batchSupported g.model.oracle count then .ok (false, g)
      else
        let batchEnd := batchBegin + count - 1
        match g.model.forwardBatch A ((ids.drop (batchBegin - 1)).take count) (batchBegin - 1)
            (decide (batchEnd = ids.length)) with
        | (.error _, model) => .error { g with model := model.reset }
        | (.ok logits, model) =>
          let g := { g with
            model := model, logits := some logits, stateCount := batchEnd,
            promptStart := batchEnd + 1 }
          if batchEnd = ids.length then
            let (current, generator) := pickToken c logits g.generator g.history ids.length
            .ok (true, { g with current := current, generator := generator })
          else promptBatches ids fuel (batchEnd + 1) g

/-- Prompt token `i` (from 1) through the scalar path. -/
def promptToken (ids : List Token) (i : ℕ) (token : Token) (g : Locals Ω Δ R) :
    Except (Locals Ω Δ R) (Locals Ω Δ R) :=
  let last := decide (i = ids.length)
  if c.needsLogits then
    match g.model.forward A token (i - 1) last with
    | (.error _, model) => .error { g with model := model }
    | (.ok logits, model) =>
      let (current, generator) :=
        if last then pickToken c logits g.generator g.history i else (g.current, g.generator)
      draftStep setup B c token (i - 1)
        { g with
          model := model, logits := some logits, current := current, generator := generator,
          stateCount := i }
  else
    match g.model.forwardGreedy A token (i - 1) last with
    | (.error _, model) => .error { g with model := model }
    | (.ok next, model) =>
      draftStep setup B c token (i - 1) { g with model := model, current := next, stateCount := i }

/-- The scalar prompt: `rest` holds the tokens from `i` (from 1) on. -/
def promptScalar (ids : List Token) :
    ℕ → List Token → Locals Ω Δ R → Except (Locals Ω Δ R) (Locals Ω Δ R)
  | _, [], g => .ok g
  | i, token :: rest, g =>
    match promptToken setup A B c ids i token g with
    | .error g => .error g
    | .ok g => promptScalar ids (i + 1) rest g

/-- What the batches left of the prompt. -/
def promptRest (ids : List Token) (g : Locals Ω Δ R) : Except (Locals Ω Δ R) (Locals Ω Δ R) :=
  promptScalar setup A B c ids g.promptStart (ids.drop (g.promptStart - 1)) g

def evaluatePrompt (ids : List Token) (g : Locals Ω Δ R) : Except (Locals Ω Δ R) (Locals Ω Δ R) :=
  if !c.useExternalDraft setup && decide (g.promptStart ≤ ids.length) &&
      decide (c.batchCapacity > 1) then
    match promptBatches A c ids ids.length g.promptStart g with
    | .error g => .error g
    | .ok (true, g) => .ok g
    | .ok (false, g) => promptRest setup A B c ids g
  else promptRest setup A B c ids g

def promptPhase (ids : List Token) (g : Locals Ω Δ R) : Except (Locals Ω Δ R) (Locals Ω Δ R) :=
  match evaluatePrompt setup A B c ids g with
  | .error g => .error g
  | .ok g => .ok { g with cacheResultLogitsValid := c.needsLogits && g.logits.isSome }

/-! ### The generation loop -/

/-- Emit a token: it is appended to the generated tokens and to the sampling history. -/
def emit (ids : List Token) (token : Token) (g : Locals Ω Δ R) : Locals Ω Δ R :=
  { g with
    generatedIds := g.generatedIds ++ [token]
    history := g.history.set (ids.length + g.generatedIds.length) token }

/-- Write `tokens` into an array from index `i` (from 0) on. -/
def writeAt (array : List Token) (i : ℕ) (tokens : List Token) : List Token :=
  array.take i ++ tokens ++ array.drop (i + tokens.length)

/-- What the target says about the drafts of a verification batch. -/
structure Verified where
  /-- The number of leading drafts the target agrees with. -/
  accepted : ℕ
  /-- The target's own token after the accepted drafts. -/
  next : Token
  generator : Mt19937
  history : List Token

/-- Pick the target's token row by row as long as it agrees with the draft; `pick` draws a token
from a row given the first `n` entries of the history. -/
def verifySampled {α : Type} (pick : α → Mt19937 → List Token → ℕ → Token × Mt19937)
    (rows : Rows α) (drafts : Drafts) (generator : Mt19937) (history : List Token) (n : ℕ) :
    Verified :=
  let (first, generator) := pick rows.first generator history n
  if first ≠ drafts.first then ⟨0, first, generator, history⟩
  else
    let history := history.set n drafts.first
    let (second, generator) := pick rows.second generator history (n + 1)
    if second ≠ drafts.second then ⟨1, second, generator, history⟩
    else
      let history := history.set (n + 1) drafts.second
      let (third, generator) := pick rows.third generator history (n + 2)
      ⟨2, third, generator, history⟩

/-- How a token is picked from a row of logits. -/
def pickRow (row : List R) (generator : Mt19937) (history : List Token) (n : ℕ) :
    Token × Mt19937 :=
  if c.temperaturePositive then sampleLogits row c.temperature generator history n c.options
  else (greedyPenalized row history n c.options, generator)

/-- How a token is picked from the candidates of a row. -/
def pickTopk (row : TopkRow R) (generator : Mt19937) (_history : List Token) (_n : ℕ) :
    Token × Mt19937 :=
  sampleTopkCandidates row c.temperature generator c.options setup.vocabularySize

/-- Commit what was verified; on success the tokens answered, and the drafts are counted. -/
def acceptVerified (drafts : Drafts) (position : ℕ) (v : Verified) (g : Locals Ω Δ R) :
    Except Fault (List Token) × Locals Ω Δ R :=
  let g := { g with generator := v.generator, history := v.history }
  match g.model.acceptSampledSpeculative A drafts position v.accepted with
  | (.error f, model) => (.error f, { g with model := model })
  | (.ok _, model) =>
    (.ok (drafts.toList.take v.accepted ++ [v.next]),
      { g with
        model := model, draftTokens := g.draftTokens + 2,
        draftAccepted := g.draftAccepted + v.accepted })

/-- A speculative step whose tokens are sampled from the rows of a verification batch; `keep` is
what is kept of the row after the accepted drafts. -/
def speculateSampled {α : Type} (prepared : Except Fault (Drafts × Rows α) × Live Ω)
    (pick : α → Mt19937 → List Token → ℕ → Token × Mt19937)
    (keep : α → Locals Ω Δ R → Locals Ω Δ R) (ids : List Token) (position : ℕ)
    (g : Locals Ω Δ R) : Except Fault (List Token) × Locals Ω Δ R :=
  match prepared with
  | (.error f, model) => (.error f, { g with model := model })
  | (.ok (drafts, rows), model) =>
    let v := verifySampled pick rows drafts g.generator g.history
      (ids.length + g.generatedIds.length)
    match acceptVerified A drafts position v { g with model := model } with
    | (.error f, g) => (.error f, g)
    | (.ok tokens, g) => (.ok tokens, keep (rows.get v.accepted) g)

def keepRow (row : List R) (g : Locals Ω Δ R) : Locals Ω Δ R :=
  { g with logits := some row, cacheResultLogitsValid := true }

/-- The candidates of a row are no logits: the cache is published without any. -/
def keepTopk (_row : TopkRow R) (g : Locals Ω Δ R) : Locals Ω Δ R :=
  { g with cacheResultLogitsValid := false }

/-- A speculative step on full rows of logits. -/
def speculateLogits (ids : List Token) (position : ℕ) (g : Locals Ω Δ R) :
    Except Fault (List Token) × Locals Ω Δ R :=
  speculateSampled A (g.model.prepareSampledSpeculative A g.current position) (pickRow c) keepRow
    ids position g

/-- A speculative step on the device's candidates. -/
def speculateTopk (ids : List Token) (position : ℕ) (g : Locals Ω Δ R) :
    Except Fault (List Token) × Locals Ω Δ R :=
  speculateSampled A
    (g.model.prepareSampledSpeculativeTopk A g.current position c.options.topK.toNat)
    (pickTopk setup c) keepTopk ids position g

/-- A greedy speculative step. -/
def speculateGreedy (position : ℕ) (g : Locals Ω Δ R) :
    Except Fault (List Token) × Locals Ω Δ R :=
  match g.model.forwardGreedySpeculative A g.current position with
  | (.error f, model) => (.error f, { g with model := model })
  | (.ok tokens, model) =>
    (.ok tokens,
      { g with
        model := model, draftTokens := g.draftTokens + 2,
        draftAccepted := g.draftAccepted + (tokens.length - 1) })

def speculate (ids : List Token) (position : ℕ) (g : Locals Ω Δ R) :
    Except Fault (List Token) × Locals Ω Δ R :=
  if c.needsLogits then
    if c.useDeviceTopk then speculateTopk setup A c ids position g
    else speculateLogits A c ids position g
  else speculateGreedy A position g

def speculativeBranch (stopped : Bool) : Branch :=
  if c.needsLogits then
    if c.useDeviceTopk then .speculativeTopk stopped else .speculativeLogits stopped
  else .speculativeGreedy stopped

/-- `.not. ignore_eos .and. service_tokenizer%is_stop(token)`. -/
def stops (token : Token) : Bool := !c.ignoreEos && setup.isStop token

/-- Emit the accepted drafts up to the first stop token; `true` when there was one. -/
def emitRun (ids : List Token) : List Token → Locals Ω Δ R → Bool × Locals Ω Δ R
  | [], g => (false, g)
  | token :: rest, g => if stops setup c token then (true, g) else emitRun ids rest (emit ids token g)

/-- The end of a pass: keep the standalone draft going. -/
def finishStep (branch : Branch) (position : ℕ) (g : Locals Ω Δ R) : Flow (Locals Ω Δ R) Branch :=
  match draftStep setup B c g.current position g with
  | .error g => .abort .failed g
  | .ok g => .next branch g

/-- Book the tokens of a committed verification batch. -/
def commitSpeculation (ids : List Token) (position : ℕ) (tokens : List Token) (g : Locals Ω Δ R) :
    Flow (Locals Ω Δ R) Branch :=
  if tokens.length = 0 ∨ tokens.length > 32 then .abort .failed g
  else if g.stateCount + tokens.length > g.stateTokens.length then .abort .failed g
  else
    let g := { g with
      stateTokens := writeAt g.stateTokens g.stateCount (g.current :: tokens.dropLast)
      stateCount := g.stateCount + tokens.length }
    match emitRun setup c ids tokens.dropLast g with
    | (true, g) => .done (speculativeBranch c true) { g with stopTokenCount := 1 }
    | (false, g) =>
      finishStep setup B c (speculativeBranch c false) position
        { g with current := tokens.getLastD 0 }

/-- One token through the scalar path.  With a positive temperature the source advances
`state_count` without writing `state_tokens`. -/
def scalarStep (ids : List Token) (position : ℕ) (g : Locals Ω Δ R) : Flow (Locals Ω Δ R) Branch :=
  if c.temperaturePositive then
    match g.model.forward A g.current position true with
    | (.error _, model) => .abort .failed { g with model := model }
    | (.ok logits, model) =>
      let (current, generator) := sampleLogits logits c.temperature g.generator g.history
        (ids.length + g.generatedIds.length) c.options
      finishStep setup B c .sampled position
        { g with
          model := model, logits := some logits, current := current, generator := generator,
          cacheResultLogitsValid := true, stateCount := g.stateCount + 1 }
  else
    if g.stateCount ≥ g.stateTokens.length then .abort .failed g
    else
      let g := { g with stateTokens := g.stateTokens.set g.stateCount g.current }
      if c.penaltiesActive then
        match g.model.forward A g.current position true with
        | (.error _, model) => .abort .failed { g with model := model }
        | (.ok logits, model) =>
          finishStep setup B c .penalised position
            { g with
              model := model, logits := some logits,
              current := greedyPenalized logits g.history (ids.length + g.generatedIds.length)
                c.options,
              stateCount := g.stateCount + 1 }
      else
        match g.model.forwardGreedy A g.current position true with
        | (.error _, model) => .abort .failed { g with model := model }
        | (.ok next, model) =>
          finishStep setup B c .greedy position
            { g with model := model, current := next, stateCount := g.stateCount + 1 }

/-- Advance the model after a token has been emitted. -/
def advance (ids : List Token) (g : Locals Ω Δ R) : Flow (Locals Ω Δ R) Branch :=
  let position := ids.length + g.generatedIds.length - 1
  if g.useNativeMtp && decide (c.maxTokens.toNat - g.generatedIds.length ≥ 2) then
    match speculate setup A c ids position g with
    | (.ok tokens, g) => commitSpeculation setup B c ids position tokens g
    | (.error .unsupported, g) =>
      scalarStep setup A B c ids position { g with useNativeMtp := false }
    | (.error _, g) => .abort .failed g
  else scalarStep setup A B c ids position g

/-- One pass through the generation loop. -/
def generationStep (ids : List Token) (g : Locals Ω Δ R) : Flow (Locals Ω Δ R) Branch :=
  if ¬(g.generatedIds.length < c.maxTokens.toNat ∧
      ids.length + g.generatedIds.length < setup.maxContext) then .done .limit g
  else if g.current < 0 then .done .noToken g
  else if stops setup c g.current then .done .stopToken { g with stopTokenCount := 1 }
  else
    let g := emit ids g.current g
    if g.generatedIds.length = c.maxTokens.toNat then .done .lastToken g
    else advance setup A B c ids g

/-- The generation loop.  Every pass emits a token, so `max_tokens + 1` passes are enough. -/
def generate (ids : List Token) (g : Locals Ω Δ R) : Ending (Locals Ω Δ R) :=
  Loop.run (generationStep setup A B c ids) (c.maxTokens.toNat + 1) g

/-! ### The end of the request -/

/-- A request that gave up: the cache is not valid, the models stay where they are. -/
def abandon (s : Service Ω Δ R) (g : Locals Ω Δ R) (promptEvaluated : Bool) : Service Ω Δ R :=
  { s with
    model := g.model
    draft := g.draft
    cacheValid := false
    lastPromptTokens := if promptEvaluated then g.lastPromptTokens else 0
    lastGenerationTokens := 0
    lastDraftTokens := g.draftTokens
    lastDraftAccepted := g.draftAccepted }

/-- The logits kept with the published cache: those of the request, or the old ones of a full hit
that consumed nothing. -/
def publishedLogits (s : Service Ω Δ R) (ids : List Token) (g : Locals Ω Δ R) :
    Option (List R) × Bool :=
  let preserveOldLogits := cacheHit setup c s ids && decide (g.stateCount = s.cacheCount)
  let kept := if preserveOldLogits then (s.cacheLogits, s.cacheLogitsValid) else (none, false)
  if c.needsLogits then
    match g.logits with
    | some logits => if g.cacheResultLogitsValid then (some logits, true) else kept
    | none => kept
  else kept

def publish (s : Service Ω Δ R) (ids : List Token) (g : Locals Ω Δ R) : Service Ω Δ R :=
  let counted := { s with
    model := g.model
    draft := g.draft
    lastPromptTokens := g.lastPromptTokens
    lastGenerationTokens := g.generatedIds.length
    lastDraftTokens := g.draftTokens
    lastDraftAccepted := g.draftAccepted }
  if g.stateCount > 0 then
    let (logits, logitsValid) := publishedLogits setup c s ids g
    { counted with
      cacheTokens := some (g.stateTokens.take g.stateCount)
      cacheCount := g.stateCount
      cacheNextToken := g.current
      cacheLogits := logits
      cacheLogitsValid := logitsValid
      cacheValid := true }
  else { counted with cacheValid := false }

def failedReply (promptTokenCount : ℕ) : Reply := ⟨-1, [], 0, promptTokenCount, []⟩

def completedReply (ids : List Token) (g : Locals Ω Δ R) : Reply :=
  let text := if g.generatedIds.length > 0 then setup.decode g.generatedIds else []
  ⟨text.length, text, g.generatedIds.length + g.stopTokenCount, ids.length, g.generatedIds⟩

/-- How a request that passed the checks ends: with the working variables at the end of the
generation loop, or with those at the point where it gave up. -/
def serve (s : Service Ω Δ R) (ids : List Token) : Except (Locals Ω Δ R × Bool) (Locals Ω Δ R) :=
  match promptPhase setup A B c ids (claim setup c s ids) with
  | .error g => .error (g, false)
  | .ok g =>
    match generate setup A B c ids g with
    | .finished g => .ok g
    | .exhausted g => .ok g
    | .aborted g => .error (g, true)

/-- `fortai_native_service_complete_text_sampling`. -/
def complete (s : Service Ω Δ R) : Reply × Service Ω Δ R :=
  match admitted setup c with
  | .error promptTokenCount =>
    (failedReply promptTokenCount,
      { s with
        lastPromptTokens := 0, lastGenerationTokens := 0, lastDraftTokens := 0,
        lastDraftAccepted := 0 })
  | .ok ids =>
    match serve setup A B c s ids with
    | .error (g, promptEvaluated) => (failedReply ids.length, abandon s g promptEvaluated)
    | .ok g => (completedReply setup ids g, publish setup c s ids g)

/-- What the passes through the generation loop of a request do; empty for a request that does not
get there. -/
def branches (s : Service Ω Δ R) : List Branch :=
  match admitted setup c with
  | .error _ => []
  | .ok ids =>
    match promptPhase setup A B c ids (claim setup c s ids) with
    | .error _ => []
    | .ok g => Loop.trace (generationStep setup A B c ids) (c.maxTokens.toNat + 1) g

end

end FortAI
