import FortAI.Machine.Cut
import FortAI.Machine.Generation
import FortAI.Whisper.Prefill
import FortAI.Whisper.Sampling
import FortAI.Whisper.Vocabulary

/-!
# Transcription

A chunk of at most thirty seconds goes through the encoder, the prompt through the decoder as one batch, and then
one token after the other.  The texts of the chunks are joined.

* `transcribeChunk`, `transcribe` : `whisper_runtime_transcribe_chunk` and `whisper_runtime_transcribe`.
* `chunkText`, `transcript` : the same from a model without a state, that scores what comes behind some tokens.
* `transcribeChunk_eq`, `transcribe_eq` : the runtime, in any state, makes these texts.
-/

namespace FortAI

namespace Whisper

open CString

variable {E D : Type} [Semiring E] [Numbers E D] {m : NativeModel E}

/-! ### The runtime -/

inductive TranscribeError
  | notInitialized
  | emptyPayload
  | language (given : Bytes)
  | task
  /-- Of the spectrogram and of the encoder. -/
  | audio (fault : Fault) (message : Bytes)
  | decoder (e : DecodeError)
  deriving DecidableEq

namespace TranscribeError

def fault : TranscribeError → Fault
  | audio fault _ => fault
  | decoder e => e.fault
  | _ => .invalid

def message : TranscribeError → Bytes
  | notInitialized => ascii "Whisper runtime is not initialized"
  | emptyPayload => ascii "Whisper audio payload is empty"
  | language given => ascii "unsupported Whisper language: " ++ trimEnd (· = space) given
  | task => ascii "Whisper task must be transcribe or translate"
  | audio _ message => message
  | decoder e => ascii e.message

end TranscribeError

/-- The optional arguments of a transcription. -/
structure Arguments (E : Type) where
  language : Option Bytes
  task : Option Bytes
  maxTokens : Option ℤ
  temperature : Option E
  seed : Option (BitVec 64)

namespace Arguments

/-- `actual_temperature` -/
def actualTemperature (a : Arguments E) : E :=
  match a.temperature with
  | none => Numbers.zero
  | some temperature => Numbers.max Numbers.zero temperature

/-- `random_state`; zero is no seed. -/
def randomState (a : Arguments E) : BitVec 64 :=
  match a.seed with
  | none => 88172645463325252
  | some seed => if seed ≠ 0 then seed else 88172645463325252

/-- The four tokens of the prompt. -/
def promptTokens (a : Arguments E) : Except TranscribeError (List ℕ) :=
  let languageId : Except TranscribeError ℤ :=
    match a.language with
    | none => .ok (tokenSot + 1)
    | some language =>
      match languageToken (trimEnd (· = space) language) with
      | none => .error (.language language)
      | some token => .ok token
  match languageId with
  | .error e => .error e
  | .ok languageId =>
    match a.task with
    | none => .ok [tokenSot.toNat, languageId.toNat, tokenTranscribe.toNat, tokenNot.toNat]
    | some task =>
      if trimEnd (· = space) task = ascii "translate" then
        .ok [tokenSot.toNat, languageId.toNat, tokenTranslate.toNat, tokenNot.toNat]
      else if trimEnd (· = space) task = ascii "transcribe" then
        .ok [tokenSot.toNat, languageId.toNat, tokenTranscribe.toNat, tokenNot.toNat]
      else .error .task

end Arguments

/-- `whisper_native_runtime_t`: `encode` stands for the spectrogram of a chunk and the encoder. -/
structure Runtime (m : NativeModel E) where
  ready : Bool
  vocab : Option (List Bytes)
  encode : List E → Except TranscribeError (Tensor E)
  decoder : Decoder m

namespace Runtime

variable (self : Runtime m)

/-- What a token adds to the text. -/
def emitted (token : ℤ) : Bytes :=
  let (piece, valid) := tokenPiece self.vocab token
  if valid && piece.length > 0 then piece else []

/-- The loop over the steps of a chunk. -/
def steps (temperature : E) : ℕ → Decoder m → List E → BitVec 64 → ℤ → Bytes →
    Decoder m × Except TranscribeError Bytes
  | 0, decoder, _, _, _, text => (decoder, .ok text)
  | n + 1, decoder, logits, randomState, position, text =>
    let logits := suppressSpecialTokens logits m.nVocab
    let (token, randomState) := nativeSample logits temperature randomState
    if token = tokenEot ∨ token = tokenNot ∨ token ≥ tokenBeg then (decoder, .ok text)
    else if token < 0 ∨ token ≥ m.nVocab then (decoder, .ok text)
    else
      let text := text ++ self.emitted token
      let position := position + 1
      if position ≥ m.nTextCtx then (decoder, .ok text)
      else
        match decoder.decode token.toNat (position - 1) with
        | .error e => (decoder, .error (.decoder e))
        | .ok (decoder, logits) => steps temperature n decoder logits randomState position text

/-- `whisper_runtime_transcribe_chunk` -/
def transcribeChunk (samples : List E) (a : Arguments E) (maxTokens : ℤ) :
    Runtime m × Except TranscribeError Bytes :=
  match a.promptTokens with
  | .error e => (self, .error e)
  | .ok promptTokens =>
    match self.encode samples with
    | .error e => (self, .error e)
    | .ok output =>
      let decoder := self.decoder.prepareCross output
      match decoder.decodeTokens promptTokens 0 with
      | .error e => ({ self with decoder := decoder }, .error (.decoder e))
      | .ok (decoder, logits) =>
        let position := (promptTokens.length : ℤ)
        let (decoder, text) :=
          self.steps a.actualTemperature maxTokens.toNat decoder logits a.randomState position []
        ({ self with decoder := decoder }, text)

/-- `WHISPER_CHUNK_SAMPLES` -/
def chunkSamples : ℕ := 16000 * 30

/-- `limit` -/
def limit (maxTokens : Option ℤ) : ℤ :=
  match maxTokens with
  | none => 256
  | some maxTokens => if maxTokens < 1 then 1 else if maxTokens > 4096 then 4096 else maxTokens

/-- The loop over the chunks, with what is left of the samples. -/
def chunks (a : Arguments E) (limit : ℤ) (firstChunk : Bool) (self : Runtime m) (text : Bytes)
    (samples : List E) : Runtime m × Except TranscribeError Bytes :=
  if _h : samples = [] then (self, .ok text)
  else
    match self.transcribeChunk (samples.take chunkSamples) a limit with
    | (self, .error e) => (self, .error e)
    | (self, .ok chunkText) =>
      let text := if !firstChunk && chunkText.length > 0 then text ++ [space] else text
      chunks a limit false self (text ++ chunkText) (samples.drop chunkSamples)
termination_by samples.length
decreasing_by
  have := List.length_pos_iff.mpr _h
  rw [List.length_drop, chunkSamples]
  omega

/-- `whisper_runtime_transcribe` -/
def transcribe (samples : List E) (a : Arguments E) : Runtime m × Except TranscribeError Bytes :=
  if !self.ready then (self, .error .notInitialized)
  else if samples.length = 0 then (self, .error .emptyPayload)
  else chunks a (limit a.maxTokens) true self [] samples

/-! ### Without a state -/

section
variable (m)

/-- The scores of what comes behind some tokens, in one batch. -/
def scores (flashAttention : Bool) (output : Tensor E) (tokens : List ℕ) : List E :=
  match ((Decoder.init m (some flashAttention)).prepareCross output).decodeTokens tokens 0 with
  | .error _ => []
  | .ok (_, logits) => logits

/-- The token ends the text. -/
def Ends (token : ℤ) : Prop :=
  (token = tokenEot ∨ token = tokenNot ∨ token ≥ tokenBeg) ∨ token < 0 ∨ token ≥ m.nVocab

instance (token : ℤ) : Decidable (Ends m token) := inferInstanceAs (Decidable (_ ∨ _))

/-- The token that goes on, if one does. -/
def pick (temperature : E) (logits : List E) (randomState : BitVec 64) : Option (ℕ × BitVec 64) :=
  let drawn := nativeSample (suppressSpecialTokens logits m.nVocab) temperature randomState
  if Ends m drawn.1 then none else some (drawn.1.toNat, drawn.2)

/-- How many tokens are taken behind some others; one is in any case. -/
def room (maxTokens length : ℕ) : ℕ := Nat.min maxTokens (if m.nTextCtx ≤ length + 1 then 1 else m.nTextCtx - length)

/-- The tokens of a chunk. -/
def chunkTokens (flashAttention : Bool) (output : Tensor E) (promptTokens : List ℕ) (a : Arguments E)
    (maxTokens : ℤ) : List ℕ :=
  Generation.generate (scores m flashAttention output) (pick m a.actualTemperature)
    (room m maxTokens.toNat promptTokens.length) promptTokens a.randomState

end

/-- The text of a chunk. -/
def chunkText (samples : List E) (a : Arguments E) (maxTokens : ℤ) : Except TranscribeError Bytes :=
  match a.promptTokens with
  | .error e => .error e
  | .ok promptTokens =>
    match self.encode samples with
    | .error e => .error e
    | .ok output =>
      if m.nTextCtx < 4 then .error (.decoder .position)
      else .ok ((chunkTokens m self.decoder.flashAttention output promptTokens a maxTokens).flatMap fun token : ℕ =>
        self.emitted token)

/-- The texts of the chunks, with a blank in front of a later one that is not empty. -/
def joinTexts : List Bytes → Bytes
  | [] => []
  | text :: texts => text ++ texts.flatMap fun text => if text = [] then [] else space :: text

/-- The text of some samples: each chunk on its own. -/
def transcript (samples : List E) (a : Arguments E) : Except TranscribeError Bytes :=
  ((Cut.cut chunkSamples samples).mapM fun chunk => self.chunkText chunk a (limit a.maxTokens)).map joinTexts

/-- The runtimes have the same model, whatever their decoders hold. -/
structure SameModel (a b : Runtime m) : Prop where
  ready : b.ready = a.ready
  vocab : b.vocab = a.vocab
  encode : b.encode = a.encode
  flash : b.decoder.flashAttention = a.decoder.flashAttention

/-! ### A chunk -/

section
variable {flashAttention : Bool} {output : Tensor E}

/-- The decoder behind the encoder. -/
def prepared (m : NativeModel E) (flashAttention : Bool) (output : Tensor E) : Decoder m :=
  (Decoder.init m (some flashAttention)).prepareCross output

omit [Numbers E D] in
/-- Nothing of the caches is left behind the encoder. -/
theorem prepareCross_eq (decoder : Decoder m) (output : Tensor E) :
    decoder.prepareCross output = prepared m decoder.flashAttention output := rfl

omit [Numbers E D] in
theorem flashAttention_foldl (layers : List ℕ) (decoder : Decoder m) :
    (layers.foldl (Decoder.crossTurn output) decoder).flashAttention = decoder.flashAttention := by
  induction layers generalizing decoder with
  | nil => rfl
  | cons layer layers ih => exact ih _

omit [Numbers E D] in
theorem flashAttention_prepared : (prepared m flashAttention output).flashAttention = flashAttention :=
  flashAttention_foldl _ _

/-- The decoder stands for these tokens. -/
structure Holds (flashAttention : Bool) (output : Tensor E) (decoder : Decoder m) (tokens : List ℕ) : Prop where
  alike : (prepared m flashAttention output).Alike decoder
  kept : decoder.allKept = ((prepared m flashAttention output).layers.run (prepared m flashAttention output).allKept
    (Decoder.embedded m tokens 0)).1

omit [Numbers E D] in
theorem embedded_append (tokens tokens' : List ℕ) (position : ℕ) :
    Decoder.embedded m (tokens ++ tokens') position =
      Decoder.embedded m tokens position ++ Decoder.embedded m tokens' (position + tokens.length) := by
  simp [Decoder.embedded, List.zipIdx_append]

section
variable {tokens : List ℕ} (htokens : tokens ≠ []) (hroom : tokens.length ≤ m.nTextCtx)
include htokens hroom

variable (flashAttention output) in
omit [Numbers E D] in
theorem decodeTokens_prepared : ∃ behind, (prepared m flashAttention output).decodeTokens tokens 0 =
      .ok (behind, scores m flashAttention output tokens) ∧ Holds flashAttention output behind tokens ∧
      scores m flashAttention output tokens = Decoder.lastScores m [] ((prepared m flashAttention output).layers.run
        (prepared m flashAttention output).allKept (Decoder.embedded m tokens 0)).2 := by
  have hbatch : 0 + tokens.length ≤ m.nTextCtx := (Nat.zero_add _).trans_le hroom
  obtain ⟨behind, hcall, hkept, halike⟩ :=
    (prepared m flashAttention output).decodeTokens_run hbatch rfl htokens []
  rw [Nat.cast_zero] at hcall
  have hscores : scores m flashAttention output tokens = Decoder.lastScores m []
      ((prepared m flashAttention output).layers.run (prepared m flashAttention output).allKept
        (Decoder.embedded m tokens 0)).2 := by
    rw [scores, ← prepared, hcall]
  exact ⟨behind, hscores ▸ hcall, ⟨halike, hkept⟩, hscores⟩

omit [Numbers E D] in
/-- **One token more.** -/
theorem Holds.decode {decoder : Decoder m} (h : Holds flashAttention output decoder tokens)
    (hnext : tokens.length + 1 ≤ m.nTextCtx) (token : ℕ) :
    ∃ behind, decoder.decode token tokens.length =
      .ok (behind, scores m flashAttention output (tokens ++ [token])) ∧
      Holds flashAttention output behind (tokens ++ [token]) := by
  have hroom' : (tokens ++ [token]).length ≤ m.nTextCtx := by simpa using hnext
  have hlast : tokens.length + [token].length ≤ m.nTextCtx := hnext
  obtain ⟨-, -, -, hfront⟩ := decodeTokens_prepared flashAttention output htokens hroom
  obtain ⟨-, -, -, hall⟩ := decodeTokens_prepared flashAttention output (by simp) hroom'
  obtain ⟨behind, hcall, hkept, halike⟩ := decoder.decodeTokens_run hlast (h.alike.ready.trans rfl)
    (List.cons_ne_nil _ _) (scores m flashAttention output tokens)
  -- the token goes through the layers behind the others
  rw [embedded_append, Stage.run_append, Nat.zero_add, Decoder.lastScores_append, ← hfront, ← h.kept,
    ← h.alike.layers_eq] at hall
  refine ⟨behind, hall ▸ hcall, h.alike.trans halike, ?_⟩
  rw [embedded_append, Stage.run_append, Nat.zero_add, ← h.kept, ← h.alike.layers_eq]
  exact hkept

end

omit [Semiring E] [Numbers E D] in
theorem room_of_le {n length : ℕ} (h : m.nTextCtx ≤ length + 1) : room m (n + 1) length = 1 := by
  rw [room, if_pos h]
  exact Nat.min_eq_right (Nat.succ_le_succ (Nat.zero_le n))

omit [Semiring E] [Numbers E D] in
theorem room_of_lt {n length : ℕ} (h : ¬ m.nTextCtx ≤ length + 1) :
    room m (n + 1) length = room m n (length + 1) + 1 := by
  rw [room, room, if_neg h]
  show Nat.min (n + 1) _ = Nat.min n _ + 1
  split_ifs with hlast
  · have : m.nTextCtx - length = 2 := by omega
    rw [this]
    exact Nat.succ_min_succ n 1
  · have : m.nTextCtx - length = m.nTextCtx - (length + 1) + 1 := by omega
    rw [this]
    exact Nat.succ_min_succ n _

/-- **The loop makes the text of the model.** -/
theorem steps_eq (temperature : E) {n : ℕ} {decoder : Decoder m} {tokens : List ℕ}
    (h : Holds flashAttention output decoder tokens) (htokens : tokens ≠ []) (hroom : tokens.length ≤ m.nTextCtx)
    (randomState : BitVec 64) (text : Bytes) :
    ∃ behind,
      self.steps temperature n decoder (scores m flashAttention output tokens) randomState tokens.length text =
      (behind, .ok (text ++ (Generation.generate (scores m flashAttention output) (pick m temperature)
        (room m n tokens.length) tokens randomState).flatMap fun token : ℕ => self.emitted token)) ∧
      behind.flashAttention = flashAttention := by
  induction n generalizing decoder tokens randomState text with
  | zero =>
    have hflash := h.alike.flash.trans flashAttention_prepared
    have hzero : room m 0 tokens.length = 0 := Nat.zero_min _
    exact ⟨decoder, by simp [steps, hzero, Generation.generate], hflash⟩
  | succ n ih =>
    have hflash := h.alike.flash.trans flashAttention_prepared
    rw [steps]
    set r := nativeSample (suppressSpecialTokens (scores m flashAttention output tokens) m.nVocab) temperature
      randomState with hr
    by_cases hstop : Ends m r.1
    · -- the loop leaves with the text it has
      refine ⟨decoder, ?_, hflash⟩
      rw [Generation.generate_of_none (if_pos hstop)]
      rcases hstop with hstop | hstop
      · simp [hstop]
      · simp [hstop]
    · have hpick : pick m temperature (scores m flashAttention output tokens) randomState = some (r.1.toNat, r.2) :=
        if_neg hstop
      obtain ⟨hend, hrange⟩ := not_or.mp hstop
      have hcast : ((r.1.toNat : ℕ) : ℤ) = r.1 := Int.toNat_of_nonneg (by omega)
      simp only [if_neg hend, if_neg hrange]
      by_cases hlast : m.nTextCtx ≤ tokens.length + 1
      · -- the context is full behind this token
        refine ⟨decoder, ?_, hflash⟩
        rw [room_of_le hlast, Generation.generate_of_some hpick, if_pos (by omega)]
        simp [Generation.generate, hcast]
      · obtain ⟨next, hcall, hnext⟩ := h.decode htokens hroom (by omega) r.1.toNat
        obtain ⟨behind, hrest, hbehind⟩ :=
          ih hnext (by simp) (by simpa using Nat.le_of_lt (Nat.lt_of_not_le hlast)) r.2
          (text ++ self.emitted r.1)
        refine ⟨behind, ?_, hbehind⟩
        rw [if_neg (by omega), room_of_lt hlast, Generation.generate_of_some hpick]
        simp only [Int.add_sub_cancel, hcall]
        simpa [hcast] using hrest

end

omit [Semiring E] in
theorem SameModel.trans {a b c : Runtime m} (h : a.SameModel b) (h' : b.SameModel c) : a.SameModel c :=
  ⟨h'.ready.trans h.ready, h'.vocab.trans h.vocab, h'.encode.trans h.encode, h'.flash.trans h.flash⟩

theorem SameModel.chunkText_eq {self other : Runtime m} (h : self.SameModel other) :
    other.chunkText = self.chunkText := by
  funext samples a maxTokens
  have hemitted : other.emitted = self.emitted := by
    funext token
    rw [emitted, emitted, h.vocab]
  rw [chunkText, chunkText, h.encode, h.flash, hemitted]

theorem SameModel.transcript_eq {self other : Runtime m} (h : self.SameModel other) :
    other.transcript = self.transcript := by
  funext samples a
  rw [transcript, transcript, h.chunkText_eq]

omit [Semiring E] in
theorem length_promptTokens {a : Arguments E} {tokens : List ℕ} (h : a.promptTokens = .ok tokens) :
    tokens.length = 4 := by
  rw [Arguments.promptTokens] at h
  split at h
  · cases h
  · split at h
    · cases h
      rfl
    · split_ifs at h <;> cases h <;> rfl

/-- **A chunk, whatever the caches held before.** -/
theorem transcribeChunk_eq (samples : List E) (a : Arguments E) (maxTokens : ℤ) :
    (self.transcribeChunk samples a maxTokens).2 = self.chunkText samples a maxTokens ∧
      self.SameModel (self.transcribeChunk samples a maxTokens).1 := by
  rw [transcribeChunk, chunkText]
  cases hprompt : a.promptTokens with
  | error e => exact ⟨rfl, rfl, rfl, rfl, rfl⟩
  | ok tokens =>
    cases self.encode samples with
    | error e => exact ⟨rfl, rfl, rfl, rfl, rfl⟩
    | ok output =>
      have hlength := length_promptTokens hprompt
      have hne : tokens ≠ [] := List.length_pos_iff.mp (by omega)
      simp only [prepareCross_eq]
      by_cases hshort : m.nTextCtx < 4
      · -- the prompt of four tokens is refused
        have hcall : (prepared m self.decoder.flashAttention output).decodeTokens tokens 0 = .error .position := by
          rw [Decoder.decodeTokens, if_neg (by simp [prepared, Decoder.prepareCross]), if_neg (by omega),
            if_pos (by omega)]
        rw [if_pos hshort, hcall]
        exact ⟨rfl, rfl, rfl, rfl, flashAttention_prepared⟩
      · have hroom : tokens.length ≤ m.nTextCtx := by omega
        obtain ⟨first, hcall, hfirst, -⟩ :=
          decodeTokens_prepared self.decoder.flashAttention output hne hroom
        obtain ⟨behind, hsteps, hflash⟩ := self.steps_eq a.actualTemperature (n := maxTokens.toNat) hfirst hne hroom
          a.randomState []
        rw [if_neg hshort, hcall]
        simp only [hsteps]
        exact ⟨rfl, rfl, rfl, rfl, hflash⟩

/-! ### The chunks -/

/-- What the loop adds to a text. -/
def added (firstChunk : Bool) (texts : List Bytes) : Bytes :=
  if firstChunk then joinTexts texts else texts.flatMap fun text => if text = [] then [] else space :: text

theorem added_cons (firstChunk : Bool) (text : Bytes) (texts : List Bytes) :
    added firstChunk (text :: texts) =
      (if !firstChunk && text.length > 0 then [space] else []) ++ (text ++ added false texts) := by
  cases firstChunk with
  | true => rfl
  | false =>
    cases text with
    | nil => simp [added]
    | cons b text => simp [added]

/-- The loop over the chunks. -/
theorem chunks_eq (a : Arguments E) (limit : ℤ) (firstChunk : Bool) (text : Bytes) (samples : List E) :
    (chunks a limit firstChunk self text samples).2 =
      ((Cut.cut chunkSamples samples).mapM fun chunk => self.chunkText chunk a limit).map
        (fun texts => text ++ added firstChunk texts) ∧
      self.SameModel (chunks a limit firstChunk self text samples).1 := by
  induction h : samples.length using Nat.strong_induction_on generalizing self samples firstChunk text with
  | _ length ih =>
    rw [chunks]
    split
    · rename_i hnil
      subst hnil
      rw [Cut.cut_nil]
      cases firstChunk <;> exact ⟨by simp [added, joinTexts, Except.map, pure, Except.pure], rfl, rfl, rfl, rfl⟩
    · rename_i hne
      obtain ⟨htext, hsame⟩ := self.transcribeChunk_eq (samples.take chunkSamples) a limit
      have hpos := List.length_pos_iff.mpr hne
      rw [Cut.cut_of_ne (by decide) hne, List.mapM_cons, ← htext]
      cases hchunk : self.transcribeChunk (samples.take chunkSamples) a limit with
      | mk next result =>
        rw [hchunk] at hsame
        cases result with
        | error e => exact ⟨rfl, hsame⟩
        | ok chunkText =>
          obtain ⟨hrest, hbehind⟩ := ih _ (by rw [List.length_drop, chunkSamples]; omega) next false
            ((if !firstChunk && chunkText.length > 0 then text ++ [space] else text) ++ chunkText)
            (samples.drop chunkSamples) rfl
          refine ⟨hrest.trans ?_, hsame.trans hbehind⟩
          -- the chunks behind are asked of the runtime that this one left
          rw [hsame.chunkText_eq]
          cases hlater : (Cut.cut chunkSamples (samples.drop chunkSamples)).mapM fun chunk =>
              self.chunkText chunk a limit with
          | error e => rfl
          | ok texts =>
            refine congrArg Except.ok ?_
            show _ ++ chunkText ++ added false texts = text ++ added firstChunk (chunkText :: texts)
            rw [added_cons]
            split_ifs <;> simp

/-- **A transcription, whatever came before it.** -/
theorem transcribe_eq (samples : List E) (a : Arguments E) :
    (self.transcribe samples a).2 =
      (if !self.ready then .error .notInitialized
        else if samples.length = 0 then .error .emptyPayload else self.transcript samples a) ∧
      self.SameModel (self.transcribe samples a).1 := by
  rw [transcribe]
  split_ifs with hready hempty
  · exact ⟨rfl, rfl, rfl, rfl, rfl⟩
  · exact ⟨rfl, rfl, rfl, rfl, rfl⟩
  · exact self.chunks_eq a (limit a.maxTokens) true [] samples

/-! ### Without temperature -/

omit [Numbers E D] in
theorem length_scores_le (flashAttention : Bool) (output : Tensor E) (tokens : List ℕ) :
    (scores m flashAttention output tokens).length ≤ m.nVocab := by
  rw [scores, Decoder.decodeTokens]
  split_ifs <;> simp

omit [Semiring E] in
/-- The token that is picked has the first largest score of those that are no special tokens. -/
theorem picked_without_temperature {temperature : E} (hcold : Numbers.le temperature Numbers.zero = true)
    {logits : List E} (hlength : logits.length ≤ m.nVocab) {randomState next : BitVec 64} {token : ℕ}
    (h : pick m temperature logits randomState = some (token, next)) :
    token < 50257 ∧ ∃ x, logits[token]? = some x ∧ Numbers.lt Numbers.lowest x = true ∧
      (∀ i ≤ 50257, ∀ y, logits[i]? = some y → Numbers.lt x y = false) ∧ ∀ j < token, logits[j]? ≠ some x := by
  have hsample : nativeSample (suppressSpecialTokens logits m.nVocab) temperature randomState =
      (nativeArgmax (suppressSpecialTokens logits m.nVocab), randomState) := if_pos hcold
  rw [pick, hsample] at h
  split_ifs at h with hends
  obtain ⟨hstop, hrange⟩ := not_or.mp hends
  have hlow := nativeArgmax_suppressed hlength
  have htoken : (nativeArgmax (suppressSpecialTokens logits m.nVocab)).toNat = token :=
    congrArg Prod.fst (Option.some_inj.mp h)
  rcases nativeArgmax_cases (suppressSpecialTokens logits m.nVocab) with
    ⟨hnone, -⟩ | ⟨i, x, hi, hget, hx, hmax, hfirst⟩
  · -- no score was above the lowest number, so the loop would have ended
    have hneg : (-1 : ℤ) < 0 := by decide
    rw [hnone] at hrange
    exact absurd hneg (not_or.mp hrange).1
  · rw [hi] at hstop hlow htoken
    obtain rfl : i = token := htoken
    have hne : (i : ℤ) ≠ 50257 := (not_or.mp hstop).1
    have hlt : i < 50257 := by omega
    have hsame : ∀ j ≤ 50257, (suppressSpecialTokens logits m.nVocab)[j]? = logits[j]? := fun j hj => by
      rw [getElem?_suppress hlength, if_pos hj]
    refine ⟨hlt, x, (hsame i hlt.le) ▸ hget, hx, fun j hj y hy => ?_, fun j hj => ?_⟩
    · exact hmax y (List.mem_of_getElem? ((hsame j hj).trans hy))
    · rw [← hsame j (hj.trans hlt).le]
      exact hfirst j hj

omit [Semiring E] in
/-- None is picked when the end of the text has the first largest score, or no score is above the lowest number. -/
theorem ends_without_temperature {temperature : E} (hcold : Numbers.le temperature Numbers.zero = true)
    {logits : List E} (hlength : logits.length ≤ m.nVocab) {randomState : BitVec 64}
    (h : pick m temperature logits randomState = none) :
    (∀ i ≤ 50257, ∀ y, logits[i]? = some y → Numbers.lt Numbers.lowest y = false) ∨
      ∃ x, logits[50257]? = some x ∧ (∀ i ≤ 50257, ∀ y, logits[i]? = some y → Numbers.lt x y = false) ∧
        ∀ j < 50257, logits[j]? ≠ some x := by
  have hsample : nativeSample (suppressSpecialTokens logits m.nVocab) temperature randomState =
      (nativeArgmax (suppressSpecialTokens logits m.nVocab), randomState) := if_pos hcold
  have hends : Ends m (nativeArgmax (suppressSpecialTokens logits m.nVocab)) := by
    by_contra hgoes
    rw [pick, hsample, if_neg hgoes] at h
    cases h
  have hsame : ∀ j ≤ 50257, (suppressSpecialTokens logits m.nVocab)[j]? = logits[j]? := fun j hj => by
    rw [getElem?_suppress hlength, if_pos hj]
  have hlow := nativeArgmax_suppressed hlength
  rcases nativeArgmax_cases (suppressSpecialTokens logits m.nVocab) with
    ⟨-, hnone⟩ | ⟨i, x, hi, hget, -, hmax, hfirst⟩
  · exact .inl fun j hj y hy => hnone y (List.mem_of_getElem? ((hsame j hj).trans hy))
  · rw [hi] at hends hlow
    have hinside : i < m.nVocab := by
      have hlt := (List.getElem?_eq_some_iff.mp hget).1
      have : (suppressSpecialTokens logits m.nVocab).length = logits.length := by
        rw [suppressSpecialTokens]
        split_ifs <;> simp
      omega
    -- of the tokens that end the loop only this one is not suppressed
    obtain rfl : i = 50257 := by
      have hother : tokenEot = 50257 ∧ tokenNot = 50364 ∧ tokenBeg = 50365 := ⟨rfl, rfl, rfl⟩
      rcases hends with (h | h | h) | h | h <;> omega
    refine .inr ⟨x, (hsame _ le_rfl) ▸ hget, fun j hj y hy => ?_, fun j hj => ?_⟩
    · exact hmax y (List.mem_of_getElem? ((hsame j hj).trans hy))
    · rw [← hsame j hj.le]
      exact hfirst j hj

end Runtime

/-! ### The laws -/

section
variable (self : Runtime m) {samples : List E} {a : Arguments E} {promptTokens : List ℕ} {output : Tensor E}

/-- **A chunk.**  Each token is picked from the Runtime.scores that one batch gives to all tokens in front of it. -/
theorem chunk_transcription (hprompt : a.promptTokens = .ok promptTokens) (hencode : self.encode samples = .ok output)
    (hcontext : 4 ≤ m.nTextCtx) (maxTokens : ℤ) :
    ∃ tokens : List ℕ,
      (self.transcribeChunk samples a maxTokens).2 = .ok (tokens.flatMap fun token : ℕ => self.emitted token) ∧
      tokens.length ≤ Runtime.room m maxTokens.toNat 4 ∧
      (∀ k token, tokens[k]? = some token → ∃ randomState next,
        Runtime.pick m a.actualTemperature
          (Runtime.scores m self.decoder.flashAttention output (promptTokens ++ tokens.take k)) randomState =
            some (token, next)) ∧
      (tokens.length < Runtime.room m maxTokens.toNat 4 → ∃ randomState,
        Runtime.pick m a.actualTemperature
          (Runtime.scores m self.decoder.flashAttention output (promptTokens ++ tokens)) randomState = none) := by
  have htext := (self.transcribeChunk_eq samples a maxTokens).1
  rw [Runtime.chunkText, hprompt, hencode] at htext
  simp only [if_neg (Nat.not_lt.mpr hcontext)] at htext
  refine ⟨_, htext, ?_, fun k token htoken => Generation.picked_of_generate htoken, fun hshort => ?_⟩
  · rw [← Runtime.length_promptTokens hprompt]
    exact Generation.length_generate_le _ _ _
  · rw [← Runtime.length_promptTokens hprompt] at hshort
    exact Generation.ends_of_generate hshort

/-- **A chunk without temperature.**  The tokens are no special tokens, each has the first largest score behind
those in front of it, and the text ends where the end of the text has it. -/
theorem chunk_without_temperature (hprompt : a.promptTokens = .ok promptTokens)
    (hencode : self.encode samples = .ok output) (hcontext : 4 ≤ m.nTextCtx)
    (hcold : Numbers.le a.actualTemperature Numbers.zero = true) (maxTokens : ℤ) :
    ∃ tokens : List ℕ,
      (self.transcribeChunk samples a maxTokens).2 = .ok (tokens.flatMap fun token : ℕ => self.emitted token) ∧
      (∀ k token, tokens[k]? = some token → token < 50257 ∧ ∃ x,
        let front := Runtime.scores m self.decoder.flashAttention output (promptTokens ++ tokens.take k)
        front[token]? = some x ∧ Numbers.lt Numbers.lowest x = true ∧
          (∀ i ≤ 50257, ∀ y, front[i]? = some y → Numbers.lt x y = false) ∧ ∀ j < token, front[j]? ≠ some x) ∧
      (tokens.length < Runtime.room m maxTokens.toNat 4 →
        let front := Runtime.scores m self.decoder.flashAttention output (promptTokens ++ tokens)
        (∀ i ≤ 50257, ∀ y, front[i]? = some y → Numbers.lt Numbers.lowest y = false) ∨
          ∃ x, front[50257]? = some x ∧ (∀ i ≤ 50257, ∀ y, front[i]? = some y → Numbers.lt x y = false) ∧
            ∀ j < 50257, front[j]? ≠ some x) := by
  have htext := (self.transcribeChunk_eq samples a maxTokens).1
  rw [Runtime.chunkText, hprompt, hencode] at htext
  simp only [if_neg (Nat.not_lt.mpr hcontext)] at htext
  refine ⟨_, htext, fun k token htoken => ?_, fun hshort => ?_⟩
  · obtain ⟨randomState, next, hpick⟩ := Generation.picked_of_generate htoken
    exact Runtime.picked_without_temperature hcold (Runtime.length_scores_le _ _ _) hpick
  · rw [← Runtime.length_promptTokens hprompt] at hshort
    obtain ⟨randomState, hend⟩ := Generation.ends_of_generate hshort
    exact Runtime.ends_without_temperature hcold (Runtime.length_scores_le _ _ _) hend

/-- **A transcription.**  The samples are cut into chunks, and each one has its text on its own, whatever the runtime
did before. -/
theorem transcription (hready : self.ready = true) (hsamples : samples ≠ []) (a : Arguments E) :
    (self.transcribe samples a).2 = self.transcript samples a ∧
      (Cut.cut Runtime.chunkSamples samples).flatten = samples ∧
      (∀ chunk ∈ Cut.cut Runtime.chunkSamples samples, 0 < chunk.length ∧ chunk.length ≤ Runtime.chunkSamples) ∧
      ∀ k later texts texts', samples.length = k * Runtime.chunkSamples →
        (Cut.cut Runtime.chunkSamples samples).mapM (fun chunk => self.chunkText chunk a (Runtime.limit a.maxTokens)) =
          .ok texts →
        (Cut.cut Runtime.chunkSamples later).mapM (fun chunk => self.chunkText chunk a (Runtime.limit a.maxTokens)) =
          .ok texts' →
        (self.transcribe (samples ++ later) a).2 = .ok (Runtime.joinTexts (texts ++ texts')) := by
  have hpos : 0 < Runtime.chunkSamples := by decide
  have htranscribe : ∀ s : List E, s ≠ [] → (self.transcribe s a).2 = self.transcript s a := by
    intro s hs
    rw [(self.transcribe_eq s a).1, hready, if_neg (by simp), if_neg (by simpa using hs)]
  refine ⟨htranscribe samples hsamples, Cut.flatten_cut hpos samples, fun chunk => Cut.length_of_mem_cut hpos,
    fun k later texts texts' hk htexts htexts' => ?_⟩
  rw [htranscribe _ (by simp [hsamples]), Runtime.transcript, Cut.cut_append hpos hk, List.mapM_append, htexts, htexts']
  rfl

end

/-! ### A small runtime -/

instance : Numbers ℤ ℤ where
  zero := 0
  lowest := -1000
  lt a b := a < b
  le a b := a ≤ b
  max a b := if a < b then b else a
  widen a := a
  zeroD := 0
  lowestD := -1000
  maxD a b := if a < b then b else a
  addD := (· + ·)
  subD := (· - ·)
  mulD := (· * ·)
  divD := (· / ·)
  expD a := a
  leD a b := a ≤ b
  unitD n := n
  not_lt_self a := by simp
  lt_chain h h' := by simp only [decide_eq_true_eq] at h h' ⊢; omega

/-- The small model, with a context of eight tokens. -/
def speechModel : NativeModel ℤ := { smallModel with nTextCtx := 8 }

/-- Its runtime, with an encoder that always finds the same. -/
def smallRuntime : Runtime speechModel where
  ready := true
  vocab := some [ascii " a"]
  encode _ := .ok ⟨1, 1, 1, fun _ _ _ => 1⟩
  decoder := Decoder.init speechModel none

/-- No argument but the temperature. -/
def coldArguments : Arguments ℤ := ⟨none, none, none, some 0, none⟩

theorem chunk_transcription_small : ∃ tokens : List ℕ,
    (smallRuntime.transcribeChunk [1] coldArguments 4).2 =
      .ok (tokens.flatMap fun token : ℕ => smallRuntime.emitted token) ∧
    tokens.length ≤ 4 ∧
    (∀ k token, tokens[k]? = some token → ∃ randomState next,
      Runtime.pick speechModel 0 (Runtime.scores speechModel true ⟨1, 1, 1, fun _ _ _ => 1⟩
        ([50258, 50259, 50360, 50364] ++ tokens.take k)) randomState = some (token, next)) ∧
    (tokens.length < 4 → ∃ randomState,
      Runtime.pick speechModel 0 (Runtime.scores speechModel true ⟨1, 1, 1, fun _ _ _ => 1⟩
        ([50258, 50259, 50360, 50364] ++ tokens)) randomState = none) :=
  chunk_transcription smallRuntime rfl rfl (by decide) 4

theorem chunk_without_temperature_small : ∃ tokens : List ℕ,
    (smallRuntime.transcribeChunk [1] coldArguments 4).2 =
      .ok (tokens.flatMap fun token : ℕ => smallRuntime.emitted token) ∧
    (∀ k token, tokens[k]? = some token → token < 50257 ∧ ∃ x,
      let front := Runtime.scores speechModel true ⟨1, 1, 1, fun _ _ _ => 1⟩
        ([50258, 50259, 50360, 50364] ++ tokens.take k)
      front[token]? = some x ∧ Numbers.lt Numbers.lowest x = true ∧
        (∀ i ≤ 50257, ∀ y, front[i]? = some y → Numbers.lt x y = false) ∧ ∀ j < token, front[j]? ≠ some x) ∧
    (tokens.length < 4 →
      let front := Runtime.scores speechModel true ⟨1, 1, 1, fun _ _ _ => 1⟩ ([50258, 50259, 50360, 50364] ++ tokens)
      (∀ i ≤ 50257, ∀ y, front[i]? = some y → Numbers.lt (Numbers.lowest : ℤ) y = false) ∨
        ∃ x, front[50257]? = some x ∧ (∀ i ≤ 50257, ∀ y, front[i]? = some y → Numbers.lt x y = false) ∧
          ∀ j < 50257, front[j]? ≠ some x) :=
  chunk_without_temperature smallRuntime rfl rfl (by decide) rfl 4

/-- It finds the same text in all samples. -/
theorem chunkText_small (samples : List ℤ) :
    smallRuntime.chunkText samples coldArguments 256 = .ok (ascii " a a a a") := by
  have htext : (Runtime.chunkTokens speechModel true ⟨1, 1, 1, fun _ _ _ => 1⟩ [50258, 50259, 50360, 50364]
      coldArguments 256).flatMap (fun token : ℕ => smallRuntime.emitted token) = ascii " a a a a" := by
    decide +kernel
  exact congrArg Except.ok htext

/-- The samples of a whole chunk. -/
def wholeChunk : List ℤ := List.replicate Runtime.chunkSamples 1

theorem length_wholeChunk : wholeChunk.length = Runtime.chunkSamples := List.length_replicate

theorem wholeChunk_ne : wholeChunk ≠ [] := List.length_pos_iff.mp (by rw [length_wholeChunk]; decide)

theorem cut_wholeChunk : Cut.cut Runtime.chunkSamples wholeChunk = [wholeChunk] := by
  rw [Cut.cut_of_ne (by decide) wholeChunk_ne, List.take_of_length_le length_wholeChunk.le,
    List.drop_of_length_le length_wholeChunk.le, Cut.cut_nil]

/-- A whole chunk, and one more sample behind it. -/
theorem transcription_small :
    (smallRuntime.transcribe wholeChunk coldArguments).2 = smallRuntime.transcript wholeChunk coldArguments ∧
      (smallRuntime.transcribe (wholeChunk ++ [1]) coldArguments).2 = .ok (ascii " a a a a  a a a a") := by
  have hlength : wholeChunk.length = 1 * Runtime.chunkSamples := by rw [length_wholeChunk, Nat.one_mul]
  have hcut : Cut.cut Runtime.chunkSamples [(1 : ℤ)] = [[1]] := by
    rw [Cut.cut_of_ne (by decide) (List.cons_ne_nil 1 []), List.take_of_length_le (by decide),
      List.drop_of_length_le (by decide), Cut.cut_nil]
  have htexts (chunk : List ℤ) : [chunk].mapM (fun chunk => smallRuntime.chunkText chunk coldArguments
      (Runtime.limit coldArguments.maxTokens)) = .ok [ascii " a a a a"] := by
    have hlimit : Runtime.limit coldArguments.maxTokens = 256 := rfl
    rw [List.mapM_cons, hlimit, chunkText_small]
    rfl
  obtain ⟨htranscript, -, -, hjoin⟩ := transcription smallRuntime rfl wholeChunk_ne coldArguments
  refine ⟨htranscript, hjoin 1 [1] [ascii " a a a a"] [ascii " a a a a"] hlength ?_ ?_⟩
  · rw [cut_wholeChunk]
    exact htexts wholeChunk
  · rw [hcut]
    exact htexts [1]

end Whisper

end FortAI
