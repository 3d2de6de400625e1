import FortAI.Machine.Tensor
import FortAI.Status

/-!
# The decoder of a Whisper model

A batch of tokens passes the layers one after the other.  Each layer stores keys and values for the
positions of the batch, attends to all positions up to the one of a token, then to the encoder's output.
The caches are flat memories, and every access to them is a view with byte distances computed by hand.  The
operations on rows are exact, and given by the network.

* `Decoder.prepareCross` : the caches of the cross attention.
* `Decoder.decodeTokens`, `Decoder.decode` : a batch, and one token.
-/

namespace FortAI

namespace Whisper

/-- `whisper_pad_256` -/
def pad256 (value : ℕ) : ℕ := (value + 255) / 256 * 256

theorem le_pad256 (value : ℕ) : value ≤ pad256 value := by
  rw [pad256]
  omega

/-- What the operations do to a row that are not linear. -/
structure RowOperations (E : Type) where
  /-- `ggml_norm` with `WHISPER_EPS` -/
  norm : List E → List E
  gelu : E → E
  /-- A value as a cache keeps it. -/
  half : E → E
  /-- The weights of the scores of the keys that are not masked. -/
  softMax : List E → List E
  /-- One head of `ggml_flash_attn_ext`: the scale, a query, and the keys that are not masked with their
  values. -/
  flashAttn : E → List E → List (List E × List E) → List E
  /-- `real(head_dim) ** (-0.25)` -/
  headScale : ℕ → E

/-- `whisper_decoder_name` -/
def decoderName (layer : ℕ) (suffix : String) : String :=
  "decoder.blocks." ++ toString layer ++ "." ++ suffix

/-- The tensors of a layer that have one row. -/
def vectors : List String :=
  ["attn_ln.weight", "attn_ln.bias", "attn.query.bias", "attn.value.bias", "attn.out.bias",
    "cross_attn_ln.weight", "cross_attn_ln.bias", "cross_attn.query.bias", "cross_attn.value.bias",
    "cross_attn.out.bias", "mlp_ln.weight", "mlp_ln.bias", "mlp.0.bias", "mlp.2.bias"]

/-- The matrices of a layer whose results are kept or split into heads. -/
def matrices : List String :=
  ["attn.query.weight", "attn.key.weight", "attn.value.weight", "cross_attn.query.weight"]

/-- `whisper_native_model_t`, with what `validate` checks, and the shapes that a call of one token needs. -/
structure NativeModel (E : Type) extends RowOperations E where
  useGpu : Bool
  nVocab : ℕ
  nAudioCtx : ℕ
  nTextCtx : ℕ
  nState : ℕ
  nHeads : ℕ
  nLayers : ℕ
  tensorByName : String → Tensor E
  heads_pos : 0 < nHeads
  heads_dvd : nHeads ∣ nState
  vector_rows : ∀ layer < nLayers, ∀ suffix ∈ vectors, (tensorByName (decoderName layer suffix)).ne1 = 1
  matrix_rows : ∀ layer < nLayers, ∀ suffix ∈ matrices, (tensorByName (decoderName layer suffix)).ne1 = nState
  embedding_rows : (tensorByName "decoder.token_embedding.weight").ne1 = nVocab
  ln_weight_rows : (tensorByName "decoder.ln.weight").ne1 = 1
  ln_bias_rows : (tensorByName "decoder.ln.bias").ne1 = 1

namespace NativeModel

variable {E : Type} (m : NativeModel E)

def headDim : ℕ := m.nState / m.nHeads

def nTextCtxPad : ℕ := pad256 m.nTextCtx

def nAudioCtxPad : ℕ := pad256 m.nAudioCtx

def tensor (layer : ℕ) (suffix : String) : Tensor E := m.tensorByName (decoderName layer suffix)

theorem headDim_mul : m.headDim * m.nHeads = m.nState := Nat.div_mul_cancel m.heads_dvd

variable {m}

theorem head_lt {c : ℕ} (hc : c < m.nState) : c / m.headDim < m.nHeads :=
  Nat.div_lt_of_lt_mul (m.headDim_mul.symm ▸ hc)

theorem headDim_pos {c : ℕ} (hc : c < m.nState) : 0 < m.headDim := by
  refine Nat.pos_of_ne_zero fun h => ?_
  have := m.headDim_mul
  rw [h, Nat.zero_mul] at this
  exact absurd hc (by omega)

theorem channel_lt {d h : ℕ} (hd : d < m.headDim) (hh : h < m.nHeads) : d + m.headDim * h < m.nState :=
  m.headDim_mul ▸ digits_lt hd hh

/-- The place of a channel, by its head. -/
theorem channel_eq (c j : ℕ) : c + m.nState * j = c % m.headDim + m.headDim * (c / m.headDim + m.nHeads * j) := by
  conv_lhs => rw [← Nat.mod_add_div c m.headDim, ← m.headDim_mul]
  ring

end NativeModel

/-- `whisper_decoder_t`: the caches are memories of bytes, with a value at its first byte. -/
structure Decoder {E : Type} (m : NativeModel E) where
  flashAttention : Bool
  crossReady : Bool
  crossK : ℕ → E
  crossV : ℕ → E
  selfK : ℕ → E
  selfV : ℕ → E

inductive DecodeError
  | notPrepared
  | emptyBatch
  | position
  deriving DecidableEq

namespace DecodeError

def fault : DecodeError → Fault
  | _ => .invalid

def message : DecodeError → String
  | notPrepared => "Whisper decoder requires a prepared cross-attention cache"
  | emptyBatch => "Whisper decoder token batch is empty"
  | position => "Whisper decoder position is outside the context"

end DecodeError

/-! ### Views of the caches -/

/-- `ggml_view_1d` of a cache. -/
def view1d (ne0 offset : ℕ) : View := ⟨ne0, 1, 1, 2, 2 * ne0, 2 * ne0, offset⟩

/-- `ggml_view_2d` of a cache. -/
def view2d (ne0 ne1 nb1 offset : ℕ) : View := ⟨ne0, ne1, 1, 2, nb1, nb1 * ne1, offset⟩

/-- `ggml_view_3d` of a cache. -/
def view3d (ne0 ne1 ne2 nb1 nb2 offset : ℕ) : View := ⟨ne0, ne1, ne2, 2, nb1, nb2, offset⟩

namespace Decoder

variable {E : Type} {m : NativeModel E} (self : Decoder m)

/-- The bytes of `self_k` and of `self_v`. -/
def selfBytes (m : NativeModel E) : ℕ := 2 * (m.nState * m.nTextCtxPad * m.nLayers)

/-- The bytes of `cross_k` and of `cross_v`. -/
def crossBytes (m : NativeModel E) : ℕ := 2 * (m.nState * m.nAudioCtxPad * m.nLayers)

/-- The offset of a layer in `self_k` and `self_v`. -/
def selfOffset (m : NativeModel E) (layer : ℕ) : ℕ := layer * (2 * m.nState * m.nTextCtxPad)

/-- The offset of a layer in `cross_k` and `cross_v`. -/
def crossOffset (layer : ℕ) : ℕ :=
  if self.flashAttention then layer * (2 * m.nState * m.nAudioCtxPad)
  else layer * (2 * m.nState * m.nAudioCtx)

/-- Where `self_k` gets the keys of a batch. -/
def keyDestination (m : NativeModel E) (layer position nTokens : ℕ) : View :=
  view1d (m.nState * nTokens) (selfOffset m layer + 2 * m.nState * position)

/-- Where `self_v` gets the values of a batch. -/
def valueDestination (layer position nTokens : ℕ) : View :=
  if self.flashAttention then view1d (m.nState * nTokens) (selfOffset m layer + 2 * m.nState * position)
  else view2d nTokens m.nState (2 * m.nTextCtxPad) (selfOffset m layer + 2 * position)

/-- `layer_k` -/
def layerK (m : NativeModel E) (layer nKv : ℕ) : View :=
  view3d m.headDim nKv m.nHeads (2 * m.nState) (2 * m.headDim) (selfOffset m layer)

/-- `layer_v` -/
def layerV (layer nKv : ℕ) : View :=
  if self.flashAttention then view3d m.headDim nKv m.nHeads (2 * m.nState) (2 * m.headDim) (selfOffset m layer)
  else view3d nKv m.headDim m.nHeads (2 * m.nTextCtxPad) (2 * m.nTextCtxPad * m.headDim) (selfOffset m layer)

/-- Where `cross_k` gets the keys of the encoder's output. -/
def crossKeyDestination (layer : ℕ) : View := view1d (m.nState * m.nAudioCtx) (self.crossOffset layer)

/-- Where `cross_v` gets the values of the encoder's output. -/
def crossValueDestination (layer : ℕ) : View :=
  if self.flashAttention then view1d (m.nState * m.nAudioCtx) (self.crossOffset layer)
  else view2d m.nAudioCtx m.nState (2 * m.nAudioCtx) (self.crossOffset layer)

/-- How many positions of the encoder's output a token attends to. -/
def crossKv : ℕ := if self.flashAttention then m.nAudioCtxPad else m.nAudioCtx

/-- `cross_key` -/
def crossKey (layer : ℕ) : View :=
  view3d m.headDim self.crossKv m.nHeads (2 * m.nState) (2 * m.headDim) (self.crossOffset layer)

/-- `cross_value` -/
def crossValue (layer : ℕ) : View :=
  view3d m.headDim self.crossKv m.nHeads (2 * m.nState) (2 * m.headDim) (self.crossOffset layer)

/-- The transposed values of the encoder's output, without flash attention. -/
def crossTransposed (m : NativeModel E) (layer : ℕ) : View :=
  view3d m.nAudioCtx m.headDim m.nHeads (2 * m.nAudioCtx) (2 * m.nAudioCtx * m.headDim)
    (layer * (2 * m.nState * m.nAudioCtx))

end Decoder

/-! ### Attention -/

section
variable {E : Type} [Semiring E]

/-- `ggml_soft_max_ext`: masked scores have no weight. -/
def softMaxExt (softMax : List E → List E) (scores : Tensor E) (visible : ℕ → ℕ → Bool) (scale : E) :
    Tensor E where
  ne0 := scores.ne0
  ne1 := scores.ne1
  ne2 := scores.ne2
  get i j k :=
    let seen := (List.range scores.ne0).filter (visible · j)
    if i ∈ seen then (softMax (seen.map fun i => scale * scores.get i j k)).getD (seen.idxOf i) 0 else 0

/-- `ggml_flash_attn_ext`: the heads of a token stand one after the other. -/
def flashAttnExt (flashAttn : E → List E → List (List E × List E) → List E) (query key value : Tensor E)
    (visible : ℕ → ℕ → Bool) (scale : E) : Tensor E where
  ne0 := value.ne0
  ne1 := query.ne2
  ne2 := query.ne1
  get d h j :=
    let seen := (List.range key.ne1).filter (visible · j)
    (flashAttn scale (query.row j h) (seen.map fun i => (key.row i h, value.row i h))).getD d 0

/-- The mask of a call: key by key, token by token, whether a key is left as it is. -/
def maskHost (nKv tokenCount position : ℕ) : List Bool :=
  (List.range tokenCount).flatMap fun j => (List.range nKv).map fun i => decide (i ≤ position + j)

/-- The mask as a tensor. -/
def maskTensor (nKv : ℕ) (host : List Bool) (i j : ℕ) : Bool := host.getD (j * nKv + i) false

namespace Decoder

variable {m : NativeModel E}

/-- `permute(reshape_3d(qcur, head_dim, nhead, n_tokens), 0, 2, 1, 3)` -/
def heads (m : NativeModel E) (qcur : Tensor E) : Tensor E :=
  (qcur.reshape m.headDim m.nHeads qcur.ne1).permute

/-- Attention with `ggml_flash_attn_ext`. -/
def attendFlash (m : NativeModel E) (qcur key value : Tensor E) (visible : ℕ → ℕ → Bool) (scale : E) : Tensor E :=
  (flashAttnExt m.flashAttn (heads m qcur) key value visible scale).reshape m.nState qcur.ne1 1

/-- Attention step by step; the values are transposed. -/
def attendPlain (m : NativeModel E) (qcur key value : Tensor E) (visible : ℕ → ℕ → Bool) (scale : E) : Tensor E :=
  let scores := Tensor.mulMat key (heads m qcur)
  let probabilities := softMaxExt m.softMax scores visible scale
  let attended := Tensor.mulMat value probabilities
  attended.permute.reshape m.nState qcur.ne1 1

variable (self : Decoder m)

def attend (qcur key value : Tensor E) (visible : ℕ → ℕ → Bool) (scale : E) : Tensor E :=
  if self.flashAttention then attendFlash m qcur key value visible scale
  else attendPlain m qcur key value visible scale

/-! ### The layers -/

/-- The norm of the rows, with a weight and a bias. -/
def layerNorm (m : NativeModel E) (layer : ℕ) (weight bias : String) (t : Tensor E) : Tensor E :=
  Tensor.add (Tensor.mul (t.mapRows m.norm) (m.tensor layer weight)) (m.tensor layer bias)

/-- A matrix and a bias. -/
def linear (m : NativeModel E) (layer : ℕ) (weight bias : String) (t : Tensor E) : Tensor E :=
  Tensor.add (Tensor.mulMat (m.tensor layer weight) t) (m.tensor layer bias)

/-- What is copied to `self_v` and `cross_v`: transposed without flash attention. -/
def valueSource (vcur : Tensor E) : Tensor E :=
  if self.flashAttention then vcur else (vcur.reshape m.nState vcur.ne1 1).transpose

/-- The keys and values of a batch, from its normalised rows, into the caches. -/
def store (layer position : ℕ) (cur : Tensor E) : Decoder m :=
  let kcur := (Tensor.mulMat (m.tensor layer "attn.key.weight") cur).scale (m.headScale m.headDim)
  let vcur := linear m layer "attn.value.weight" "attn.value.bias" cur
  { self with
    selfK := (keyDestination m layer position cur.ne1).copy m.half kcur self.selfK
    selfV := (self.valueDestination layer position cur.ne1).copy m.half (self.valueSource vcur) self.selfV }

/-- The first part of a layer. -/
def selfAttention (layer position nKv : ℕ) (mask : ℕ → ℕ → Bool) (inpL : Tensor E) : Decoder m × Tensor E :=
  let cur := layerNorm m layer "attn_ln.weight" "attn_ln.bias" inpL
  let qcur := (linear m layer "attn.query.weight" "attn.query.bias" cur).scale (m.headScale m.headDim)
  let self := self.store layer position cur
  let attended := self.attend qcur ((layerK m layer nKv).read self.selfK) ((self.layerV layer nKv).read self.selfV)
    mask 1
  (self, Tensor.add (linear m layer "attn.out.weight" "attn.out.bias" attended) inpL)

/-- The second part. -/
def crossAttention (layer : ℕ) (inpCa : Tensor E) : Tensor E :=
  let cur := layerNorm m layer "cross_attn_ln.weight" "cross_attn_ln.bias" inpCa
  let qcur := linear m layer "cross_attn.query.weight" "cross_attn.query.bias" cur
  let value := if self.flashAttention then self.crossValue layer else crossTransposed m layer
  let attended := self.attend qcur ((self.crossKey layer).read self.crossK) (value.read self.crossV)
    (fun _ _ => true) (m.headScale m.headDim)
  Tensor.add (linear m layer "cross_attn.out.weight" "cross_attn.out.bias" attended) inpCa

/-- The third part. -/
def feedForward (m : NativeModel E) (layer : ℕ) (inpFf : Tensor E) : Tensor E :=
  let cur := layerNorm m layer "mlp_ln.weight" "mlp_ln.bias" inpFf
  let cur := (linear m layer "mlp.0.weight" "mlp.0.bias" cur).map m.gelu
  Tensor.add (linear m layer "mlp.2.weight" "mlp.2.bias" cur) inpFf

/-- A turn of the loop over the layers. -/
def layerTurn (position nKv : ℕ) (mask : ℕ → ℕ → Bool) (s : Decoder m × Tensor E) (layer : ℕ) :
    Decoder m × Tensor E :=
  let (self, inpCa) := s.1.selfAttention layer position nKv mask s.2
  (self, feedForward m layer (self.crossAttention layer inpCa))

/-! ### Calls -/

/-- The decoder of `init`. -/
def init (m : NativeModel E) (flashAttention : Option Bool) : Decoder m where
  flashAttention := flashAttention.getD true
  crossReady := false
  crossK _ := 0
  crossV _ := 0
  selfK _ := 0
  selfV _ := 0

/-- `whisper_decoder_clear_cross_cache`: all caches are in the buffer that is cleared. -/
def clearCrossCache : Decoder m :=
  { self with crossReady := false, crossK := fun _ => 0, crossV := fun _ => 0, selfK := fun _ => 0, selfV := fun _ => 0 }

/-- A turn of the loop over the layers in `prepare_cross`. -/
def crossTurn (encoderInput : Tensor E) (self : Decoder m) (layer : ℕ) : Decoder m :=
  let key := (Tensor.mulMat (m.tensor layer "cross_attn.key.weight") encoderInput).scale (m.headScale m.headDim)
  let value := linear m layer "cross_attn.value.weight" "cross_attn.value.bias" encoderInput
  { self with
    crossK := (self.crossKeyDestination layer).copy m.half key self.crossK
    crossV := (self.crossValueDestination layer).copy m.half (self.valueSource value) self.crossV }

/-- `whisper_decoder_prepare_cross` -/
def prepareCross (encoderOutput : Tensor E) : Decoder m :=
  { (List.range m.nLayers).foldl (crossTurn encoderOutput) self.clearCrossCache with crossReady := true }

/-- How many positions a call attends to. -/
def nKv (position tokenCount : ℕ) : ℕ :=
  if self.flashAttention && m.useGpu then Nat.min m.nTextCtx ((position + tokenCount + 255) / 256 * 256)
  else position + tokenCount

/-- The graph of a call: the caches and the scores of all tokens. -/
def graph (tokens : List ℕ) (position : ℕ) : Decoder m × Tensor E :=
  let positions := (List.range tokens.length).map fun j => position + j
  let nKv := self.nKv position tokens.length
  let mask := maskTensor nKv (maskHost nKv tokens.length position)
  let inpL := Tensor.add ((m.tensorByName "decoder.token_embedding.weight").getRows tokens)
    ((m.tensorByName "decoder.positional_embedding").getRows positions)
  let (self, inpL) := (List.range m.nLayers).foldl (layerTurn position nKv mask) (self, inpL)
  let cur := Tensor.add (Tensor.mul (inpL.mapRows m.norm) (m.tensorByName "decoder.ln.weight"))
    (m.tensorByName "decoder.ln.bias")
  (self, Tensor.mulMat (m.tensorByName "decoder.token_embedding.weight") cur)

/-- `whisper_decoder_decode_tokens`: the decoder behind the call, and the logits. -/
def decodeTokens (tokens : List ℕ) (position : ℤ) : Except DecodeError (Decoder m × List E) :=
  if !self.crossReady then .error .notPrepared
  else if tokens.length = 0 then .error .emptyBatch
  else if position < 0 ∨ position ≥ m.nTextCtx ∨ (tokens.length : ℤ) > m.nTextCtx - position then .error .position
  else
    let (self, cur) := self.graph tokens position.toNat
    -- a view of the last row, `n_vocab * (token_count - 1)` elements into the scores
    .ok (self, (List.range m.nVocab).map fun i => cur.element (m.nVocab * (tokens.length - 1) + i))

/-- `whisper_decoder_decode` -/
def decode (token : ℕ) (position : ℤ) : Except DecodeError (Decoder m × List E) := self.decodeTokens [token] position

end Decoder

end

end Whisper

end FortAI
