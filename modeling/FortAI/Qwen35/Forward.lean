import FortAI.Machine.Layers
import FortAI.Qwen35.Attention
import FortAI.Qwen35.Recurrent
import FortAI.Qwen35.Rope

/-!
# A token through the model

`qwen35_cpu_forward` on the processor, with plain caches (`cache_key_q8` and `cache_value_q8` are false) and without
a draft head (`mtp_active` is false).  Numbers are exact, and so is a number in half precision; what a matrix makes
of a vector is given.  Cells are counted from zero where the routines of the other modules do not count from one.

* `Model`, `State` : what the loader leaves, and what a token changes.
* `forward`, `reset` : the code.
* `Op`, `run` : calls in any order, each at the position behind the last one.
-/

namespace FortAI

namespace Qwen35

namespace Forward

open KeyValue (huge)

/-! ### The model -/

/-- The functions of the mathematical library. -/
structure Library (R : Type) extends Recurrent.Elementary R where
  cos : R → R
  sin : R → R
  pow : R → R → R

/-- What the loader has accepted. -/
structure Sizes where
  hiddenSize : ℕ
  vocabularySize : ℕ
  feedForward : ℕ
  heads : ℕ
  ropeDimension : ℕ
  attention : Attention.Sizes
  recurrent : Recurrent.Sizes
  headsKv_dvd : attention.headsKv ∣ heads

namespace Sizes

variable (p : Sizes)

/-- `size(attention_work)` -/
def attentionSize : ℕ := Nat.max (p.heads * p.attention.valueLength) p.recurrent.innerSize

def workSize : ℕ :=
  Nat.max (Nat.max (Nat.max p.feedForward p.recurrent.convSize) (2 * p.heads * p.attention.headSize)) p.hiddenSize

/-- `size(quantized_input)` -/
def quantizedSize : ℕ := p.workSize + 2 * ((p.workSize + 31) / 32)

end Sizes

/-- What a call fails with, always with `FORTAI_INVALID`.  Behind an integer overflow there is no result. -/
inductive ForwardError
  | token | position | workspace | activation | matvec | overflow
  deriving DecidableEq

def ForwardError.message : ForwardError → Option String
  | token => some "token id is outside the Qwen3.5 vocabulary"
  | position => some "Qwen3.5 position exceeds the CPU context"
  | workspace => some "Qwen3.5 CPU matvec workspace is invalid"
  | activation => some "activation Q8 matvec dimensions do not agree"
  | matvec => some "GGUF matvec dimensions do not agree"
  | overflow => none

/-- A matrix of this width: what it makes of a vector, and whether its blocks are of type Q8_0. -/
structure Weight (R : Type) (width : ℕ) where
  quantized : Bool
  product : (ℕ → R) → ℕ → R
  product_congr : ∀ {x y : ℕ → R}, (∀ i < width, x i = y i) → product x = product y

structure AttentionTensors (R : Type) (p : Sizes) where
  attnQ : Weight R p.hiddenSize
  attnK : Weight R p.hiddenSize
  attnV : Weight R p.hiddenSize
  attnOut : Weight R (p.heads * p.attention.valueLength)
  qNorm : ℕ → R
  kNorm : ℕ → R

structure RecurrentTensors (R : Type) (p : Sizes) where
  attnQkv : Weight R p.hiddenSize
  attnGate : Weight R p.hiddenSize
  ssmAlpha : Weight R p.hiddenSize
  ssmBeta : Weight R p.hiddenSize
  ssmOut : Weight R p.recurrent.innerSize
  ssmConv : ℕ → R
  ssmA : ℕ → R
  ssmDt : ℕ → R
  ssmNorm : ℕ → R

/-- The part of a layer that sees other tokens. -/
inductive Mixer (R : Type) (p : Sizes)
  | attention (t : AttentionTensors R p)
  | recurrent (t : RecurrentTensors R p)

/-- The width of its last matrix. -/
def Mixer.width {R : Type} {p : Sizes} : Mixer R p → ℕ
  | .attention _ => p.heads * p.attention.valueLength
  | .recurrent _ => p.recurrent.innerSize

/-- The tensors that `bind_layer` has found, with the widths that it has checked. -/
structure Layer (R : Type) (p : Sizes) where
  attnNorm : ℕ → R
  postNorm : ℕ → R
  ffnGate : Weight R p.hiddenSize
  ffnUp : Weight R p.hiddenSize
  ffnDown : Weight R p.feedForward
  mixer : Mixer R p

structure Model (R : Type) (p : Sizes) where
  layers : List (Layer R p)
  tokenEmbedding : ℕ → ℕ → R
  outputNorm : ℕ → R
  output : Weight R p.hiddenSize
  epsilon : R
  ropeBase : R
  flashAttention : Bool
  avx2 : Bool

/-- What a layer keeps.  The arrays of the other kind are not allocated. -/
structure LayerState (R : Type) where
  convState : ℕ → R
  gdnState : ℕ → R
  keyCache : ℕ → R
  valueCache : ℕ → R

/-- The work arrays that are read before all of them has been written. -/
structure Work (R : Type) where
  convWork : ℕ → R
  attentionWork : ℕ → R
  scores : ℕ → R

structure State (R : Type) where
  layers : List (LayerState R)
  work : Work R

/-! ### The code -/

section

variable {R : Type} [Field R] [LinearOrder R] (lib : Library R) {p : Sizes} (m : Model R p)

variable (p) in
/-- `model_matvec`, of a vector of this size. -/
def modelMatvec {width : ℕ} (t : Weight R width) (size : ℕ) (input : ℕ → R) : Except ForwardError (ℕ → R) :=
  if size > p.quantizedSize then .error .workspace
  else if size ≠ width then .error (if t.quantized then .activation else .matvec)
  else .ok (t.product input)

/-- `rms_norm` -/
def rmsNorm (size : ℕ) (weights : ℕ → R) (epsilon : R) (input : ℕ → R) : ℕ → R :=
  let inverseScale := Recurrent.rmsInverseScale lib.toElementary input 0 size epsilon
  fun i => input i * inverseScale * weights i

/-- `normalize_slice` -/
def normalizeSlice (first length : ℕ) (epsilon : R) (weights values : ℕ → R) : ℕ → R :=
  let inverseScale := Recurrent.rmsInverseScale lib.toElementary values first length epsilon
  Lanes.mapScalar first (fun i v => v * inverseScale * weights i) length values

/-- `normalize_slice` on every head. -/
def normalizeHeads (heads stride length : ℕ) (epsilon : R) (weights values : ℕ → R) : ℕ → R :=
  (List.range heads).foldl (fun values head => normalizeSlice lib (head * stride) length epsilon weights values) values

/-- `fortai_silu_product` -/
def siluProduct (avx2 : Bool) (count : ℕ) (left right : ℕ → R) : ℕ → R :=
  let turn := fun i v => Recurrent.silu lib.toElementary v * right i
  if avx2 ∧ count ≥ 8 then Lanes.mapEight 0 turn count left else Lanes.mapScalar 0 turn count left

/-- The rows of one position in a cache of `layers_state_store` that is not quantized; it counts from one. -/
def storeRows (heads width position : ℕ) (work cells : ℕ → R) : Option (ℕ → R) :=
  (List.range heads).foldlM (fun cells head =>
    let offset := position * width * heads + head * width
    if offset + width ≤ huge then
      some (Lanes.mapScalar (offset + 1) (fun i _ => work (head * width + i)) width cells)
    else none) cells

/-- An array that is counted from one. -/
def fromOne (a : ℕ → R) : ℕ → R := fun i => a (i - 1)

theorem kvHead_lt (head : Fin p.heads) : head / (p.heads / p.attention.headsKv) < p.attention.headsKv := by
  obtain ⟨groups, hgroups⟩ := p.headsKv_dvd
  have hlt : (head : ℕ) < groups * p.attention.headsKv := (hgroups.trans (Nat.mul_comm _ _)) ▸ head.isLt
  have hdiv : p.heads / p.attention.headsKv = groups := Nat.div_eq_of_eq_mul_right p.attention.headsKv_pos hgroups
  rw [hdiv]
  exact Nat.div_lt_of_lt_mul hlt

/-- The arguments of `run_attention` for a head. -/
def callAt (position : Fin p.attention.maxContext) (head : Fin p.heads) : Attention.Call p.attention where
  kvHead := head / (p.heads / p.attention.headsKv)
  position := position
  qOffset := head * (2 * p.attention.headSize)
  vOffset := head * p.attention.valueLength
  kvHead_lt := kvHead_lt head
  position_lt := position.isLt

/-- One head of `forward_attention`.  What `scalar_attention` leaves in the scores is written again before it is
read, and is left out. -/
def attendHead (layer : LayerState R) (qWork : ℕ → R) (position : Fin p.attention.maxContext) (scores : ℕ → R)
    (attentionWork : ℕ → R) (head : Fin p.heads) : Option (ℕ → R) := do
  let attended ← Attention.runAttention lib.exp lib.sqrt m.avx2 ⟨.plain layer.keyCache, .plain layer.valueCache⟩
    (callAt position head) ⟨fromOne qWork, fun _ => 0, fun _ => 0, scores, fromOne attentionWork⟩ m.flashAttention
  let gate := head * (2 * p.attention.headSize) + p.attention.headSize
  some (Lanes.mapScalar (head * p.attention.valueLength)
    (fun i v => v * Recurrent.sigmoid lib.toElementary (qWork (gate + i))) p.attention.valueLength
    fun i => attended (i + 1))

def orOverflow {α : Type} : Option α → Except ForwardError α
  | some x => .ok x
  | none => .error .overflow

/-- `forward_attention` -/
def forwardAttention (t : AttentionTensors R p) (position : Fin p.attention.maxContext) (layer : LayerState R)
    (work : Work R) (normalized : ℕ → R) : Except ForwardError (LayerState R × Work R × (ℕ → R)) := do
  let qWork ← modelMatvec p t.attnQ p.hiddenSize normalized
  let kWork ← modelMatvec p t.attnK p.hiddenSize normalized
  let vWork ← modelMatvec p t.attnV p.hiddenSize normalized
  let headSize := p.attention.headSize
  let qWork := normalizeHeads lib p.heads (2 * headSize) headSize m.epsilon t.qNorm qWork
  let kWork := normalizeHeads lib p.attention.headsKv headSize headSize m.epsilon t.kNorm kWork
  let qWork := Rope.applyRope lib.cos lib.sin lib.pow p.heads (2 * headSize) position p.ropeDimension m.ropeBase qWork
  let kWork := Rope.applyRope lib.cos lib.sin lib.pow p.attention.headsKv headSize position p.ropeDimension m.ropeBase
    kWork
  let keyCache ← orOverflow (storeRows p.attention.headsKv headSize position kWork layer.keyCache)
  let valueCache ← orOverflow (storeRows p.attention.headsKv p.attention.valueLength position vWork layer.valueCache)
  let layer := { layer with keyCache := keyCache, valueCache := valueCache }
  let attentionWork ← orOverflow
    ((List.finRange p.heads).foldlM (attendHead lib m layer qWork position work.scores) work.attentionWork)
  let hiddenWork ← modelMatvec p t.attnOut p.attentionSize attentionWork
  .ok (layer, { work with attentionWork := attentionWork }, hiddenWork)

/-- The tensors of a recurrent layer for `Recurrent.forwardRecurrent`. -/
def RecurrentTensors.bound (t : RecurrentTensors R p) : Recurrent.Tensors R where
  attnQkv := t.attnQkv.product
  attnGate := t.attnGate.product
  ssmAlpha := t.ssmAlpha.product
  ssmBeta := t.ssmBeta.product
  ssmOut := t.ssmOut.product
  ssmConv := t.ssmConv
  ssmA := t.ssmA
  ssmDt := t.ssmDt
  ssmNorm := t.ssmNorm

/-- `forward_recurrent`, which passes all of `attention_work` to the last matrix. -/
def forwardRecurrent (t : RecurrentTensors R p) (layer : LayerState R) (work : Work R) (normalized : ℕ → R) :
    Except ForwardError (LayerState R × Work R × (ℕ → R)) := do
  let after := Recurrent.forwardRecurrent lib.toElementary m.avx2 p.recurrent m.epsilon t.bound
    ⟨layer.convState, layer.gdnState, work.convWork, work.attentionWork, fun _ => 0⟩ normalized
  let hiddenWork ← modelMatvec p t.ssmOut p.attentionSize after.attentionWork
  .ok ({ layer with convState := after.convState, gdnState := after.gdnState },
    { work with convWork := after.convWork, attentionWork := after.attentionWork }, hiddenWork)

/-- The branch on the kind of a layer. -/
def forwardMixer (position : Fin p.attention.maxContext) :
    Mixer R p → LayerState R → Work R → (ℕ → R) → Except ForwardError (LayerState R × Work R × (ℕ → R))
  | .attention t => forwardAttention lib m t position
  | .recurrent t => forwardRecurrent lib m t

/-- A turn of the loop over the layers. -/
def forwardLayer (position : Fin p.attention.maxContext) (l : Layer R p) :
    Layers.Step (LayerState R) (Work R) ForwardError (ℕ → R) := fun layer work residual => do
  let normalized := rmsNorm lib p.hiddenSize l.attnNorm m.epsilon residual
  let (layer, work, hiddenWork) ← forwardMixer lib m position l.mixer layer work normalized
  let residual := hiddenWork + residual
  let normalized := rmsNorm lib p.hiddenSize l.postNorm m.epsilon residual
  let gate ← modelMatvec p l.ffnGate p.hiddenSize normalized
  let up ← modelMatvec p l.ffnUp p.hiddenSize normalized
  let hiddenWork ← modelMatvec p l.ffnDown p.feedForward (siluProduct lib m.avx2 p.feedForward gate up)
  .ok (layer, work, hiddenWork + residual)

/-- `qwen35_cpu_forward`, where `qwen35_cpu_forward_body` has no draft head to run; there are no logits where none
are asked for. -/
def forward (s : State R) (tokenId position : ℤ) (computeLogits : Bool) :
    Except ForwardError (State R × Option (ℕ → R)) :=
  if tokenId < 0 ∨ tokenId ≥ p.vocabularySize then .error .token
  else if h : position < 0 ∨ position ≥ p.attention.maxContext then .error .position
  else do
    let place : Fin p.attention.maxContext := ⟨position.toNat, by omega⟩
    let (layers, work, x) ← Layers.pass (m.layers.map (forwardLayer lib m place)) s.layers s.work
      (m.tokenEmbedding tokenId.toNat)
    if computeLogits then
      let logits ← modelMatvec p m.output p.hiddenSize (rmsNorm lib p.hiddenSize m.outputNorm m.epsilon x)
      .ok (⟨layers, work⟩, some logits)
    else .ok (⟨layers, work⟩, none)

/-- `qwen35_cpu_reset` -/
def reset (s : State R) : State R :=
  { s with layers := s.layers.map fun _ => ⟨fun _ => 0, fun _ => 0, fun _ => 0, fun _ => 0⟩ }

/-- What a caller can do. -/
inductive Op
  | reset
  | forward (tokenId : ℤ) (computeLogits : Bool)

/-- The answers to the calls.  A caller counts the tokens that were accepted; one that is refused is refused before
anything is written. -/
def run : State R → ℕ → List Op → List (Except ForwardError (Option (ℕ → R)))
  | _, _, [] => []
  | s, _, .reset :: ops => .ok none :: run (reset s) 0 ops
  | s, n, .forward tokenId computeLogits :: ops =>
    match forward lib m s tokenId n computeLogits with
    | .error e => .error e :: run s n ops
    | .ok (s, logits) => .ok logits :: run s (n + 1) ops

end

end Forward

end Qwen35

end FortAI
