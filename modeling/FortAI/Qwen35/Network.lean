import FortAI.Qwen35.Forward

/-!
# The model without caches

The layers as functions of whole sequences: attention looks at the rows of all positions so far, and a recurrent
layer goes through them from the first one on.

* `rowOf`, `networkLogits` : a layer, and the model.
* `answers` : calls in any order, each answered from the tokens since the last reset.
* `Fits` : what the sizes of the code have to keep to.
-/

namespace FortAI

namespace Qwen35

namespace Forward

open Finset
open KeyValue (huge)

/-- The functions of the mathematical library are the functions that they are named after. -/
noncomputable abbrev real : Library ℝ := ⟨⟨Real.exp, Real.log, Real.sqrt⟩, Real.cos, Real.sin, Real.rpow⟩

abbrev Row := ℕ → ℝ

/-- The row of the last token. -/
def last (rows : List Row) : Row := rows.getLastD 0

@[simp] theorem last_concat (rows : List Row) (x : Row) : last (rows ++ [x]) = x := List.getLastD_concat ..

variable {p : Sizes} (m : Model ℝ p)

/-! ### Attention -/

section

variable (t : AttentionTensors ℝ p)

/-- A part of a row divided by its root mean square, and weighted. -/
noncomputable def normed (weights : ℕ → ℝ) (v : ℕ → ℝ) : ℕ → ℝ := fun i =>
  v i * (1 / √((∑ j ∈ range p.attention.headSize, v j * v j) / p.attention.headSize + m.epsilon)) * weights i

/-- The rotation that belongs to a position. -/
noncomputable def rotated (position : ℕ) : (ℕ → ℝ) → ℕ → ℝ :=
  Rope.rotate Real.cos Real.sin (p.ropeDimension / 2)
    (Rope.angleOf Real.rpow position p.ropeDimension m.ropeBase)

noncomputable def keyOf (row : Row) (position kvHead : ℕ) : ℕ → ℝ :=
  rotated m position (normed m t.kNorm fun i => t.attnK.product row (kvHead * p.attention.headSize + i))

noncomputable def queryOf (row : Row) (position head : ℕ) : ℕ → ℝ :=
  rotated m position (normed m t.qNorm fun i => t.attnQ.product row (head * (2 * p.attention.headSize) + i))

def valueOf (row : Row) (kvHead : ℕ) : ℕ → ℝ := fun i =>
  t.attnV.product row (kvHead * p.attention.valueLength + i)

/-- The second half of what belongs to a head. -/
noncomputable def gateOf (row : Row) (head : ℕ) : ℕ → ℝ := fun i =>
  Recurrent.sigmoid real.toElementary
    (t.attnQ.product row (head * (2 * p.attention.headSize) + p.attention.headSize + i))

/-- A head: the mean of the values so far, weighted by how well their keys fit, behind a gate. -/
noncomputable def headOf (rows : List Row) (head i : ℕ) : ℝ :=
  let kvHead := head / (p.heads / p.attention.headsKv)
  Softmax.mean
    (fun c => (∑ j ∈ range p.attention.headSize, keyOf m t (rows.getD c 0) c kvHead j *
      queryOf m t (last rows) (rows.length - 1) head j) * (1 / √p.attention.headSize))
    (fun c => valueOf t (rows.getD c 0) kvHead i) rows.length * gateOf t (last rows) head i

noncomputable def attentionOf (rows : List Row) : Row :=
  t.attnOut.product fun y => headOf m t rows (y / p.attention.valueLength) (y % p.attention.valueLength)

end

/-! ### Recurrence -/

section

variable (t : RecurrentTensors ℝ p)

/-- The convolution of a channel over the last rows. -/
def convolutionOf (rows : List Row) (channel : ℕ) : ℝ :=
  ∑ j ∈ Icc 1 p.recurrent.convKernel, t.ssmConv (channel * p.recurrent.convKernel + (j - 1)) *
    Window.streamAt (rows.map t.attnQkv.product) ((rows.length - 1 : ℕ) - p.recurrent.convKernel + j) channel

/-- The queries, keys and values of the last row. -/
noncomputable def channelsOf (rows : List Row) : ℕ → ℝ :=
  Recurrent.normalizeHeads real.toElementary p.recurrent m.epsilon fun channel =>
    Recurrent.silu real.toElementary (convolutionOf t rows channel)

/-- The step of the delta rule for the last row. -/
noncomputable def stepOf (head : ℕ) (rows : List Row) : Recurrent.Step ℝ :=
  Recurrent.headStep real.toElementary p.recurrent t.bound (channelsOf m t rows)
    (t.ssmAlpha.product (last rows)) (t.ssmBeta.product (last rows)) head

/-- The state of a head behind all rows. -/
noncomputable def matrixOf (head : ℕ) (rows : List Row) :
    Matrix (Fin p.recurrent.headSize) (Fin p.recurrent.headSize) ℝ :=
  (Layers.along (stepOf m t head) rows).foldl (fun S d => d.next S) 0

/-- What a head answers to the last row. -/
noncomputable def answerOf (rows : List Row) (head : ℕ) : Fin p.recurrent.headSize → ℝ :=
  Recurrent.headOutput real.toElementary p.recurrent m.epsilon t.bound
    (fun y => Recurrent.silu real.toElementary (t.attnGate.product (last rows) y)) head
    ((stepOf m t head rows).answer (matrixOf m t head rows.dropLast))

noncomputable def recurrentOf (rows : List Row) : Row :=
  t.ssmOut.product fun y =>
    if h : y % p.recurrent.headSize < p.recurrent.headSize then answerOf m t rows (y / p.recurrent.headSize) ⟨_, h⟩
    else 0

end

/-! ### The layers -/

noncomputable def Mixer.rowOf : Mixer ℝ p → List Row → Row
  | .attention t => attentionOf m t
  | .recurrent t => recurrentOf m t

/-- A layer: what it makes of the last row, from all rows. -/
noncomputable def rowOf (l : Layer ℝ p) (rows : List Row) : Row :=
  let residual := l.mixer.rowOf m (rows.map (rmsNorm real p.hiddenSize l.attnNorm m.epsilon)) + last rows
  let normalized := rmsNorm real p.hiddenSize l.postNorm m.epsilon residual
  l.ffnDown.product (fun i => Recurrent.silu real.toElementary (l.ffnGate.product normalized i) *
    l.ffnUp.product normalized i) + residual

/-- The logits behind some tokens. -/
noncomputable def networkLogits (tokens : List ℕ) : Row :=
  m.output.product (rmsNorm real p.hiddenSize m.outputNorm m.epsilon
    (last (Layers.through (m.layers.map (rowOf m)) (tokens.map m.tokenEmbedding))))

/-- The answers of the model: `tokens` are those since the last reset. -/
noncomputable def answers : List ℕ → List Op → List (Except ForwardError (Option Row))
  | _, [] => []
  | _, .reset :: ops => .ok none :: answers [] ops
  | tokens, .forward tokenId computeLogits :: ops =>
    if tokenId < 0 ∨ tokenId ≥ p.vocabularySize then .error .token :: answers tokens ops
    else if tokens.length ≥ p.attention.maxContext then .error .position :: answers tokens ops
    else
      let tokens := tokens ++ [tokenId.toNat]
      .ok (if computeLogits then some (networkLogits m tokens) else none) :: answers tokens ops

/-! ### Sizes -/
/-- No default integer overflows, the rotation and the gate of a head stay inside of it, and `attention_work` is as
wide as the matrix that it is passed to.  The loader checks none of this. -/
structure Fits : Prop where
  keys : (p.attention.maxContext * p.attention.headsKv) * p.attention.headSize ≤ huge
  values : (p.attention.maxContext * p.attention.headsKv) * p.attention.valueLength ≤ huge
  rope : p.ropeDimension ≤ p.attention.headSize
  gates : p.attention.valueLength ≤ p.attention.headSize
  widths : ∀ l ∈ m.layers, l.mixer.width = p.attentionSize

section

variable {m}

theorem modelMatvec_eq {width size : ℕ} (t : Weight ℝ width) (hsize : size = width) (hwork : size ≤ p.workSize)
    (input : ℕ → ℝ) : modelMatvec p t size input = .ok (t.product input) := by
  have hle : size ≤ p.quantizedSize := hwork.trans (Nat.le_add_right _ _)
  rw [modelMatvec, if_neg (Nat.not_lt.mpr hle), if_neg (not_not.mpr hsize)]

theorem hiddenSize_le (p : Sizes) : p.hiddenSize ≤ p.workSize := Nat.le_max_right _ _

theorem feedForward_le (p : Sizes) : p.feedForward ≤ p.workSize :=
  ((Nat.le_max_left _ _).trans (Nat.le_max_left _ _)).trans (Nat.le_max_left _ _)

theorem attentionSize_le (hm : Fits m) : p.attentionSize ≤ p.workSize := by
  have hheads : p.heads * p.attention.valueLength ≤ 2 * p.heads * p.attention.headSize := by
    have hvalues := Nat.mul_le_mul_left p.heads hm.gates
    have hdouble : 2 * p.heads * p.attention.headSize =
        p.heads * p.attention.headSize + p.heads * p.attention.headSize := by ring
    omega
  have hinner : p.recurrent.innerSize ≤ p.recurrent.convSize := Nat.le_add_left _ _
  refine Nat.max_le.mpr ⟨hheads.trans ?_, hinner.trans ?_⟩
  · exact (Nat.le_max_right _ _).trans (Nat.le_max_left _ _)
  · exact ((Nat.le_max_right _ _).trans (Nat.le_max_left _ _)).trans (Nat.le_max_left _ _)

theorem getD_concat_of_lt {rows : List Row} {c : ℕ} (hc : c < rows.length) (x : Row) :
    (rows ++ [x]).getD c 0 = rows.getD c 0 := List.getD_append _ _ _ _ hc

theorem getD_concat_length (rows : List Row) (x : Row) : (rows ++ [x]).getD rows.length 0 = x := by simp

end

end Forward

end Qwen35

end FortAI
