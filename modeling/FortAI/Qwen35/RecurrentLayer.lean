import FortAI.Qwen35.Network

/-!
# Recurrence with a window and a matrix

* `KeptStream` : what the window and the states of the heads have to have.
* `recurrentLayer_eq` : a token in a recurrent layer.
-/

namespace FortAI

namespace Qwen35

namespace Forward

open Finset

variable {p : Sizes} (m : Model ℝ p)

/-! ### Work arrays -/

section

variable {E : Recurrent.Elementary ℝ} {q : Recurrent.Sizes} {ε : ℝ} {n : ℕ} {a a' : ℕ → ℝ}

/-- Cells that agree inside of the slice agree behind it. -/
theorem l2NormalizeSlice_congr {first length : ℕ} (hn : first + length ≤ n) (h : ∀ i < n, a i = a' i) :
    ∀ i < n, Recurrent.l2NormalizeSlice E a first length ε i = Recurrent.l2NormalizeSlice E a' first length ε i := by
  have hsum : Recurrent.sumSquares a first length = Recurrent.sumSquares a' first length := by
    rw [Recurrent.sumSquares, Recurrent.sumSquares, Lanes.sumScalar_eq, Lanes.sumScalar_eq]
    exact sum_congr rfl fun i hi => by rw [h (first + i) (by have := mem_range.mp hi; omega)]
  intro i hi
  rw [Recurrent.l2NormalizeSlice, Recurrent.l2NormalizeSlice, hsum, Lanes.mapScalar_eq, Lanes.mapScalar_eq,
    Lanes.mapped, Lanes.mapped, h i hi]

theorem normalizeHeads_congr (hheads : q.keyHeads ≤ q.valueHeads) (h : ∀ i < q.convSize, a i = a' i) :
    ∀ i < q.convSize, Recurrent.normalizeHeads E q ε a i = Recurrent.normalizeHeads E q ε a' i := by
  -- the slice of a key, behind those of all queries, is inside of the row
  have hslice : ∀ head < q.keyHeads, q.stateSize * q.keyHeads + head * q.headSize + q.headSize ≤ q.convSize := by
    intro head hhead
    have hrow : (head + 1) * q.headSize ≤ q.valueHeads * q.headSize :=
      Nat.mul_le_mul_right _ (Nat.le_trans hhead hheads)
    rw [Nat.succ_mul] at hrow
    have hsize : q.convSize = q.stateSize * q.keyHeads + q.stateSize * q.keyHeads + q.valueHeads * q.headSize := by
      rw [Recurrent.Sizes.convSize, Recurrent.Sizes.innerSize]
      ring
    omega
  have hloop : ∀ m ≤ q.keyHeads, ∀ i < q.convSize, (List.range m).foldl (fun convWork head =>
      Recurrent.l2NormalizeSlice E (Recurrent.l2NormalizeSlice E convWork (head * q.headSize) q.headSize ε)
        (q.stateSize * q.keyHeads + head * q.headSize) q.headSize ε) a i =
      (List.range m).foldl (fun convWork head =>
        Recurrent.l2NormalizeSlice E (Recurrent.l2NormalizeSlice E convWork (head * q.headSize) q.headSize ε)
          (q.stateSize * q.keyHeads + head * q.headSize) q.headSize ε) a' i := by
    intro m
    induction m with
    | zero => exact fun _ => h
    | succ m ih =>
      intro hm
      have hend := hslice m hm
      -- the query first, then the key, each from what the turn before left
      simp only [List.range_succ, List.foldl_append, List.foldl_cons, List.foldl_nil]
      exact l2NormalizeSlice_congr hend (l2NormalizeSlice_congr (by omega) (ih (Nat.le_of_succ_le hm)))
  exact hloop q.keyHeads le_rfl

variable {d d' : Recurrent.Step ℝ} {size : ℕ}

/-- A step of the delta rule sees its vectors as far as they are long. -/
theorem next_congr (hk : (d.k : Fin size → ℝ) = d'.k) (hv : (d.v : Fin size → ℝ) = d'.v) (hdecay : d.decay = d'.decay)
    (hbeta : d.beta = d'.beta) (S : Matrix (Fin size) (Fin size) ℝ) : d.next S = d'.next S := by
  rw [Recurrent.Step.next, Recurrent.Step.next, hk, hv, hdecay, hbeta]

theorem answer_congr (hk : (d.k : Fin size → ℝ) = d'.k) (hv : (d.v : Fin size → ℝ) = d'.v)
    (hq : (d.q : Fin size → ℝ) = d'.q) (hdecay : d.decay = d'.decay) (hbeta : d.beta = d'.beta)
    (hscale : d.outputScale = d'.outputScale) (S : Matrix (Fin size) (Fin size) ℝ) : d.answer S = d'.answer S := by
  rw [Recurrent.Step.answer, Recurrent.Step.answer, next_congr hk hv hdecay hbeta, hq, hscale]

end

section

variable {m}

theorem fortaiSilu_apply (avx2 : Bool) {count i : ℕ} (hi : i < count) (values : ℕ → ℝ) :
    Recurrent.fortaiSilu real.toElementary avx2 count values i = Recurrent.silu real.toElementary (values i) := by
  have hmapped : Recurrent.fortaiSilu real.toElementary avx2 count values =
      Lanes.mapped 0 (fun _ => Recurrent.silu real.toElementary) count values := by
    rw [Recurrent.fortaiSilu]
    split_ifs
    · exact Lanes.mapEight_eq _ _ _ _
    · exact Lanes.mapScalar_eq _ _ _ _
  rw [hmapped, Lanes.mapped, if_pos ⟨Nat.zero_le _, by rwa [Nat.zero_add]⟩]

variable (m) in
/-- The window has the last rows, and the state of every head is the matrix of all rows. -/
structure KeptStream (t : RecurrentTensors ℝ p) (rows : List Row) (layer : LayerState ℝ) : Prop where
  window : Window.Holds (p.recurrent.convKernel - 1) p.recurrent.convSize (rows.map t.attnQkv.product) layer.convState
  matrix : ∀ head < p.recurrent.valueHeads,
    Recurrent.square p.recurrent.headSize (head * p.recurrent.headSize * p.recurrent.headSize) layer.gdnState =
      matrixOf m t head rows

theorem matrixOf_concat (t : RecurrentTensors ℝ p) (head : ℕ) (rows : List Row) (x : Row) :
    matrixOf m t head (rows ++ [x]) = (stepOf m t head (rows ++ [x])).next (matrixOf m t head rows) := by
  rw [matrixOf, Layers.along_concat, List.foldl_append]
  rfl

/-- A channel of the window and the new row. -/
theorem accumulate_window {t : RecurrentTensors ℝ p} {rows : List Row} {layer : LayerState ℝ}
    (h : KeptStream m t rows layer) (x : Row) {channel : ℕ} (hchannel : channel < p.recurrent.convSize) :
    Recurrent.accumulate p.recurrent t.bound layer.convState (t.attnQkv.product x) channel =
      convolutionOf t (rows ++ [x]) channel := by
  have hkernel : p.recurrent.convKernel - 1 + 1 = p.recurrent.convKernel := by
    have := p.recurrent.two_le_convKernel
    omega
  have hsum := h.window.sum_eq (t.attnQkv.product x) (fun j => t.ssmConv (channel * p.recurrent.convKernel + j)) hchannel
  rw [hkernel, List.length_map] at hsum
  rw [Recurrent.accumulate_eq, convolutionOf, List.length_append, List.length_singleton, Nat.add_sub_cancel,
    List.map_append]
  exact hsum

/-- The queries, keys and values of the new row. -/
theorem convolved_window {t : RecurrentTensors ℝ p} {rows : List Row} {layer : LayerState ℝ}
    (h : KeptStream m t rows layer) (x : Row) (avx2 : Bool) (work attentionWork : ℕ → ℝ)
    (hheads : p.recurrent.keyHeads ≤ p.recurrent.valueHeads) : ∀ i < p.recurrent.convSize,
    Recurrent.convolved real.toElementary avx2 p.recurrent m.epsilon t.bound
      ⟨layer.convState, layer.gdnState, work, attentionWork, fun _ => 0⟩ x i = channelsOf m t (rows ++ [x]) i := by
  refine normalizeHeads_congr hheads fun channel hchannel => ?_
  rw [fortaiSilu_apply avx2 hchannel, Lanes.mapScalar_eq, Lanes.mapped,
    if_pos ⟨Nat.zero_le _, by rwa [Nat.zero_add]⟩, Nat.sub_zero]
  exact congrArg _ (accumulate_window h x hchannel)

theorem keyHeads_le {q : Recurrent.Sizes} {head : ℕ} (hhead : head < q.valueHeads) : q.keyHeads ≤ q.valueHeads :=
  Nat.le_of_dvd (Nat.zero_lt_of_lt hhead) q.keyHeads_dvd

/-- The vectors of a head lie in `conv_work`. -/
theorem headStep_congr (t : RecurrentTensors ℝ p) {convWork convWork' : ℕ → ℝ} (alpha beta : ℕ → ℝ)
    (h : ∀ i < p.recurrent.convSize, convWork i = convWork' i) {head : ℕ} (hhead : head < p.recurrent.valueHeads) :
    let d := Recurrent.headStep real.toElementary p.recurrent t.bound convWork alpha beta head
    let d' := Recurrent.headStep real.toElementary p.recurrent t.bound convWork' alpha beta head
    (d.k : Fin p.recurrent.headSize → ℝ) = d'.k ∧ (d.v : Fin p.recurrent.headSize → ℝ) = d'.v ∧
      (d.q : Fin p.recurrent.headSize → ℝ) = d'.q := by
  have hsize : p.recurrent.convSize = p.recurrent.stateSize * p.recurrent.keyHeads +
      p.recurrent.stateSize * p.recurrent.keyHeads + p.recurrent.valueHeads * p.recurrent.headSize := by
    rw [Recurrent.Sizes.convSize, Recurrent.Sizes.innerSize]
    ring
  have hkey : (head % p.recurrent.keyHeads + 1) * p.recurrent.headSize ≤
      p.recurrent.valueHeads * p.recurrent.headSize :=
    Nat.mul_le_mul_right _ ((Nat.mod_lt head p.recurrent.keyHeads_pos).trans_le (keyHeads_le hhead))
  have hvalue : (head + 1) * p.recurrent.headSize ≤ p.recurrent.valueHeads * p.recurrent.headSize :=
    Nat.mul_le_mul_right _ hhead
  rw [Nat.succ_mul] at hkey hvalue
  have hdouble : 2 * p.recurrent.stateSize * p.recurrent.keyHeads = p.recurrent.stateSize * p.recurrent.keyHeads +
      p.recurrent.stateSize * p.recurrent.keyHeads := by ring
  refine ⟨funext fun i => h _ ?_, funext fun i => h _ ?_, funext fun i => h _ ?_⟩ <;> have := i.isLt <;> omega

/-- **A token in a recurrent layer.** -/
theorem recurrentLayer_eq (hm : Fits m) (t : RecurrentTensors ℝ p) (hwidth : p.recurrent.innerSize = p.attentionSize)
    {rows : List Row} {layer : LayerState ℝ} (hkept : KeptStream m t rows layer) (work : Work ℝ) (x : Row) :
    ∃ layer' work', forwardRecurrent real m t layer work x = .ok (layer', work', recurrentOf m t (rows ++ [x])) ∧
      KeptStream m t (rows ++ [x]) layer' := by
  obtain ⟨convWork, hconv⟩ : ∃ convWork, convWork = Recurrent.convolved real.toElementary m.avx2 p.recurrent m.epsilon
      t.bound ⟨layer.convState, layer.gdnState, work.convWork, work.attentionWork, fun _ => 0⟩ x := ⟨_, rfl⟩
  obtain ⟨d, hd⟩ : ∃ d, d = Recurrent.headStep real.toElementary p.recurrent t.bound convWork (t.ssmAlpha.product x)
      (t.ssmBeta.product x) := ⟨_, rfl⟩
  obtain ⟨heads, hheads⟩ : ∃ heads, heads = (List.range p.recurrent.valueHeads).foldl
      (Recurrent.runHead real.toElementary m.avx2 p.recurrent m.epsilon t.bound d
        (Recurrent.fortaiSilu real.toElementary m.avx2 p.recurrent.innerSize (t.attnGate.product x)))
      (layer.gdnState, work.attentionWork) := ⟨_, rfl⟩
  have hruns := Recurrent.Heads.run real.toElementary m.avx2 p.recurrent m.epsilon t.bound d
    (Recurrent.fortaiSilu real.toElementary m.avx2 p.recurrent.innerSize (t.attnGate.product x)) layer.gdnState
    work.attentionWork p.recurrent.valueHeads
  rw [← hheads] at hruns
  -- a head is given what the sequence gives it
  have hstep : ∀ head < p.recurrent.valueHeads, ∀ S : Matrix (Fin p.recurrent.headSize) (Fin p.recurrent.headSize) ℝ,
      (d head).next S = (stepOf m t head (rows ++ [x])).next S ∧
        (d head).answer S = (stepOf m t head (rows ++ [x])).answer S := by
    intro head hhead S
    have hcells := convolved_window hkept x m.avx2 work.convWork work.attentionWork (keyHeads_le hhead)
    rw [← hconv] at hcells
    obtain ⟨hk, hv, hq⟩ := headStep_congr t (t.ssmAlpha.product x) (t.ssmBeta.product x) hcells hhead
    rw [hd, stepOf, last_concat]
    exact ⟨next_congr hk hv rfl rfl S, answer_congr hk hv hq rfl rfl rfl S⟩
  have hkept' : KeptStream m t (rows ++ [x])
      { layer with convState := Recurrent.pushInput p.recurrent layer.convState (t.attnQkv.product x)
                   gdnState := heads.1 } := by
    refine ⟨?_, fun head hhead => ?_⟩
    · rw [Recurrent.pushInput_eq, List.map_append]
      exact hkept.window.slide (Nat.sub_pos_of_lt p.recurrent.two_le_convKernel) _
    · dsimp only
      rw [hruns.square head, if_pos hhead, hkept.matrix head hhead, (hstep head hhead _).1, matrixOf_concat]
  have hout : t.ssmOut.product heads.2 = recurrentOf m t (rows ++ [x]) := by
    refine t.ssmOut.product_congr fun y hy => ?_
    have hpos : 0 < p.recurrent.headSize := Nat.pos_of_ne_zero fun h => by simp [Recurrent.Sizes.innerSize, h] at hy
    have hhead : y / p.recurrent.headSize < p.recurrent.valueHeads := Nat.div_lt_of_lt_mul hy
    have hmod := Nat.mod_lt y hpos
    have hcell := congrFun (hruns.part _ hhead) ⟨_, hmod⟩
    rw [Recurrent.part, Nat.div_add_mod' y, hkept.matrix _ hhead, (hstep _ hhead _).2] at hcell
    rw [hcell, dif_pos hmod, answerOf, List.dropLast_concat, last_concat, Recurrent.headOutput, Recurrent.headOutput,
      Nat.div_add_mod' y, fortaiSilu_apply m.avx2 hy]
  refine ⟨_, { work with convWork := convWork, attentionWork := heads.2 }, ?_, hkept'⟩
  have hlast : modelMatvec p t.ssmOut p.attentionSize heads.2 = .ok (recurrentOf m t (rows ++ [x])) := by
    rw [modelMatvec_eq _ hwidth.symm (attentionSize_le hm), hout]
  subst hconv hd hheads
  rw [forwardRecurrent]
  exact congrArg (fun r => r >>= fun hiddenWork => Except.ok (_, _, hiddenWork)) hlast

end

end Forward

end Qwen35

end FortAI
