import FortAI.Qwen35.AttentionLayer
import FortAI.Qwen35.RecurrentLayer

/-!
# Caches and sequences

* `keptLayer` : a layer of the code, the layer on sequences, and what the one has to keep for the other.
* `run_eq_answers` : calls in any order, and the model on the tokens since the last reset.
-/

namespace FortAI

namespace Qwen35

namespace Forward

open KeyValue (huge)

variable {p : Sizes} {m : Model ℝ p}

/-! ### A layer -/

theorem siluProduct_apply (avx2 : Bool) {count i : ℕ} (hi : i < count) (left right : ℕ → ℝ) :
    siluProduct real avx2 count left right i = Recurrent.silu real.toElementary (left i) * right i := by
  have hmapped : siluProduct real avx2 count left right =
      Lanes.mapped 0 (fun i v => Recurrent.silu real.toElementary v * right i) count left := by
    rw [siluProduct]
    split_ifs
    · exact Lanes.mapEight_eq _ _ _ _
    · exact Lanes.mapScalar_eq _ _ _ _
  rw [hmapped, Lanes.mapped, if_pos ⟨Nat.zero_le _, by rwa [Nat.zero_add]⟩, Nat.sub_zero]

/-- What a layer has to keep of the rows that its mixer has seen. -/
def Mixer.Holds (m : Model ℝ p) : Mixer ℝ p → List Row → LayerState ℝ → Prop
  | .attention t => KeptKeys m t
  | .recurrent t => KeptStream m t

theorem forwardMixer_eq (hm : Fits m) (mixer : Mixer ℝ p) (hwidth : mixer.width = p.attentionSize) {rows : List Row}
    {layer : LayerState ℝ} {position : Fin p.attention.maxContext} (hkept : mixer.Holds m rows layer)
    (hposition : (position : ℕ) = rows.length) (work : Work ℝ) (x : Row) :
    ∃ layer' work', forwardMixer real m position mixer layer work x =
        .ok (layer', work', mixer.rowOf m (rows ++ [x])) ∧ mixer.Holds m (rows ++ [x]) layer' := by
  cases mixer with
  | attention t => exact attentionLayer_eq hm t hwidth hkept hposition work x
  | recurrent t => exact recurrentLayer_eq hm t hwidth hkept work x

/-- Attention or recurrence, then the feed forward network. -/
theorem forwardLayer_eq (hm : Fits m) {l : Layer ℝ p} (hl : l ∈ m.layers) {rows : List Row} {layer : LayerState ℝ}
    {position : Fin p.attention.maxContext}
    (hkept : l.mixer.Holds m (rows.map (rmsNorm real p.hiddenSize l.attnNorm m.epsilon)) layer)
    (hposition : (position : ℕ) = rows.length) (work : Work ℝ) (x : Row) :
    ∃ layer' work', forwardLayer real m position l layer work x = .ok (layer', work', rowOf m l (rows ++ [x])) ∧
      l.mixer.Holds m ((rows ++ [x]).map (rmsNorm real p.hiddenSize l.attnNorm m.epsilon)) layer' := by
  obtain ⟨normalized, hnormalized⟩ : ∃ normalized, normalized = rmsNorm real p.hiddenSize l.attnNorm m.epsilon x :=
    ⟨_, rfl⟩
  obtain ⟨layer', work', hstep, hkept'⟩ := forwardMixer_eq hm l.mixer (hm.widths l hl) hkept
    (by rwa [List.length_map]) work normalized
  have hrows : (rows ++ [x]).map (rmsNorm real p.hiddenSize l.attnNorm m.epsilon) =
      rows.map (rmsNorm real p.hiddenSize l.attnNorm m.epsilon) ++ [normalized] := by
    rw [List.map_append, hnormalized]
    rfl
  refine ⟨layer', work', ?_, hrows ▸ hkept'⟩
  have hgate : ∀ v, modelMatvec p l.ffnGate p.hiddenSize v = .ok (l.ffnGate.product v) :=
    modelMatvec_eq _ rfl (hiddenSize_le p)
  have hup : ∀ v, modelMatvec p l.ffnUp p.hiddenSize v = .ok (l.ffnUp.product v) :=
    modelMatvec_eq _ rfl (hiddenSize_le p)
  have hdown : ∀ gate up, modelMatvec p l.ffnDown p.feedForward (siluProduct real m.avx2 p.feedForward gate up) =
      .ok (l.ffnDown.product fun i => Recurrent.silu real.toElementary (gate i) * up i) := fun gate up => by
    rw [modelMatvec_eq _ rfl (feedForward_le p)]
    exact congrArg _ (l.ffnDown.product_congr fun i hi => siluProduct_apply m.avx2 hi gate up)
  rw [forwardLayer, ← hnormalized, hstep, rowOf, hrows, last_concat]
  simp only [bind, Except.bind]
  -- the feed forward network keeps nothing from one token to the next
  rw [hgate, hup]
  dsimp only
  rw [hdown]

/-- A layer of the code, the layer on sequences, and what the one has to keep for the other. -/
noncomputable def keptLayer (hm : Fits m) (l : { l // l ∈ m.layers }) :
    Layers.Kept (LayerState ℝ) (Work ℝ) ForwardError Row p.attention.maxContext where
  step place := forwardLayer real m place l
  row := rowOf m l
  Holds rows layer := l.1.mixer.Holds m (rows.map (rmsNorm real p.hiddenSize l.1.attnNorm m.epsilon)) layer
  next hkept hplace w x := forwardLayer_eq hm l.2 hkept hplace w x

/-- All of them. -/
noncomputable def keptLayers (hm : Fits m) :
    List (Layers.Kept (LayerState ℝ) (Work ℝ) ForwardError Row p.attention.maxContext) :=
  m.layers.attach.map (keptLayer hm)

theorem map_step_keptLayers (hm : Fits m) (place : Fin p.attention.maxContext) :
    (keptLayers hm).map (fun l => l.step place) = m.layers.map (forwardLayer real m place) := by
  rw [keptLayers, List.map_map]
  exact List.attach_map_val (f := forwardLayer real m place)

theorem map_row_keptLayers (hm : Fits m) : (keptLayers hm).map Layers.Kept.row = m.layers.map (rowOf m) := by
  rw [keptLayers, List.map_map]
  exact List.attach_map_val (f := rowOf m)

/-! ### Runs -/

/-- Behind a reset nothing has been kept, and nothing has to be. -/
theorem holds_reset (m : Model ℝ p) (mixer : Mixer ℝ p) :
    mixer.Holds m [] ⟨fun _ => 0, fun _ => 0, fun _ => 0, fun _ => 0⟩ := by
  cases mixer with
  | attention t => exact fun c hc => absurd hc (Nat.not_lt_zero c)
  | recurrent t => exact ⟨Window.Holds.nil _ _, fun head _ => rfl⟩

theorem allHold_reset (hm : Fits m) {s : State ℝ} (hlayers : s.layers.length = m.layers.length) :
    Layers.AllHold (keptLayers hm) [] (reset s).layers := by
  have hnil := Layers.allHold_nil (keptLayers hm) ⟨fun _ => 0, fun _ => 0, fun _ => 0, fun _ => 0⟩
    fun l hl => by
      obtain ⟨l, -, rfl⟩ := List.mem_map.mp hl
      exact holds_reset m l.1.mixer
  have hlength : (keptLayers hm).length = s.layers.length := by simp [keptLayers, hlayers]
  rw [hlength, ← List.map_const'] at hnil
  exact hnil

/-- A token behind any others. -/
theorem forward_eq (hm : Fits m) {tokens : List ℕ} {s : State ℝ}
    (hkept : Layers.AllHold (keptLayers hm) (tokens.map m.tokenEmbedding) s.layers) {tokenId : ℤ}
    (htoken : ¬(tokenId < 0 ∨ tokenId ≥ p.vocabularySize)) (hposition : tokens.length < p.attention.maxContext)
    (computeLogits : Bool) :
    ∃ s', forward real m s tokenId tokens.length computeLogits =
        .ok (s', if computeLogits then some (networkLogits m (tokens ++ [tokenId.toNat])) else none) ∧
      Layers.AllHold (keptLayers hm) ((tokens ++ [tokenId.toNat]).map m.tokenEmbedding) s'.layers := by
  obtain ⟨layers, work, y, hpass, hkept', hrows⟩ := Layers.pass_kept (keptLayers hm) ⟨_, hposition⟩ hkept
    (by rw [List.length_map]) s.work (m.tokenEmbedding tokenId.toNat)
  rw [map_step_keptLayers] at hpass
  rw [map_row_keptLayers, ← List.map_singleton, ← List.map_append] at hrows
  rw [← List.map_singleton, ← List.map_append] at hkept'
  refine ⟨⟨layers, work⟩, ?_, hkept'⟩
  have hrange : ¬((tokens.length : ℤ) < 0 ∨ (tokens.length : ℤ) ≥ p.attention.maxContext) := by omega
  rw [forward, if_neg htoken, dif_neg hrange]
  simp only [Int.toNat_natCast, hpass, bind, Except.bind]
  cases computeLogits with
  | false => rfl
  | true =>
    have hlogits := modelMatvec_eq (p := p) m.output rfl (hiddenSize_le p)
      (rmsNorm real p.hiddenSize m.outputNorm m.epsilon y)
    rw [networkLogits, hrows, last_concat]
    simp only [hlogits, if_true]

/-- A call that is refused changes nothing, one that is not adds its token. -/
theorem run_from (hm : Fits m) (tokens : List ℕ) {s : State ℝ}
    (hkept : Layers.AllHold (keptLayers hm) (tokens.map m.tokenEmbedding) s.layers) (ops : List Op) :
    run real m s tokens.length ops = answers m tokens ops := by
  induction ops generalizing tokens s with
  | nil => rfl
  | cons op ops ih =>
    cases op with
    | reset =>
      have hlayers : s.layers.length = m.layers.length := by rw [hkept.length_eq]; simp [keptLayers]
      exact congrArg _ (ih [] (allHold_reset hm hlayers))
    | forward tokenId computeLogits =>
      rw [run, answers]
      by_cases htoken : tokenId < 0 ∨ tokenId ≥ p.vocabularySize
      · -- refused before any cache is written
        rw [if_pos htoken, forward, if_pos htoken]
        exact congrArg _ (ih tokens hkept)
      rw [if_neg htoken]
      by_cases hposition : tokens.length ≥ p.attention.maxContext
      · have hrange : (tokens.length : ℤ) < 0 ∨ (tokens.length : ℤ) ≥ p.attention.maxContext := by omega
        rw [if_pos hposition, forward, if_neg htoken, dif_pos hrange]
        exact congrArg _ (ih tokens hkept)
      · obtain ⟨s', hforward, hkept'⟩ := forward_eq hm hkept htoken (Nat.not_le.mp hposition) computeLogits
        rw [if_neg hposition, hforward]
        have hnext := ih _ hkept'
        rw [List.length_append, List.length_singleton] at hnext
        exact congrArg _ hnext

/-- **The caches do not show**, where they are plain and there is no draft head: whatever is called in whatever
order, an answer is that of the model without caches on the tokens since the last reset. -/
theorem run_eq_answers (hm : Fits m) {s : State ℝ} (hlayers : s.layers.length = m.layers.length) (ops : List Op) :
    run real m (reset s) 0 ops = answers m [] ops :=
  run_from hm [] (allHold_reset hm hlayers) ops

/-! ### A small model -/

theorem small_le_huge : 1 * 2 ≤ huge := by decide

/-- One head of each kind. -/
def smallSizes : Sizes where
  hiddenSize := 2
  vocabularySize := 3
  feedForward := 2
  heads := 1
  ropeDimension := 2
  attention := ⟨2, 2, 1, 4, Nat.two_pos, Nat.one_pos, small_le_huge, small_le_huge⟩
  recurrent := ⟨2, 2, 1, 1, 2, le_rfl, Nat.one_pos, one_dvd 1⟩
  headsKv_dvd := one_dvd 1

/-- A matrix that leaves a vector as it is. -/
def copy (width : ℕ) : Weight ℝ width where
  quantized := true
  product x i := if i < width then x i else 0
  product_congr h := funext fun i => if_ctx_congr Iff.rfl (h i) fun _ => rfl

def smallModel : Model ℝ smallSizes where
  layers := [
    ⟨fun _ => 1, fun _ => 1, copy 2, copy 2, copy 2,
      .recurrent ⟨copy 2, copy 2, copy 2, copy 2, copy 2, fun _ => 1, fun _ => 1, fun _ => 1, fun _ => 1⟩⟩,
    ⟨fun _ => 1, fun _ => 1, copy 2, copy 2, copy 2,
      .attention ⟨copy 2, copy 2, copy 2, copy 2, fun _ => 1, fun _ => 1⟩⟩]
  tokenEmbedding tokenId _ := tokenId
  outputNorm _ := 1
  output := copy 2
  epsilon := 1
  ropeBase := 10000
  flashAttention := true
  avx2 := true

theorem smallModel_fits : Fits smallModel where
  keys := by decide
  values := by decide
  rope := le_rfl
  gates := le_rfl
  widths l hl := by
    simp only [smallModel, List.mem_cons, List.not_mem_nil, or_false] at hl
    rcases hl with rfl | rfl <;> rfl

/-- A third token that is none, and a reset in between. -/
theorem run_eq_answers_small :
    let old : LayerState ℝ := ⟨fun _ => 7, fun _ => 7, fun _ => 7, fun _ => 7⟩
    run real smallModel (reset ⟨[old, old], ⟨fun _ => 7, fun _ => 7, fun _ => 7⟩⟩) 0
        [.forward 1 false, .forward 2 true, .forward 3 true, .reset, .forward 2 true] =
      [.ok none, .ok (some (networkLogits smallModel [1, 2])), .error .token, .ok none,
        .ok (some (networkLogits smallModel [2]))] := by
  intro old
  rw [run_eq_answers smallModel_fits rfl]
  rfl

end Forward

end Qwen35

end FortAI
