import FortAI.Qwen35.Network

/-!
# Attention with a cache

* `KeptKeys` : what the cache has to have.
* `attentionLayer_eq` : a token in an attention layer.
-/

namespace FortAI

namespace Qwen35

namespace Forward

open Finset
open KeyValue (huge)

variable {p : Sizes} (m : Model ℝ p)

/-! ### The loops over the heads -/

section

variable {heads stride length : ℕ} {weights values : ℕ → ℝ} {head i : ℕ}

/-- The heads are normalised one by one; what stands between them is left as it is. -/
theorem normalizeHeads_apply (hlength : length ≤ stride) (hi : i < stride) :
    normalizeHeads real heads stride length m.epsilon weights values (head * stride + i) =
      if head < heads ∧ i < length then
        values (head * stride + i) *
          (1 / √((∑ j ∈ range length, values (head * stride + j) * values (head * stride + j)) / length + m.epsilon)) *
          weights i
      else values (head * stride + i) := by
  induction heads generalizing head i with
  | zero => exact (if_neg fun h => Nat.not_lt_zero _ h.1).symm
  | succ heads ih =>
    have hslice : ∀ first (values : ℕ → ℝ) x, normalizeSlice real first length m.epsilon weights values x =
        if first ≤ x ∧ x < first + length then
          values x * (1 / √((∑ j ∈ range length, values (first + j) * values (first + j)) / length + m.epsilon)) *
            weights (x - first)
        else values x := fun first values x => by
      rw [normalizeSlice, Lanes.mapScalar_eq, Lanes.mapped, Recurrent.rmsInverseScale, Recurrent.sumSquares,
        Lanes.sumScalar_eq]
    rw [normalizeHeads, List.range_succ, List.foldl_append, ← normalizeHeads, List.foldl_cons, List.foldl_nil, hslice]
    obtain hlt | rfl | hlt := Nat.lt_trichotomy head heads
    · -- the slice of the last head is behind this one
      have hbelow : (head + 1) * stride ≤ heads * stride := Nat.mul_le_mul_right stride hlt
      rw [Nat.succ_mul] at hbelow
      rw [if_neg (by omega), ih hi]
      exact if_congr (by omega) rfl rfl
    · -- this head has not been reached before
      have hcell : ∀ j < stride, normalizeHeads real head stride length m.epsilon weights values (head * stride + j) =
          values (head * stride + j) := fun j hj => by
        rw [ih hj, if_neg fun h => Nat.lt_irrefl _ h.1]
      have hsum : ∑ j ∈ range length,
          normalizeHeads real head stride length m.epsilon weights values (head * stride + j) *
            normalizeHeads real head stride length m.epsilon weights values (head * stride + j) =
          ∑ j ∈ range length, values (head * stride + j) * values (head * stride + j) :=
        sum_congr rfl fun j hj => by rw [hcell j ((mem_range.mp hj).trans_le hlength)]
      rw [hcell i hi, hsum, Nat.add_sub_cancel_left]
      exact if_congr (by omega) rfl rfl
    · have habove : (heads + 1) * stride ≤ head * stride := Nat.mul_le_mul_right stride hlt
      rw [Nat.succ_mul] at habove
      rw [if_neg (by omega), ih hi]
      exact if_congr (by omega) rfl rfl

end

section

variable {heads width position : ℕ}

theorem row_eq_iff {c c' head head' : ℕ} (hhead : head < heads) (hhead' : head' < heads) :
    c * heads + head = c' * heads + head' ↔ c = c' ∧ head = head' := by
  constructor
  · intro h
    have hc : c = c' := by
      have := congrArg (· / heads) h
      simpa [Nat.add_div_of_dvd_right, Nat.mul_comm _ heads, Nat.mul_add_div (Nat.pos_of_ne_zero (by omega) : 0 < heads),
        Nat.div_eq_of_lt hhead, Nat.div_eq_of_lt hhead'] using this
    subst hc
    exact ⟨rfl, Nat.add_left_cancel h⟩
  · rintro ⟨rfl, rfl⟩
    rfl

/-- The rows of one position are written, and no others, if no index overflows. -/
theorem storeRows_eq (hfits : (position * heads + heads) * width ≤ huge) (work cells : ℕ → ℝ) :
    ∃ stored, storeRows heads width position work cells = some stored ∧
      ∀ c, ∀ head < heads, ∀ j < width, stored (c * width * heads + head * width + (j + 1)) =
        if c = position then work (head * width + j) else cells (c * width * heads + head * width + (j + 1)) := by
  have hloop : ∀ n ≤ heads, ∃ stored, (List.range n).foldlM (fun cells head =>
      let offset := position * width * heads + head * width
      if offset + width ≤ huge then
        some (Lanes.mapScalar (offset + 1) (fun i _ => work (head * width + i)) width cells)
      else none) cells = some stored ∧
      ∀ c, ∀ head < heads, ∀ j < width, stored (c * width * heads + head * width + (j + 1)) =
        if c = position ∧ head < n then work (head * width + j)
        else cells (c * width * heads + head * width + (j + 1)) := by
    intro n
    induction n with
    | zero => exact fun _ => ⟨cells, rfl, fun _ _ _ _ _ => (if_neg (by omega)).symm⟩
    | succ n ih =>
      intro hn
      obtain ⟨stored, hstored, hcells⟩ := ih (Nat.le_of_succ_le hn)
      have hoffset : position * width * heads + n * width + width ≤ huge := by
        have hrow : (position * heads + n + 1) * width ≤ (position * heads + heads) * width :=
          Nat.mul_le_mul_right width (by omega)
        have hring : position * width * heads + n * width + width = (position * heads + n + 1) * width := by ring
        exact hring ▸ hrow.trans hfits
      refine ⟨Lanes.mapScalar (position * width * heads + n * width + 1) (fun i _ => work (n * width + i)) width stored,
        by simp [List.range_succ, hstored, hoffset], fun c head hhead j hj => ?_⟩
      -- two rows of the cache meet only if position and head are the same
      have hrows := @Recurrent.row_disjoint width (c * heads + head) (position * heads + n) j hj 1
      have hindex : position * width * heads + n * width + 1 = 1 + (position * heads + n) * width := by ring
      have hcell : c * width * heads + head * width + (j + 1) = 1 + (c * heads + head) * width + j := by ring
      rw [Lanes.mapScalar_eq, Lanes.mapped, hindex, hcell]
      rw [row_eq_iff hhead hn] at hrows
      by_cases hrow : c = position ∧ head = n
      · obtain ⟨rfl, rfl⟩ := hrow
        rw [if_pos (hrows.mpr ⟨rfl, rfl⟩), if_pos ⟨rfl, head.lt_succ_self⟩, Nat.add_sub_cancel_left]
      · rw [if_neg (mt hrows.mp hrow), ← hcell, hcells c head hhead j hj]
        exact if_congr (by omega) rfl rfl
  obtain ⟨stored, hstored, hcells⟩ := hloop heads le_rfl
  refine ⟨stored, hstored, fun c head hhead j hj => ?_⟩
  rw [hcells c head hhead j hj]
  exact if_congr (by simp [hhead]) rfl rfl

end

section

variable (layer : LayerState ℝ) (qWork : ℕ → ℝ) (position : Fin p.attention.maxContext)

/-- What is left of a head. -/
noncomputable def headCell (head i : ℕ) : ℝ :=
  let kvHead := head / (p.heads / p.attention.headsKv)
  Softmax.mean
    (fun c => (∑ j ∈ range p.attention.headSize,
      layer.keyCache (c * p.attention.headSize * p.attention.headsKv + kvHead * p.attention.headSize + (j + 1)) *
        qWork (head * (2 * p.attention.headSize) + j)) * (1 / √p.attention.headSize))
    (fun c => layer.valueCache
      (c * p.attention.valueLength * p.attention.headsKv + kvHead * p.attention.valueLength + (i + 1)))
    (position + 1) *
    Recurrent.sigmoid real.toElementary (qWork (head * (2 * p.attention.headSize) + p.attention.headSize + i))

variable {m layer qWork position}

theorem row_fits {width : ℕ} (hfits : (p.attention.maxContext * p.attention.headsKv) * width ≤ huge)
    (position : Fin p.attention.maxContext) : (position * p.attention.headsKv + p.attention.headsKv) * width ≤ huge := by
  have hrows : (position : ℕ) * p.attention.headsKv + p.attention.headsKv ≤
      p.attention.maxContext * p.attention.headsKv := by
    rw [← Nat.succ_mul]
    exact Nat.mul_le_mul_right _ position.isLt
  exact (Nat.mul_le_mul_right _ hrows).trans hfits

theorem attendHead_eq (hm : Fits m) (scores attentionWork : ℕ → ℝ) (head : Fin p.heads) :
    attendHead real m layer qWork position scores attentionWork head =
      some (Lanes.mapped (head * p.attention.valueLength) (fun i _ => headCell layer qWork position head i)
        p.attention.valueLength attentionWork) := by
  have hfits : ∀ {width : ℕ}, (p.attention.maxContext * p.attention.headsKv) * width ≤ huge →
      (position * p.attention.headsKv + head / (p.heads / p.attention.headsKv) + 1) * width ≤ huge := fun h =>
    (Nat.mul_le_mul_right _ (Nat.add_le_add_left (kvHead_lt head) _)).trans (row_fits h position)
  have hrun : Attention.runAttention real.exp real.sqrt m.avx2 ⟨.plain layer.keyCache, .plain layer.valueCache⟩
      (callAt position head) ⟨fromOne qWork, fun _ => 0, fun _ => 0, scores, fromOne attentionWork⟩ m.flashAttention =
      some (Attention.attended (⟨.plain layer.keyCache, .plain layer.valueCache⟩ : Attention.Layer ℝ p.attention)
        (callAt position head) ⟨fromOne qWork, fun _ => 0, fun _ => 0, scores, fromOne attentionWork⟩) := by
    -- both ways to attend have the same cells
    cases m.flashAttention
    · exact Attention.scalarAttention_eq (hfits hm.keys) (hfits hm.values)
    · exact Attention.runAttention_eq m.avx2 (hfits hm.keys) (hfits hm.values)
  rw [attendHead, hrun, Option.bind_eq_bind, Option.bind_some]
  refine congrArg some (funext fun x => ?_)
  rw [Lanes.mapScalar_eq, Lanes.mapped, Lanes.mapped]
  by_cases hx : (head : ℕ) * p.attention.valueLength ≤ x ∧
      x < (head : ℕ) * p.attention.valueLength + p.attention.valueLength
  · rw [if_pos hx, if_pos hx, Attention.attended, Lanes.mapped]
    have hx' : (callAt position head).vOffset + 1 ≤ x + 1 ∧
        x + 1 < (callAt position head).vOffset + 1 + p.attention.valueLength :=
      ⟨Nat.succ_le_succ hx.1, by have := hx.2; simp only [callAt]; omega⟩
    rw [if_pos hx']
    simp only [headCell, callAt, Nat.add_sub_add_right]
    congr 1
    refine Softmax.mean_congr (fun c _ => ?_) fun c _ => rfl
    simp only [Attention.score, Attention.Storage.row, fromOne, Nat.add_right_comm _ 1, Nat.add_sub_cancel]
  · rw [if_neg hx, if_neg hx, Attention.attended, Lanes.mapped, if_neg (by simp only [callAt]; omega)]
    rfl

variable (layer qWork position) in
/-- All heads, each in its own cells. -/
theorem attendHeads_eq (hm : Fits m) (scores attentionWork : ℕ → ℝ) :
    ∃ attended, (List.finRange p.heads).foldlM (attendHead real m layer qWork position scores) attentionWork =
        some attended ∧
      ∀ head < p.heads, ∀ i < p.attention.valueLength,
        attended (head * p.attention.valueLength + i) = headCell layer qWork position head i := by
  have hloop : ∀ (hs : List (Fin p.heads)) (attentionWork : ℕ → ℝ),
      ∃ attended, hs.foldlM (attendHead real m layer qWork position scores) attentionWork = some attended ∧
        ∀ head : Fin p.heads, ∀ i < p.attention.valueLength, attended (head * p.attention.valueLength + i) =
          if head ∈ hs then headCell layer qWork position head i
          else attentionWork (head * p.attention.valueLength + i) := by
    intro hs
    induction hs with
    | nil => exact fun attentionWork => ⟨attentionWork, rfl, fun _ _ _ => rfl⟩
    | cons first hs ih =>
      intro attentionWork
      obtain ⟨attended, hattended, hcells⟩ := ih _
      refine ⟨attended, by rw [List.foldlM_cons, attendHead_eq hm]; exact hattended, fun head i hi => ?_⟩
      -- the heads behind `first` write none of its cells
      rw [hcells head i hi]
      have hslice := @Recurrent.row_disjoint p.attention.valueLength head first i hi 0
      rw [Nat.zero_add, Nat.zero_add, Fin.val_inj] at hslice
      by_cases hhs : head ∈ hs
      · rw [if_pos hhs, if_pos (List.mem_cons_of_mem _ hhs)]
      · rw [if_neg hhs, Lanes.mapped]
        by_cases hfirst : head = first
        · subst hfirst
          rw [if_pos (hslice.mpr rfl), if_pos List.mem_cons_self, Nat.add_sub_cancel_left]
        · rw [if_neg (mt hslice.mp hfirst), if_neg (by simp [hfirst, hhs])]
  obtain ⟨attended, hattended, hcells⟩ := hloop (List.finRange p.heads) attentionWork
  refine ⟨attended, hattended, fun head hhead i hi => ?_⟩
  have hcell := hcells ⟨head, hhead⟩ i hi
  rwa [if_pos (List.mem_finRange _)] at hcell

end

/-! ### A token -/

section

variable {m}

variable (m) in
/-- The cache has the keys and the values of all rows so far. -/
def KeptKeys (t : AttentionTensors ℝ p) (rows : List Row) (layer : LayerState ℝ) : Prop :=
  ∀ c < rows.length, ∀ head < p.attention.headsKv,
    (∀ j < p.attention.headSize,
      layer.keyCache (c * p.attention.headSize * p.attention.headsKv + head * p.attention.headSize + (j + 1)) =
        keyOf m t (rows.getD c 0) c head j) ∧
    ∀ j < p.attention.valueLength,
      layer.valueCache (c * p.attention.valueLength * p.attention.headsKv + head * p.attention.valueLength + (j + 1)) =
        valueOf t (rows.getD c 0) head j

/-- A head behind both loops. -/
theorem rotated_head (hm : Fits m) {heads stride position head i : ℕ} (weights values : ℕ → ℝ)
    (hstride : p.attention.headSize ≤ stride) (hhead : head < heads) (hi : i < p.attention.headSize) :
    Rope.applyRope Real.cos Real.sin Real.rpow heads stride position p.ropeDimension m.ropeBase
        (normalizeHeads real heads stride p.attention.headSize m.epsilon weights values) (head * stride + i) =
      rotated m position (normed m weights fun i => values (head * stride + i)) i := by
  rw [Rope.applyRope_head _ _ _ _ (hm.rope.trans hstride) _ hhead (hi.trans_le hstride)]
  refine Rope.rotate_congr ((Nat.mul_div_le _ _).trans hm.rope) hi fun j hj => ?_
  rw [normalizeHeads_apply m hstride (hj.trans_le hstride), if_pos ⟨hhead, hj⟩]
  rfl

/-- The gate of a head is left as it is. -/
theorem rotated_gate (hm : Fits m) {heads position head i : ℕ} (weights values : ℕ → ℝ) (hhead : head < heads)
    (hi : i < p.attention.headSize) :
    Rope.applyRope Real.cos Real.sin Real.rpow heads (2 * p.attention.headSize) position p.ropeDimension m.ropeBase
        (normalizeHeads real heads (2 * p.attention.headSize) p.attention.headSize m.epsilon weights values)
        (head * (2 * p.attention.headSize) + p.attention.headSize + i) =
      values (head * (2 * p.attention.headSize) + p.attention.headSize + i) := by
  have hrope := hm.rope
  rw [Nat.add_assoc, Rope.applyRope_head _ _ _ _ (by omega) _ hhead (by omega), Rope.rotate, if_neg (by omega),
    if_neg (by omega), normalizeHeads_apply m (by omega) (by omega), if_neg (by omega)]

variable (m) in
/-- The queries of a token and their gates behind both loops. -/
noncomputable def queryWork (t : AttentionTensors ℝ p) (position : ℕ) (x : Row) : ℕ → ℝ :=
  Rope.applyRope Real.cos Real.sin Real.rpow p.heads (2 * p.attention.headSize) position p.ropeDimension m.ropeBase
    (normalizeHeads real p.heads (2 * p.attention.headSize) p.attention.headSize m.epsilon t.qNorm (t.attnQ.product x))

variable (m) in
/-- The keys of a token behind both loops. -/
noncomputable def keyWork (t : AttentionTensors ℝ p) (position : ℕ) (x : Row) : ℕ → ℝ :=
  Rope.applyRope Real.cos Real.sin Real.rpow p.attention.headsKv p.attention.headSize position p.ropeDimension m.ropeBase
    (normalizeHeads real p.attention.headsKv p.attention.headSize p.attention.headSize m.epsilon t.kNorm
      (t.attnK.product x))

/-- The caches keep one row more when the keys and the values of a token are stored behind the others. -/
theorem KeptKeys.concat (hm : Fits m) {t : AttentionTensors ℝ p} {rows : List Row} {layer : LayerState ℝ}
    (hkept : KeptKeys m t rows layer) {x : Row} {keyCache valueCache : ℕ → ℝ}
    (hkeys : ∀ c, ∀ head < p.attention.headsKv, ∀ j < p.attention.headSize,
      keyCache (c * p.attention.headSize * p.attention.headsKv + head * p.attention.headSize + (j + 1)) =
        if c = rows.length then keyWork m t rows.length x (head * p.attention.headSize + j)
        else layer.keyCache (c * p.attention.headSize * p.attention.headsKv + head * p.attention.headSize + (j + 1)))
    (hvalues : ∀ c, ∀ head < p.attention.headsKv, ∀ j < p.attention.valueLength,
      valueCache (c * p.attention.valueLength * p.attention.headsKv + head * p.attention.valueLength + (j + 1)) =
        if c = rows.length then t.attnV.product x (head * p.attention.valueLength + j)
        else layer.valueCache
          (c * p.attention.valueLength * p.attention.headsKv + head * p.attention.valueLength + (j + 1))) :
    KeptKeys m t (rows ++ [x]) { layer with keyCache, valueCache } := by
  intro c hc head hhead
  rw [List.length_append, List.length_singleton] at hc
  refine ⟨fun j hj => ?_, fun j hj => ?_⟩
  · dsimp only
    rw [hkeys c head hhead j hj]
    split_ifs with heq
    · rw [heq, getD_concat_length, keyWork, rotated_head hm _ _ le_rfl hhead hj]
      rfl
    · have hlt : c < rows.length := by omega
      rw [getD_concat_of_lt hlt, (hkept c hlt head hhead).1 j hj]
  · dsimp only
    rw [hvalues c head hhead j hj]
    split_ifs with heq
    · rw [heq, getD_concat_length]
      rfl
    · have hlt : c < rows.length := by omega
      rw [getD_concat_of_lt hlt, (hkept c hlt head hhead).2 j hj]

/-- A head over caches that have the rows is the head of the rows. -/
theorem headCell_eq (hm : Fits m) {t : AttentionTensors ℝ p} {rows : List Row} {x : Row} {layer : LayerState ℝ}
    (hkept : KeptKeys m t (rows ++ [x]) layer) {position : Fin p.attention.maxContext}
    (hposition : position = rows.length) {head i : ℕ} (hhead : head < p.heads) (hi : i < p.attention.valueLength) :
    headCell layer (queryWork m t position x) position head i = headOf m t (rows ++ [x]) head i := by
  have hkv := kvHead_lt (p := p) ⟨head, hhead⟩
  have hlength : (rows ++ [x]).length = position + 1 := by rw [List.length_append, hposition, List.length_singleton]
  rw [headCell, headOf, hlength, last_concat, Nat.add_sub_cancel, gateOf]
  congr 1
  · refine Softmax.mean_congr (fun c hc => ?_) fun c hc => (hkept c (hlength ▸ hc) _ hkv).2 i hi
    congr 1
    refine sum_congr rfl fun j hj => ?_
    have hlt := mem_range.mp hj
    rw [(hkept c (hlength ▸ hc) _ hkv).1 j hlt, queryWork, rotated_head hm _ _ (by omega) hhead hlt]
    rfl
  · rw [queryWork, rotated_gate hm _ _ hhead (hi.trans_le hm.gates)]

/-- The last product reads the cells of the heads and no others. -/
theorem product_attended {t : AttentionTensors ℝ p} {rows : List Row} {attended : ℕ → ℝ}
    (h : ∀ head < p.heads, ∀ i < p.attention.valueLength,
      attended (head * p.attention.valueLength + i) = headOf m t rows head i) :
    t.attnOut.product attended = attentionOf m t rows := by
  refine t.attnOut.product_congr fun y hy => ?_
  have hpos : 0 < p.attention.valueLength := Nat.pos_of_ne_zero fun h => by simp [h] at hy
  have hdiv : y / p.attention.valueLength < p.heads := Nat.div_lt_of_lt_mul (Nat.mul_comm _ _ ▸ hy)
  have hcell := h _ hdiv _ (Nat.mod_lt y hpos)
  rwa [Nat.div_add_mod' y] at hcell

/-- **A token in an attention layer.** -/
theorem attentionLayer_eq (hm : Fits m) (t : AttentionTensors ℝ p)
    (hwidth : p.heads * p.attention.valueLength = p.attentionSize) {rows : List Row} {layer : LayerState ℝ}
    (hkept : KeptKeys m t rows layer) {position : Fin p.attention.maxContext} (hposition : position = rows.length)
    (work : Work ℝ) (x : Row) :
    ∃ layer' work', forwardAttention real m t position layer work x =
        .ok (layer', work', attentionOf m t (rows ++ [x])) ∧ KeptKeys m t (rows ++ [x]) layer' := by
  obtain ⟨keyCache, hkeyStore, hkeys⟩ :=
    storeRows_eq (row_fits hm.keys position) (keyWork m t position x) layer.keyCache
  obtain ⟨valueCache, hvalueStore, hvalues⟩ :=
    storeRows_eq (row_fits hm.values position) (t.attnV.product x) layer.valueCache
  obtain ⟨attended, hattended, hcells⟩ := attendHeads_eq { layer with keyCache, valueCache } (queryWork m t position x)
    position hm work.scores work.attentionWork
  have hkept' : KeptKeys m t (rows ++ [x]) { layer with keyCache, valueCache } :=
    hkept.concat hm (by rwa [hposition] at hkeys) (by rwa [hposition] at hvalues)
  have hout : t.attnOut.product attended = attentionOf m t (rows ++ [x]) :=
    product_attended fun head hhead i hi =>
      (hcells head hhead i hi).trans (headCell_eq hm hkept' hposition hhead hi)
  refine ⟨_, { work with attentionWork := attended }, ?_, hkept'⟩
  have hq : modelMatvec p t.attnQ p.hiddenSize x = .ok (t.attnQ.product x) := modelMatvec_eq _ rfl (hiddenSize_le p) x
  have hk : modelMatvec p t.attnK p.hiddenSize x = .ok (t.attnK.product x) := modelMatvec_eq _ rfl (hiddenSize_le p) x
  have hv : modelMatvec p t.attnV p.hiddenSize x = .ok (t.attnV.product x) := modelMatvec_eq _ rfl (hiddenSize_le p) x
  have hlast : modelMatvec p t.attnOut p.attentionSize attended = .ok (attentionOf m t (rows ++ [x])) := by
    rw [modelMatvec_eq _ hwidth.symm (attentionSize_le hm), hout]
  rw [keyWork] at hkeyStore
  rw [queryWork] at hattended
  rw [forwardAttention, hq, hk, hv]
  simp only [bind, Except.bind]
  rw [hkeyStore, hvalueStore]
  simp only [orOverflow]
  rw [hattended]
  simp only [hlast]

end

end Forward

end Qwen35

end FortAI
