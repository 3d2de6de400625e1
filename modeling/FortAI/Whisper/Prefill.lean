import FortAI.Machine.Causal
import FortAI.Whisper.DecoderRows
import FortAI.Whisper.DecoderViews

/-!
# Prefill of the Whisper decoder

The caches of the self attention show one row of keys and one of values for each position of a layer,
whatever their layout.  A layer is a causal stage over these rows, and a call is a batch through the
cascade of the layers.

* `Separated` : views of distinct layers have no byte in common, and all lie inside their cache.
* `decodeTokens_run` : a call is a run of the cascade.
* `decodeTokens_eq_successive` : a batch, or its tokens one by one.
-/

namespace FortAI

namespace Whisper

open Tensor

namespace Decoder

variable {E : Type} {m : NativeModel E}

/-! ### Layouts -/

/-- The layout of `self_k`. -/
def keyLayout (m : NativeModel E) : Layout := Layout.rowMajor m.nState m.nTextCtxPad

/-- The layout of `self_v`. -/
def valueLayout (self : Decoder m) : Layout :=
  if self.flashAttention then Layout.rowMajor m.nState m.nTextCtxPad
  else Layout.transposed m.nState m.nTextCtxPad

/-- The contents of `self_k` at a position of a layer. -/
def keyRow (self : Decoder m) (layer p : ℕ) : List E := (keyLayout m).row self.selfK layer p

/-- The contents of `self_v` at a position of a layer. -/
def valueRow (self : Decoder m) (layer p : ℕ) : List E := self.valueLayout.row self.selfV layer p

/-- The same, for the positions of the context. -/
def kept (self : Decoder m) (layer p : ℕ) : KeyValue E :=
  if p < m.nTextCtx then (self.keyRow layer p, self.valueRow layer p) else ([], [])

theorem place_view1d {ne0 e : ℕ} (he : e < ne0) (offset : ℕ) : (view1d ne0 offset).place e = offset + 2 * e := by
  simp [View.place, View.address, view1d, Nat.mod_eq_of_lt he, Nat.div_eq_of_lt he]

theorem place_view2d {ne0 ne1 i j : ℕ} (hi : i < ne0) (hj : j < ne1) (nb1 offset : ℕ) :
    (view2d ne0 ne1 nb1 offset).place (i + ne0 * j) = offset + 2 * i + nb1 * j := by
  have hrow : (i + ne0 * j) / ne0 = j := by
    rw [Nat.add_mul_div_left _ _ (Nat.zero_lt_of_lt hi), Nat.div_eq_of_lt hi, zero_add]
  simp [View.place, View.address, view2d, hrow, Nat.mod_eq_of_lt hi, Nat.mod_eq_of_lt hj, Nat.div_eq_of_lt hj]

/-- Rows in one piece. -/
theorem covers_rowMajor (layer position n : ℕ) :
    (Layout.rowMajor m.nState m.nTextCtxPad).Covers (keyDestination m layer position n) layer position n
      fun j c => c + m.nState * j where
  place e he := by
    have hlt : e < m.nState * n := by simpa [View.count, keyDestination, view1d] using he
    have hpos : 0 < m.nState := Nat.pos_of_ne_zero fun h => by simp [h] at hlt
    exact ⟨e / m.nState, Nat.div_lt_of_lt_mul hlt, e % m.nState, Nat.mod_lt _ hpos, (Nat.mod_add_div _ _).symm⟩
  number j hj c hc := by
    have hlt : c + m.nState * j < m.nState * n := digits_lt hc hj
    refine ⟨by simpa [View.count, keyDestination, view1d] using hlt, ?_⟩
    rw [keyDestination, place_view1d hlt]
    simp only [Layout.rowMajor, selfOffset]
    ring

/-- One row for each channel. -/
theorem covers_transposed (layer position n : ℕ) :
    (Layout.transposed m.nState m.nTextCtxPad).Covers
      (view2d n m.nState (2 * m.nTextCtxPad) (selfOffset m layer + 2 * position)) layer position n
      fun j c => j + n * c where
  place e he := by
    have hlt : e < n * m.nState := by simpa [View.count, view2d] using he
    have hpos : 0 < n := Nat.pos_of_ne_zero fun h => by simp [h] at hlt
    exact ⟨e % n, Nat.mod_lt _ hpos, e / n, Nat.div_lt_of_lt_mul hlt, (Nat.mod_add_div _ _).symm⟩
  number j hj c hc := by
    have hc : c < m.nState := hc
    refine ⟨by simpa [View.count, view2d] using digits_lt hj hc, ?_⟩
    rw [place_view2d hj hc]
    simp only [Layout.transposed, selfOffset]
    ring

/-- The number of a channel in what is copied to `self_v`. -/
def valueNumber (self : Decoder m) (n j c : ℕ) : ℕ := if self.flashAttention then c + m.nState * j else j + n * c

theorem valueLayout_eq (self : Decoder m) :
    self.valueLayout.positions = m.nTextCtxPad ∧ self.valueLayout.channels = m.nState := by
  rw [valueLayout]
  split <;> exact ⟨rfl, rfl⟩

theorem covers_value (self : Decoder m) (layer position n : ℕ) :
    self.valueLayout.Covers (self.valueDestination layer position n) layer position n (self.valueNumber n) := by
  unfold valueLayout valueDestination valueNumber
  cases self.flashAttention with
  | true => exact covers_rowMajor layer position n
  | false => exact covers_transposed layer position n

theorem lt_pad {p : ℕ} (hp : p < m.nTextCtx) : p < m.nTextCtxPad := hp.trans_le (le_pad256 _)

/-! ### Storing -/

/-- The stored rows of a tensor. -/
theorem map_element (f : E → E) (t : Tensor E) (ht : t.ne0 = m.nState) {j : ℕ} (hj : j < t.ne1) :
    ((List.range m.nState).map fun c => f (t.element (c + m.nState * j))) = (t.row j 0).map f := by
  rw [row, List.map_map, ht]
  refine List.map_congr_left fun c hc => congrArg f ?_
  have := t.element_eq (ht.symm ▸ List.mem_range.mp hc) hj 0
  rwa [Nat.mul_zero, Nat.add_zero, ht] at this

theorem element_transposed (t : Tensor E) {j c : ℕ} (hj : j < t.ne1) (hc : c < m.nState) :
    (t.reshape m.nState t.ne1 1).transpose.element (j + t.ne1 * c) = t.element (c + m.nState * j) := by
  have := (t.reshape m.nState t.ne1 1).transpose.element_eq (show j < t.ne1 from hj) (show c < m.nState from hc) 0
  rw [Nat.mul_zero, Nat.add_zero] at this
  refine this.trans ?_
  show t.element (c + m.nState * (j + t.ne1 * 0)) = _
  rw [Nat.mul_zero, Nat.add_zero]

theorem element_valueSource (self : Decoder m) (t : Tensor E) {j c : ℕ} (hj : j < t.ne1) (hc : c < m.nState) :
    (self.valueSource t).element (self.valueNumber t.ne1 j c) = t.element (c + m.nState * j) := by
  rw [valueSource, valueNumber]
  cases self.flashAttention with
  | true => rfl
  | false => exact element_transposed t hj hc

variable [Semiring E] (self : Decoder m)

section
variable {layer position : ℕ} (hlayer : layer < m.nLayers) (cur : Tensor E) (hroom : position + cur.ne1 ≤ m.nTextCtx)
include hlayer hroom

theorem keyRow_store (l : ℕ) {p : ℕ} (hp : p < m.nTextCtx) : (self.store layer position cur).keyRow l p =
    if l = layer ∧ position ≤ p ∧ p < position + cur.ne1 then
      (((project (m.tensor layer "attn.key.weight") (cur.row (p - position) 0)).map
        (m.headScale m.headDim * ·)).map m.half)
    else self.keyRow l p := by
  have hpad := hroom.trans (le_pad256 m.nTextCtx)
  refine ((covers_rowMajor layer position cur.ne1).row_copy hpad m.half _ self.selfK (lt_pad hp)).trans ?_
  split_ifs with hmine
  · have hj : p - position < cur.ne1 := by omega
    refine (map_element m.half ((Tensor.mulMat (m.tensor layer "attn.key.weight") cur).scale (m.headScale m.headDim))
      (m.matrix_rows layer hlayer "attn.key.weight" (by decide)) hj).trans ?_
    rw [row_scale, row_mulMat]
  · rfl

theorem valueRow_store (l : ℕ) {p : ℕ} (hp : p < m.nTextCtx) : (self.store layer position cur).valueRow l p =
    if l = layer ∧ position ≤ p ∧ p < position + cur.ne1 then
      (linearRow m layer "attn.value.weight" "attn.value.bias" (cur.row (p - position) 0)).map m.half
    else self.valueRow l p := by
  obtain ⟨hpositions, hchannels⟩ := self.valueLayout_eq
  have hpad := hroom.trans (le_pad256 m.nTextCtx)
  refine ((self.covers_value layer position cur.ne1).row_copy (hpositions ▸ hpad) m.half _ self.selfV
    (hpositions ▸ lt_pad hp)).trans ?_
  split_ifs with hmine
  · have hj : p - position < (linear m layer "attn.value.weight" "attn.value.bias" cur).ne1 :=
      show p - position < cur.ne1 by omega
    have hsource : ∀ c ∈ List.range m.nState,
        m.half ((self.valueSource (linear m layer "attn.value.weight" "attn.value.bias" cur)).element
          (self.valueNumber cur.ne1 (p - position) c)) =
        m.half ((linear m layer "attn.value.weight" "attn.value.bias" cur).element (c + m.nState * (p - position))) :=
      fun c hc => congrArg m.half (self.element_valueSource _ hj (List.mem_range.mp hc))
    rw [hchannels, List.map_congr_left hsource,
      map_element m.half _ (m.matrix_rows layer hlayer _ (by decide)) hj, row_linear hlayer _ _ (by decide)]
  · rfl

/-- **A batch keeps one row after the other.** -/
theorem kept_store : (self.store layer position cur).kept layer =
    Stage.fill (self.kept layer) position ((List.range cur.ne1).map fun j =>
      (((project (m.tensor layer "attn.key.weight") (cur.row j 0)).map (m.headScale m.headDim * ·)).map m.half,
        (linearRow m layer "attn.value.weight" "attn.value.bias" (cur.row j 0)).map m.half)) := by
  funext p
  simp only [kept, Stage.fill]
  by_cases hp : p < m.nTextCtx
  · rw [if_pos hp, if_pos hp, self.keyRow_store hlayer cur hroom layer hp, self.valueRow_store hlayer cur hroom layer hp]
    by_cases hle : position ≤ p
    · by_cases hlt : p < position + cur.ne1
      · have hj : p - position < cur.ne1 := by omega
        simp [hle, hlt, hj]
      · have hj : ¬ p - position < cur.ne1 := by omega
        simp [hle, hlt, hj]
    · simp [hle]
  · -- behind the context nothing is kept
    have hj : ¬ p - position < cur.ne1 := by omega
    simp [hp, hj]

theorem kept_store_of_ne {l : ℕ} (hl : l ≠ layer) : (self.store layer position cur).kept l = self.kept l := by
  funext p
  simp only [kept]
  split_ifs with hp
  · rw [self.keyRow_store hlayer cur hroom l hp, self.valueRow_store hlayer cur hroom l hp, if_neg fun h => hl h.1,
      if_neg fun h => hl h.1]
  · rfl

end

/-! ### Reading -/

omit [Semiring E] in
theorem shown_selfViews (layer nKv p : ℕ) :
    shown self.flashAttention m ((layerK m layer nKv).read self.selfK) ((self.layerV layer nKv).read self.selfV) p =
      (self.keyRow layer p, self.valueRow layer p) := by
  have hkey : ∀ c, (layerK m layer nKv).address (c % m.headDim) p (c / m.headDim) =
      (Layout.rowMajor m.nState m.nTextCtxPad).address layer p c := by
    intro c
    conv_rhs => rw [← Nat.mod_add_div c m.headDim]
    simp only [View.address, layerK, view3d, Layout.rowMajor, selfOffset]
    ring
  refine Prod.ext (List.map_congr_left fun c _ => congrArg self.selfK (hkey c)) ?_
  simp only [shown, valueRow, Layout.row, self.valueLayout_eq.2]
  refine List.map_congr_left fun c _ => ?_
  cases hflash : self.flashAttention with
  | true =>
    simp only [valueLayout, layerV, hflash, if_pos]
    exact congrArg self.selfV (hkey c)
  | false =>
    simp only [valueLayout, layerV, hflash, if_neg Bool.false_ne_true]
    refine congrArg self.selfV ?_
    conv_rhs => rw [← Nat.mod_add_div c m.headDim]
    simp only [View.address, view3d, Layout.transposed, selfOffset]
    ring

omit [Semiring E] in
theorem selfExtents (layer nKv : ℕ) : Extents self.flashAttention m ((layerK m layer nKv).read self.selfK)
    ((self.layerV layer nKv).read self.selfV) nKv := by
  rw [layerV]
  cases self.flashAttention <;> constructor <;> simp [View.read, layerK, view3d]

/-- The mask leaves the keys up to the position of the token. -/
theorem maskTensor_maskHost {nKv n position i j : ℕ} (hi : i < nKv) (hj : j < n) :
    maskTensor nKv (maskHost nKv n position) i j = decide (i ≤ position + j) := by
  induction n with
  | zero => exact absurd hj (Nat.not_lt_zero j)
  | succ n ih =>
    have hlength : ((List.range n).flatMap fun j => (List.range nKv).map fun i => decide (i ≤ position + j)).length =
        n * nKv := by simp [List.length_flatMap]
    rw [maskTensor, maskHost, List.range_succ, List.flatMap_append, List.flatMap_singleton]
    rcases Nat.lt_succ_iff_lt_or_eq.mp hj with hlt | rfl
    · have hin : j * nKv + i < n * nKv := by
        rw [Nat.add_comm, Nat.mul_comm j, Nat.mul_comm n]
        exact digits_lt hi hlt
      rw [List.getD_append _ _ _ _ (hlength ▸ hin)]
      exact ih hlt
    · rw [List.getD_append_right _ _ _ _ (hlength ▸ Nat.le_add_right _ _), hlength, Nat.add_sub_cancel_left]
      simp [hi]

theorem filter_le_range {N q : ℕ} (h : q < N) :
    (List.range N).filter (fun i => decide (i ≤ q)) = List.range (q + 1) := by
  obtain ⟨d, rfl⟩ := Nat.exists_eq_add_of_le (Nat.succ_le_of_lt h)
  rw [Nat.succ_eq_add_one, List.range_add, List.filter_append, List.filter_eq_self.mpr, List.filter_eq_nil_iff.mpr,
    List.append_nil]
  · intro i hi
    obtain ⟨k, -, rfl⟩ := List.mem_map.mp hi
    have hbehind : q < q + 1 + k := by omega
    exact fun hle => absurd (of_decide_eq_true hle) (Nat.not_le_of_lt hbehind)
  · exact fun i hi => decide_eq_true (Nat.le_of_lt_succ (List.mem_range.mp hi))

/-! ### Layers -/

/-- What a layer makes of a row. -/
def outRow (layer : ℕ) (x : List E) (kvs : List (KeyValue E)) : List E :=
  feedRow m layer (self.crossRow layer (self.selfRow layer x kvs))

/-- A layer as a stage. -/
def stage (layer : ℕ) : Stage (ℕ → KeyValue E) (List E × ℕ) := Stage.causal (keepRow m layer) (self.outRow layer)

/-- The rows of a batch, with their positions. -/
def rowsFrom (t : Tensor E) (position : ℕ) : List (List E × ℕ) :=
  ((List.range t.ne1).map fun j => t.row j 0).zipIdx position

section
variable {layer position nKv : ℕ} (hlayer : layer < m.nLayers) (t : Tensor E) (hroom : position + t.ne1 ≤ m.nTextCtx)
  (hKv : position + t.ne1 ≤ nKv)
include hlayer hroom hKv

theorem row_selfAttention {j : ℕ} (hj : j < t.ne1) :
    (self.selfAttention layer position nKv (maskTensor nKv (maskHost nKv t.ne1 position)) t).2.row j 0 =
      self.selfRow layer (t.row j 0) ((List.range (position + j + 1)).map
        ((self.store layer position (layerNorm m layer "attn_ln.weight" "attn_ln.bias" t)).kept layer)) := by
  have hseen : (List.range nKv).filter (maskTensor nKv (maskHost nKv t.ne1 position) · j) =
      List.range (position + j + 1) := by
    rw [← filter_le_range (show position + j < nKv by omega)]
    exact List.filter_congr fun i hi => maskTensor_maskHost (List.mem_range.mp hi) hj
  have hq : ((linear m layer "attn.query.weight" "attn.query.bias"
      (layerNorm m layer "attn_ln.weight" "attn_ln.bias" t)).scale (m.headScale m.headDim)).ne0 = m.nState :=
    m.matrix_rows layer hlayer "attn.query.weight" (by decide)
  set stored := self.store layer position (layerNorm m layer "attn_ln.weight" "attn_ln.bias" t) with hstored
  rw [selfAttention, ← hstored, row_residual _ _ hj, row_linear hlayer _ _ (by decide)]
  refine congrArg (fun x => zipRow _ (linearRow m layer _ _ x) _) ?_
  refine (stored.row_attend hq hj hseen (stored.selfExtents layer nKv) 1).trans ?_
  rw [row_query hlayer]
  refine congrArg (attendRow self.flashAttention m 1 _) (List.map_congr_left fun p hp => ?_)
  have hp : p < m.nTextCtx := by
    have := List.mem_range.mp hp
    omega
  rw [kept, if_pos hp]
  exact stored.shown_selfViews layer nKv p

/-- **A layer is a causal stage.** -/
theorem layerTurn_run :
    let turn := layerTurn position nKv (maskTensor nKv (maskHost nKv t.ne1 position)) (self, t) layer
    (turn.1.kept layer, rowsFrom turn.2 position) =
      (self.stage layer).run (self.kept layer) (rowsFrom t position) := by
  intro turn
  have hkept : turn.1.kept layer =
      Stage.fill (self.kept layer) position (((List.range t.ne1).map fun j => t.row j 0).map (keepRow m layer)) := by
    refine (self.kept_store hlayer (layerNorm m layer "attn_ln.weight" "attn_ln.bias" t) hroom).trans ?_
    rw [List.map_map]
    refine congrArg _ (List.map_congr_left fun j _ => ?_)
    rw [row_layerNorm hlayer _ _ (by decide) (by decide)]
    rfl
  have hca := self.ne1_selfAttention layer position nKv (maskTensor nKv (maskHost nKv t.ne1 position)) t
  have hff : turn.2.ne1 = t.ne1 := (turn.1.ne1_crossAttention layer _).trans hca
  rw [rowsFrom, rowsFrom, stage, Stage.run_causal, ← hkept]
  refine Prod.ext rfl (List.ext_getElem (by simp [hff]) fun j hj hj' => ?_)
  have hlt : j < t.ne1 := by simpa using hj'
  simp only [List.getElem_zipIdx, List.getElem_map, List.getElem_range]
  refine Prod.ext ?_ rfl
  -- the parts of the layer, from the last one
  refine (row_feedForward hlayer _ (hff.symm ▸ hlt)).trans (congrArg (feedRow m layer) ?_)
  refine (turn.1.row_crossAttention hlayer _ (hca.symm ▸ hlt)).trans (congrArg (self.crossRow layer) ?_)
  exact self.row_selfAttention hlayer t hroom hKv hlt

end

theorem ne1_layerTurn (position nKv : ℕ) (mask : ℕ → ℕ → Bool) (t : Tensor E) (layer : ℕ) :
    (layerTurn position nKv mask (self, t) layer).2.ne1 = t.ne1 :=
  (ne1_crossAttention _ layer _).trans (self.ne1_selfAttention layer position nKv mask t)

/-- Decoders that differ in `self_k` and `self_v` only. -/
structure Alike (a b : Decoder m) : Prop where
  flash : b.flashAttention = a.flashAttention
  ready : b.crossReady = a.crossReady
  keys : b.crossK = a.crossK
  values : b.crossV = a.crossV

omit [Semiring E] in
theorem Alike.trans {a b c : Decoder m} (h : a.Alike b) (h' : b.Alike c) : a.Alike c :=
  ⟨h'.flash.trans h.flash, h'.ready.trans h.ready, h'.keys.trans h.keys, h'.values.trans h.values⟩

theorem Alike.stage_eq {self other : Decoder m} (h : self.Alike other) : other.stage = self.stage := by
  obtain ⟨flash, ready, crossK, crossV, selfK, selfV⟩ := self
  obtain ⟨flash', ready', crossK', crossV', selfK', selfV'⟩ := other
  obtain ⟨rfl, rfl, rfl, rfl⟩ := h
  rfl

/-- **The loop over the layers is a cascade.** -/
theorem layers_cascade {position nKv n : ℕ} (hroom : position + n ≤ m.nTextCtx) (hKv : position + n ≤ nKv)
    {layers : List ℕ} (hnodup : layers.Nodup) (hlayers : ∀ layer ∈ layers, layer < m.nLayers) (t : Tensor E)
    (ht : t.ne1 = n) :
    let s := layers.foldl (layerTurn position nKv (maskTensor nKv (maskHost nKv n position))) (self, t)
    (layers.map s.1.kept, rowsFrom s.2 position) = Stage.cascade (layers.map fun layer => (self.stage layer).run)
      (layers.map self.kept) (rowsFrom t position) ∧
    s.2.ne1 = n ∧ self.Alike s.1 ∧ ∀ layer, layer ∉ layers → s.1.kept layer = self.kept layer := by
  induction layers generalizing self t with
  | nil => exact ⟨rfl, ht, ⟨rfl, rfl, rfl, rfl⟩, fun _ _ => rfl⟩
  | cons layer layers ih =>
    subst ht
    obtain ⟨hlayer, hrest⟩ := List.forall_mem_cons.mp hlayers
    obtain ⟨hnot, hnodup⟩ := List.nodup_cons.mp hnodup
    have hturn := self.layerTurn_run hlayer t hroom hKv
    set turn := layerTurn position nKv (maskTensor nKv (maskHost nKv t.ne1 position)) (self, t) layer with hdef
    have halike : self.Alike turn.1 := ⟨rfl, rfl, rfl, rfl⟩
    have hother : ∀ l, l ≠ layer → turn.1.kept l = self.kept l := fun l hl =>
      self.kept_store_of_ne hlayer (layerNorm m layer "attn_ln.weight" "attn_ln.bias" t) hroom hl
    obtain ⟨hrun, hne1, hbehind, hframe⟩ := ih turn.1 hnodup hrest turn.2 (self.ne1_layerTurn _ _ _ t layer)
    have hsame : layers.map turn.1.kept = layers.map self.kept :=
      List.map_congr_left fun l hl => hother l fun h => hnot (h ▸ hl)
    refine ⟨?_, hne1, halike.trans hbehind, fun l hl => ?_⟩
    · simp only [List.foldl_cons, List.map_cons, Stage.cascade_cons, ← hdef, ← hturn]
      rw [hsame, halike.stage_eq] at hrun
      rw [← hrun, hframe layer hnot]
    · obtain ⟨hne, hnot'⟩ := not_or.mp (mt List.mem_cons.mpr hl)
      exact (hframe l hnot').trans (hother l hne)

/-! ### Calls -/

/-- The row of a token in front of the layers. -/
def embedRow (m : NativeModel E) (token position : ℕ) : List E :=
  zipRow (· + ·) ((m.tensorByName "decoder.token_embedding.weight").row token 0)
    ((m.tensorByName "decoder.positional_embedding").row position 0)

/-- The rows of a call, with their positions. -/
def embedded (m : NativeModel E) (tokens : List ℕ) (position : ℕ) : List (List E × ℕ) :=
  (tokens.zipIdx position).map fun r => (embedRow m r.1 r.2, r.2)

/-- The scores of the tokens, behind a row. -/
def scoreRow (m : NativeModel E) (x : List E) : List E :=
  project (m.tensorByName "decoder.token_embedding.weight")
    (zipRow (· + ·) (zipRow (· * ·) (mapRow m.norm x) ((m.tensorByName "decoder.ln.weight").row 0 0))
      ((m.tensorByName "decoder.ln.bias").row 0 0))

/-- The scores of the last row of a batch, `logits` without one. -/
def lastScores (m : NativeModel E) (logits : List E) (rows : List (List E × ℕ)) : List E :=
  (rows.getLast?.map fun r => scoreRow m r.1).getD logits

theorem lastScores_append (logits : List E) (rows rows' : List (List E × ℕ)) :
    lastScores m logits (rows ++ rows') = lastScores m (lastScores m logits rows) rows' := by
  simp only [lastScores, List.getLast?_append]
  cases rows'.getLast? <;> rfl

/-- What all layers keep. -/
def allKept : List (ℕ → KeyValue E) := (List.range m.nLayers).map self.kept

/-- A row through all layers. -/
def layers : Stage (List (ℕ → KeyValue E)) (List E × ℕ) := Stage.cascade ((List.range m.nLayers).map self.stage)

theorem Alike.layers_eq {self other : Decoder m} (h : self.Alike other) : other.layers = self.layers := by
  rw [layers, h.stage_eq, layers]

/-- The embedding of the tokens of a call. -/
theorem rowsFrom_input (tokens : List ℕ) (position : ℕ) :
    rowsFrom (Tensor.add ((m.tensorByName "decoder.token_embedding.weight").getRows tokens)
      ((m.tensorByName "decoder.positional_embedding").getRows
        ((List.range tokens.length).map fun j => position + j))) position = embedded m tokens position := by
  refine List.ext_getElem (by simp [rowsFrom, embedded, Tensor.add, Tensor.zip, getRows]) fun j hj hj' => ?_
  have hlt : j < tokens.length := by simpa [embedded] using hj'
  have hpos : j < ((List.range tokens.length).map fun j => position + j).length := by simpa using hlt
  simp only [rowsFrom, embedded, List.getElem_zipIdx, List.getElem_map, List.getElem_range]
  rw [row_residual _ _ hpos, row_getRows, row_getRows, embedRow]
  simp [hlt]

/-- The scores of a row behind the layers. -/
theorem row_scores (t : Tensor E) (j : ℕ) :
    (Tensor.mulMat (m.tensorByName "decoder.token_embedding.weight")
      (Tensor.add (Tensor.mul (t.mapRows m.norm) (m.tensorByName "decoder.ln.weight"))
        (m.tensorByName "decoder.ln.bias"))).row j 0 = scoreRow m (t.row j 0) := by
  rw [row_mulMat, row_add, row_mul, row_mapRows, m.ln_weight_rows, m.ln_bias_rows, Nat.mod_one, Nat.zero_mod,
    Nat.zero_mod]
  rfl

section
variable {tokens : List ℕ} {position : ℕ} (hroom : position + tokens.length ≤ m.nTextCtx)
include hroom

/-- The graph of a call is a run of the layers, and scores its rows. -/
theorem graph_run :
    let call := self.graph tokens position
    let run := self.layers.run self.allKept (embedded m tokens position)
    call.1.allKept = run.1 ∧ self.Alike call.1 ∧ call.2.ne1 = tokens.length ∧
      ∀ j (hj : j < run.2.length), call.2.row j 0 = scoreRow m run.2[j].1 := by
  intro call run
  have hstages : (List.range m.nLayers).map (fun layer => (self.stage layer).run) =
      ((List.range m.nLayers).map self.stage).map Stage.run := by simp
  obtain ⟨hcascade, hne1, halike, -⟩ := self.layers_cascade hroom (self.nKv_bounds hroom).1 List.nodup_range
    (fun _ => List.mem_range.mp) (Tensor.add ((m.tensorByName "decoder.token_embedding.weight").getRows tokens)
      ((m.tensorByName "decoder.positional_embedding").getRows
        ((List.range tokens.length).map fun j => position + j))) rfl
  rw [rowsFrom_input, hstages, Stage.cascade_run] at hcascade
  obtain ⟨hkept, hrows⟩ := Prod.ext_iff.mp hcascade
  refine ⟨hkept, halike, hne1, fun j hj => ?_⟩
  refine (row_scores _ j).trans (congrArg (scoreRow m) ?_)
  have hrow := congrArg Prod.fst (List.getElem_of_eq hrows (hrows ▸ hj : _))
  simp only [rowsFrom, List.getElem_zipIdx, List.getElem_map, List.getElem_range] at hrow
  exact hrow

/-- **A call is a run of the layers.** -/
theorem decodeTokens_run (hready : self.crossReady = true) (htokens : tokens ≠ []) (logits : List E) :
    let run := self.layers.run self.allKept (embedded m tokens position)
    ∃ behind, self.decodeTokens tokens position = .ok (behind, lastScores m logits run.2) ∧
      behind.allKept = run.1 ∧ self.Alike behind := by
  intro run
  obtain ⟨hkept, halike, hne1, hscores⟩ := self.graph_run hroom
  have hpos : 0 < tokens.length := List.length_pos_iff.mpr htokens
  have hlength : run.2.length = tokens.length := by simp [run, embedded]
  have hinside : ¬ ((position : ℤ) < 0 ∨ (position : ℤ) ≥ m.nTextCtx ∨
      (tokens.length : ℤ) > m.nTextCtx - position) := by omega
  refine ⟨_, ?_, hkept, halike⟩
  rw [decodeTokens, hready, if_neg (by simp), if_neg hpos.ne', if_neg hinside, Int.toNat_natCast]
  -- the view starts at the last row
  have hlast : tokens.length - 1 < run.2.length := by omega
  have hlastScores : lastScores m logits run.2 = scoreRow m run.2[tokens.length - 1].1 := by
    rw [lastScores, List.getLast?_eq_getElem?, hlength, List.getElem?_eq_getElem hlast]
    rfl
  have hne0 : (self.graph tokens position).2.ne0 = m.nVocab := m.embedding_rows
  rw [hlastScores, ← hscores _ hlast]
  refine congrArg (fun logits => Except.ok (_, logits)) ?_
  rw [row, hne0]
  refine List.map_congr_left fun i hi => ?_
  have helement := (self.graph tokens position).2.element_eq (hne0.symm ▸ List.mem_range.mp hi)
    (show tokens.length - 1 < _ by omega) 0
  rwa [Nat.mul_zero, Nat.add_zero, hne0, Nat.add_comm] at helement

end

/-- Calls of one token each; of the logits, those of the last call. -/
def decodeEach (s : Decoder m × List E) : List ℕ → ℤ → Except DecodeError (Decoder m × List E)
  | [], _ => .ok s
  | token :: tokens, position =>
    match s.1.decode token position with
    | .ok s => decodeEach s tokens (position + 1)
    | .error e => .error e

/-- The calls are the same run. -/
theorem decodeEach_run (hready : self.crossReady = true) (logits : List E) {tokens : List ℕ} {position : ℕ}
    (hroom : position + tokens.length ≤ m.nTextCtx) :
    let run := self.layers.run self.allKept (embedded m tokens position)
    ∃ behind, decodeEach (self, logits) tokens position = .ok (behind, lastScores m logits run.2) ∧
      behind.allKept = run.1 := by
  induction tokens generalizing self logits position with
  | nil => exact ⟨self, rfl, rfl⟩
  | cons token tokens ih =>
    have hone : position + [token].length ≤ m.nTextCtx := (Nat.add_le_add_left (by simp) _).trans hroom
    obtain ⟨next, hcall, hkept, halike⟩ := self.decodeTokens_run hone hready (List.cons_ne_nil token []) logits
    obtain ⟨behind, hrest, hall⟩ := ih next (halike.ready.trans hready)
      (lastScores m logits (self.layers.run self.allKept (embedded m [token] position)).2)
      (show position + 1 + tokens.length ≤ m.nTextCtx by rw [List.length_cons] at hroom; omega)
    rw [halike.layers_eq, hkept] at hall hrest
    have hrows : embedded m (token :: tokens) position = embedded m [token] position ++ embedded m tokens (position + 1) :=
      rfl
    intro run
    have hrun : run = _ := (congrArg (self.layers.run self.allKept) hrows).trans (Stage.run_append _ _ _ _)
    refine ⟨behind, ?_, hall.trans (congrArg Prod.fst hrun).symm⟩
    rw [hrun, lastScores_append, decodeEach, decode, hcall]
    exact hrest

end Decoder

/-! ### The law -/

/-- **A batch, or its tokens one by one.** -/
theorem decodeTokens_eq_successive {E : Type} [Semiring E] {m : NativeModel E} (self : Decoder m)
    (hready : self.crossReady = true) {tokens : List ℕ} (htokens : tokens ≠ []) {position : ℕ}
    (hroom : position + tokens.length ≤ m.nTextCtx) :
    (∃ (batch single : Decoder m) (logits : List E),
      self.decodeTokens tokens position = .ok (batch, logits) ∧
      Decoder.decodeEach (self, []) tokens position = .ok (single, logits) ∧
      ∀ layer < m.nLayers, ∀ p < position + tokens.length,
        batch.keyRow layer p = single.keyRow layer p ∧ batch.valueRow layer p = single.valueRow layer p) ∧
    Separated self.selfKViews m.nLayers (Decoder.selfBytes m) ∧
    Separated self.selfVViews m.nLayers (Decoder.selfBytes m) ∧
    Separated self.crossKViews m.nLayers (Decoder.crossBytes m) ∧
    Separated self.crossVViews m.nLayers (Decoder.crossBytes m) := by
  refine ⟨?_, self.selfK_separated, self.selfV_separated, self.crossK_separated, self.crossV_separated⟩
  obtain ⟨batch, hbatch, hkept, -⟩ := self.decodeTokens_run hroom hready htokens []
  obtain ⟨single, hsingle, hkept'⟩ := self.decodeEach_run hready [] hroom
  refine ⟨batch, single, _, hbatch, hsingle, fun layer hlayer p hp => ?_⟩
  have hall : batch.kept layer = single.kept layer :=
    List.map_inj_left.mp (hkept.trans hkept'.symm) layer (List.mem_range.mpr hlayer)
  have hrow := congrFun hall p
  rw [Decoder.kept, Decoder.kept, if_pos (by omega), if_pos (by omega)] at hrow
  exact Prod.ext_iff.mp hrow

/-- Two layers with one head of one channel, and tensors of one element. -/
def smallModel : NativeModel ℤ where
  norm x := x
  gelu e := e
  half e := e
  softMax scores := scores.map fun _ => 1
  flashAttn _ _ kvs := kvs.flatMap Prod.snd
  headScale _ := 1
  useGpu := true
  nVocab := 1
  nAudioCtx := 1
  nTextCtx := 3
  nState := 1
  nHeads := 1
  nLayers := 2
  tensorByName _ := ⟨1, 1, 1, fun _ _ _ => 1⟩
  heads_pos := Nat.one_pos
  heads_dvd := Nat.one_dvd 1
  vector_rows _ _ _ _ := rfl
  matrix_rows _ _ _ _ := rfl
  embedding_rows := rfl
  ln_weight_rows := rfl
  ln_bias_rows := rfl

/-- Its decoder, behind the encoder. -/
def smallDecoder : Decoder smallModel := (Decoder.init smallModel none).prepareCross ⟨1, 1, 1, fun _ _ _ => 1⟩

theorem decodeTokens_eq_successive_two :
    (∃ (batch single : Decoder smallModel) (logits : List ℤ),
      smallDecoder.decodeTokens [0, 0] (1 : ℕ) = .ok (batch, logits) ∧
      Decoder.decodeEach (smallDecoder, []) [0, 0] (1 : ℕ) = .ok (single, logits) ∧
      ∀ layer < 2, ∀ p < 3,
        batch.keyRow layer p = single.keyRow layer p ∧ batch.valueRow layer p = single.valueRow layer p) ∧
    Separated smallDecoder.selfKViews 2 (Decoder.selfBytes smallModel) ∧
    Separated smallDecoder.selfVViews 2 (Decoder.selfBytes smallModel) ∧
    Separated smallDecoder.crossKViews 2 (Decoder.crossBytes smallModel) ∧
    Separated smallDecoder.crossVViews 2 (Decoder.crossBytes smallModel) :=
  decodeTokens_eq_successive smallDecoder rfl (List.cons_ne_nil 0 [0]) (show 1 + 2 ≤ 3 by decide)

end Whisper

end FortAI
