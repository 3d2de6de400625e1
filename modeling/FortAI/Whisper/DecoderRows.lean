import FortAI.Whisper.Decoder
import Mathlib.Data.List.Nodup

/-!
# One row of the decoder

What a layer makes of a row depends on that row, on what is kept for the positions up to its own, and on
the caches of the cross attention.

* `row_attend` : attention in one row, with the mask and the layout of the values out of sight.
* `row_crossAttention`, `row_feedForward` : the parts of a layer behind the self attention.
-/

namespace FortAI

namespace Whisper

open Tensor NativeModel

variable {E : Type} [Semiring E]

/-- What is kept for a position: a row of the keys and a row of the values. -/
abbrev KeyValue (E : Type) := List E × List E

namespace Decoder

variable (m : NativeModel E)

/-! ### The functions of a row -/

/-- `layerNorm` of a row. -/
def normRow (layer : ℕ) (weight bias : String) (x : List E) : List E :=
  zipRow (· + ·) (zipRow (· * ·) (mapRow m.norm x) ((m.tensor layer weight).row 0 0)) ((m.tensor layer bias).row 0 0)

/-- `linear` of a row. -/
def linearRow (layer : ℕ) (weight bias : String) (x : List E) : List E :=
  zipRow (· + ·) (project (m.tensor layer weight) x) ((m.tensor layer bias).row 0 0)

/-- The channels of a head. -/
def head (h : ℕ) (x : List E) : List E := (List.range m.headDim).map fun d => x.getD (d + m.headDim * h) 0

/-- One channel of the flash attention of a query. -/
def flashChannel (scale : E) (q : List E) (kvs : List (KeyValue E)) (c : ℕ) : E :=
  let h := c / m.headDim
  (m.flashAttn scale (head m h q) (kvs.map fun kv => (head m h kv.1, head m h kv.2))).getD (c % m.headDim) 0

/-- One channel of the attention of a query: the values with the weights of their keys. -/
def plainChannel (scale : E) (q : List E) (kvs : List (KeyValue E)) (c : ℕ) : E :=
  let h := c / m.headDim
  let weights := m.softMax (kvs.map fun kv => scale * dot (head m h kv.1) (head m h q))
  ((List.range kvs.length).map fun i => (kvs.getD i ([], [])).2.getD c 0 * weights.getD i 0).sum

variable {m}

section
variable {layer : ℕ} (hlayer : layer < m.nLayers) {weight bias : String} (t : Tensor E) (j : ℕ)

include hlayer in
theorem row_layerNorm (hweight : weight ∈ vectors) (hbias : bias ∈ vectors) :
    (layerNorm m layer weight bias t).row j 0 = normRow m layer weight bias (t.row j 0) := by
  have hw : (m.tensor layer weight).ne1 = 1 := m.vector_rows layer hlayer weight hweight
  have hb : (m.tensor layer bias).ne1 = 1 := m.vector_rows layer hlayer bias hbias
  rw [layerNorm, row_add, row_mul, row_mapRows, hw, hb, Nat.mod_one, Nat.zero_mod, Nat.zero_mod]
  rfl

include hlayer in
theorem row_linear (hbias : bias ∈ vectors) :
    (linear m layer weight bias t).row j 0 = linearRow m layer weight bias (t.row j 0) := by
  have hb : (m.tensor layer bias).ne1 = 1 := m.vector_rows layer hlayer bias hbias
  rw [linear, row_add, row_mulMat, hb, Nat.mod_one, Nat.zero_mod]
  rfl

/-- The row of the residual stream. -/
theorem row_residual (s : Tensor E) {j : ℕ} (hj : j < s.ne1) :
    (Tensor.add t s).row j 0 = zipRow (· + ·) (t.row j 0) (s.row j 0) := by
  rw [row_add, Nat.mod_eq_of_lt hj, Nat.zero_mod]

end

/-! ### Heads -/

theorem row_heads (qcur : Tensor E) (hq : qcur.ne0 = m.nState) {j h : ℕ} (hj : j < qcur.ne1) (hh : h < m.nHeads) :
    (heads m qcur).row j h = head m h (qcur.row j 0) := by
  refine List.map_congr_left fun d hd => ?_
  have hc := channel_lt (List.mem_range.mp hd) hh
  have hplace : d + m.headDim * (h + m.nHeads * j) = d + m.headDim * h + qcur.ne0 * (j + qcur.ne1 * 0) := by
    rw [hq, ← m.headDim_mul]
    ring
  show qcur.element (d + m.headDim * (h + m.nHeads * j)) = _
  rw [hplace, qcur.element_eq (hq ▸ hc) hj, getD_row _ (hq ▸ hc)]

omit [Semiring E] in
/-- Heads one after the other are a row again. -/
theorem row_reshape_heads (t : Tensor E) (hne0 : t.ne0 = m.headDim) (hne1 : t.ne1 = m.nHeads) (n j : ℕ) :
    (t.reshape m.nState n 1).row j 0 = (List.range m.nState).map fun c => t.get (c % m.headDim) (c / m.headDim) j := by
  refine List.map_congr_left fun c hc => ?_
  have hlt := List.mem_range.mp hc
  have hplace : c + m.nState * (j + n * 0) = c % m.headDim + t.ne0 * (c / m.headDim + t.ne1 * j) := by
    rw [hne0, hne1, Nat.mul_zero, Nat.add_zero, channel_eq]
  have hd : c % m.headDim < t.ne0 := hne0.symm ▸ Nat.mod_lt _ (headDim_pos hlt)
  show t.element (c + m.nState * (j + n * 0)) = _
  rw [hplace, t.element_eq hd (hne1.symm ▸ head_lt hlt)]

/-! ### Attention -/

theorem dot_map (l : List ℕ) (f g : ℕ → E) : dot (l.map f) (l.map g) = (l.map fun i => f i * g i).sum := by
  rw [dot, List.zipWith_map, List.zipWith_self]

theorem sum_range_of_zero {f : ℕ → E} {n N : ℕ} (hn : n ≤ N) (h : ∀ i, n ≤ i → f i = 0) :
    ((List.range N).map f).sum = ((List.range n).map f).sum := by
  obtain ⟨d, rfl⟩ := Nat.exists_eq_add_of_le hn
  have hrest : ((List.range d).map fun i => f (n + i)).sum = 0 := List.sum_eq_zero (by simp [h])
  rw [List.range_add, List.map_append, List.sum_append, List.map_map]
  exact (congrArg _ hrest).trans (add_zero _)

/-- What the keys and the values of a call show of a position. -/
def shown (flash : Bool) (m : NativeModel E) (key value : Tensor E) (i : ℕ) : KeyValue E :=
  ((List.range m.nState).map fun c => key.get (c % m.headDim) i (c / m.headDim),
    (List.range m.nState).map fun c =>
      if flash then value.get (c % m.headDim) i (c / m.headDim) else value.get i (c % m.headDim) (c / m.headDim))

/-- The extents of the keys and the values of a call. -/
structure Extents (flash : Bool) (m : NativeModel E) (key value : Tensor E) (nKv : ℕ) : Prop where
  key_ne0 : key.ne0 = m.headDim
  key_ne1 : key.ne1 = nKv
  key_ne2 : key.ne2 = m.nHeads
  value_ne0 : value.ne0 = if flash then m.headDim else nKv
  value_ne1 : value.ne1 = if flash then nKv else m.headDim
  value_ne2 : value.ne2 = m.nHeads

theorem head_shown_key {key value : Tensor E} (flash : Bool) (hkey : key.ne0 = m.headDim) {h : ℕ} (hh : h < m.nHeads) (i : ℕ) :
    head m h (shown flash m key value i).1 = key.row i h := by
  rw [row, hkey]
  refine List.map_congr_left fun d hd => ?_
  have hlt := List.mem_range.mp hd
  rw [shown, List.getD_eq_getElem _ _ (by simpa using channel_lt hlt hh), List.getElem_map, List.getElem_range,
    Nat.add_mul_mod_self_left, Nat.mod_eq_of_lt hlt, Nat.add_mul_div_left _ _ (Nat.zero_lt_of_lt hlt),
    Nat.div_eq_of_lt hlt, zero_add]

theorem head_shown_value {key value : Tensor E} (hvalue : value.ne0 = m.headDim) {h : ℕ} (hh : h < m.nHeads) (i : ℕ) :
    head m h (shown true m key value i).2 = value.row i h := by
  rw [row, hvalue]
  refine List.map_congr_left fun d hd => ?_
  have hlt := List.mem_range.mp hd
  rw [shown, List.getD_eq_getElem _ _ (by simpa using channel_lt hlt hh), List.getElem_map, List.getElem_range,
    if_pos rfl, Nat.add_mul_mod_self_left, Nat.mod_eq_of_lt hlt, Nat.add_mul_div_left _ _ (Nat.zero_lt_of_lt hlt),
    Nat.div_eq_of_lt hlt, zero_add]

theorem getD_shown_value (key value : Tensor E) {c : ℕ} (hc : c < m.nState) (i : ℕ) :
    (shown false m key value i).2.getD c 0 = value.get i (c % m.headDim) (c / m.headDim) := by
  rw [shown, List.getD_eq_getElem _ _ (by simpa using hc), List.getElem_map, List.getElem_range,
    if_neg Bool.false_ne_true]

section
variable {qcur key value : Tensor E} {visible : ℕ → ℕ → Bool} {nKv n j : ℕ} (hq : qcur.ne0 = m.nState) (hj : j < qcur.ne1)
  (hseen : (List.range nKv).filter (visible · j) = List.range n)
include hq hj hseen

theorem row_attendFlash (h : Extents true m key value nKv) (scale : E) :
    (attendFlash m qcur key value visible scale).row j 0 = (List.range m.nState).map
      (flashChannel m scale (qcur.row j 0) ((List.range n).map (shown true m key value))) := by
  have hne0 : (flashAttnExt m.flashAttn (heads m qcur) key value visible scale).ne0 = m.headDim :=
    h.value_ne0.trans (if_pos rfl)
  refine (row_reshape_heads _ hne0 rfl _ j).trans (List.map_congr_left fun c hc => ?_)
  have hh := head_lt (List.mem_range.mp hc)
  have hvalue := h.value_ne0.trans (if_pos rfl)
  simp only [flashAttnExt, flashChannel, h.key_ne1, hseen, List.map_map, row_heads qcur hq hj hh]
  congr 2
  exact List.map_congr_left fun i _ => by
    rw [Function.comp_apply, head_shown_key true h.key_ne0 hh, head_shown_value hvalue hh]

omit hq hj in
/-- The weight of a key that is not masked. -/
theorem get_softMaxExt (softMax : List E → List E) (scores : Tensor E) (hscores : scores.ne0 = nKv) (scale : E) (k : ℕ)
    (i : ℕ) : (softMaxExt softMax scores visible scale).get i j k =
      if i < n then (softMax ((List.range n).map fun i => scale * scores.get i j k)).getD i 0 else 0 := by
  simp only [softMaxExt, hscores, hseen]
  by_cases hi : i < n
  · have hidx : (List.range n).idxOf i = i := by
      have := List.nodup_range.idxOf_getElem i (show i < (List.range n).length by simpa using hi)
      rwa [List.getElem_range] at this
    rw [if_pos hi, if_pos (List.mem_range.mpr hi), hidx]
  · rw [if_neg hi, if_neg fun hmem => hi (List.mem_range.mp hmem)]

theorem row_attendPlain (h : Extents false m key value nKv) (scale : E) :
    (attendPlain m qcur key value visible scale).row j 0 = (List.range m.nState).map
      (plainChannel m scale (qcur.row j 0) ((List.range n).map (shown false m key value))) := by
  have hn : n ≤ nKv := by
    have := List.length_filter_le (visible · j) (List.range nKv)
    rwa [hseen, List.length_range, List.length_range] at this
  refine (row_reshape_heads _ (h.value_ne1.trans (if_neg Bool.false_ne_true)) rfl _ j).trans
    (List.map_congr_left fun c hc => ?_)
  have hlt := List.mem_range.mp hc
  have hh := head_lt hlt
  have hvalue : value.ne0 = nKv := h.value_ne0.trans (if_neg Bool.false_ne_true)
  have hplane : c / m.headDim / (m.nHeads / m.nHeads) = c / m.headDim := by rw [Nat.div_self m.heads_pos, Nat.div_one]
  -- the scores of a head, then the sum without the masked keys
  have hscore : ∀ i, (Tensor.mulMat key (heads m qcur)).get i j (c / m.headDim) =
      dot (head m (c / m.headDim) (shown false m key value i).1) (head m (c / m.headDim) (qcur.row j 0)) := by
    intro i
    show dot (key.row i (c / m.headDim / (m.nHeads / key.ne2))) ((heads m qcur).row j (c / m.headDim)) = _
    rw [h.key_ne2, hplane, row_heads qcur hq hj hh, head_shown_key false h.key_ne0 hh]
  have hweight := get_softMaxExt hseen m.softMax (Tensor.mulMat key (heads m qcur)) h.key_ne1 scale (c / m.headDim)
  simp only [hscore] at hweight
  calc dot (value.row (c % m.headDim) (c / m.headDim / (m.nHeads / value.ne2)))
        ((softMaxExt m.softMax (Tensor.mulMat key (heads m qcur)) visible scale).row j (c / m.headDim))
      = ((List.range nKv).map fun i => value.get i (c % m.headDim) (c / m.headDim) *
          (softMaxExt m.softMax (Tensor.mulMat key (heads m qcur)) visible scale).get i j (c / m.headDim)).sum := by
        rw [h.value_ne2, hplane, row, hvalue, ← dot_map]
        exact congrArg _ (congrArg (List.map _) (congrArg List.range h.key_ne1))
    _ = ((List.range n).map fun i => value.get i (c % m.headDim) (c / m.headDim) *
          (softMaxExt m.softMax (Tensor.mulMat key (heads m qcur)) visible scale).get i j (c / m.headDim)).sum :=
        sum_range_of_zero hn fun i hi => by rw [hweight, if_neg (Nat.not_lt_of_le hi), mul_zero]
    _ = plainChannel m scale (qcur.row j 0) ((List.range n).map (shown false m key value)) c := by
        simp only [plainChannel, List.length_map, List.length_range, List.map_map]
        refine congrArg List.sum (List.map_congr_left fun i hi => ?_)
        have hin := List.mem_range.mp hi
        have hkv : ((List.range n).map (shown false m key value)).getD i ([], []) = shown false m key value i := by
          simp [hin]
        rw [hweight, if_pos hin, hkv, getD_shown_value key value hlt]
        rfl

end

/-- Attention of a query. -/
def attendRow (flash : Bool) (m : NativeModel E) (scale : E) (q : List E) (kvs : List (KeyValue E)) : List E :=
  (List.range m.nState).map (if flash then flashChannel m scale q kvs else plainChannel m scale q kvs)

variable (self : Decoder m)

@[simp] theorem ne1_attend (qcur key value : Tensor E) (visible : ℕ → ℕ → Bool) (scale : E) :
    (self.attend qcur key value visible scale).ne1 = qcur.ne1 := by
  rw [attend]
  split <;> rfl

theorem ne1_selfAttention (layer position nKv : ℕ) (mask : ℕ → ℕ → Bool) (t : Tensor E) :
    (self.selfAttention layer position nKv mask t).2.ne1 = t.ne1 := ne1_attend _ _ _ _ _ _

theorem ne1_crossAttention (layer : ℕ) (t : Tensor E) : (self.crossAttention layer t).ne1 = t.ne1 :=
  ne1_attend _ _ _ _ _ _

theorem row_attend {qcur key value : Tensor E} {visible : ℕ → ℕ → Bool} {nKv n j : ℕ} (hq : qcur.ne0 = m.nState)
    (hj : j < qcur.ne1) (hseen : (List.range nKv).filter (visible · j) = List.range n)
    (h : Extents self.flashAttention m key value nKv) (scale : E) :
    (self.attend qcur key value visible scale).row j 0 = attendRow self.flashAttention m scale (qcur.row j 0)
      ((List.range n).map (shown self.flashAttention m key value)) := by
  rw [attend]
  cases hflash : self.flashAttention with
  | true => exact row_attendFlash hq hj hseen (hflash ▸ h) scale
  | false => exact row_attendPlain hq hj hseen (hflash ▸ h) scale

/-! ### The parts of a layer -/

/-- The query of a row. -/
def queryRow (m : NativeModel E) (layer : ℕ) (x : List E) : List E :=
  (linearRow m layer "attn.query.weight" "attn.query.bias" (normRow m layer "attn_ln.weight" "attn_ln.bias" x)).map
    (m.headScale m.headDim * ·)

/-- What a layer keeps of a row. -/
def keepRow (m : NativeModel E) (layer : ℕ) (x : List E) : KeyValue E :=
  let cur := normRow m layer "attn_ln.weight" "attn_ln.bias" x
  (((project (m.tensor layer "attn.key.weight") cur).map (m.headScale m.headDim * ·)).map m.half,
    (linearRow m layer "attn.value.weight" "attn.value.bias" cur).map m.half)

/-- The self attention of a row. -/
def selfRow (layer : ℕ) (x : List E) (kvs : List (KeyValue E)) : List E :=
  zipRow (· + ·) (linearRow m layer "attn.out.weight" "attn.out.bias"
    (attendRow self.flashAttention m 1 (queryRow m layer x) kvs)) x

/-- The values that `crossAttention` reads. -/
def crossValues (layer : ℕ) : View := if self.flashAttention then self.crossValue layer else crossTransposed m layer

/-- What `cross_k` and `cross_v` show. -/
def crossShown (layer : ℕ) : List (KeyValue E) :=
  (List.range self.crossKv).map (shown self.flashAttention m ((self.crossKey layer).read self.crossK)
    ((self.crossValues layer).read self.crossV))

/-- The cross attention of a row. -/
def crossRow (layer : ℕ) (x : List E) : List E :=
  let q := linearRow m layer "cross_attn.query.weight" "cross_attn.query.bias"
    (normRow m layer "cross_attn_ln.weight" "cross_attn_ln.bias" x)
  zipRow (· + ·) (linearRow m layer "cross_attn.out.weight" "cross_attn.out.bias"
    (attendRow self.flashAttention m (m.headScale m.headDim) q (self.crossShown layer))) x

/-- The last part of a layer, for a row. -/
def feedRow (m : NativeModel E) (layer : ℕ) (x : List E) : List E :=
  let cur := normRow m layer "mlp_ln.weight" "mlp_ln.bias" x
  let cur := (linearRow m layer "mlp.0.weight" "mlp.0.bias" cur).map m.gelu
  zipRow (· + ·) (linearRow m layer "mlp.2.weight" "mlp.2.bias" cur) x

omit [Semiring E] in
theorem crossExtents (layer : ℕ) : Extents self.flashAttention m ((self.crossKey layer).read self.crossK)
    ((self.crossValues layer).read self.crossV) self.crossKv := by
  rw [crossValues, crossKv]
  cases hflash : self.flashAttention <;> constructor <;>
    simp [View.read, crossKey, crossValue, crossTransposed, view3d, crossKv, hflash]

section
variable {layer : ℕ} (hlayer : layer < m.nLayers) (t : Tensor E) {j : ℕ} (hj : j < t.ne1)
include hlayer

theorem row_query (j : ℕ) :
    ((linear m layer "attn.query.weight" "attn.query.bias"
      (layerNorm m layer "attn_ln.weight" "attn_ln.bias" t)).scale (m.headScale m.headDim)).row j 0 =
      queryRow m layer (t.row j 0) := by
  rw [row_scale, row_linear hlayer _ _ (by decide), row_layerNorm hlayer _ _ (by decide) (by decide)]
  rfl

include hj

theorem row_crossAttention : (self.crossAttention layer t).row j 0 = self.crossRow layer (t.row j 0) := by
  have hq : (linear m layer "cross_attn.query.weight" "cross_attn.query.bias"
      (layerNorm m layer "cross_attn_ln.weight" "cross_attn_ln.bias" t)).ne0 = m.nState :=
    m.matrix_rows layer hlayer _ (by decide)
  have hseen : (List.range self.crossKv).filter (fun _ => true) = List.range self.crossKv := List.filter_true _
  rw [crossAttention, row_residual _ _ hj, row_linear hlayer _ _ (by decide)]
  refine congrArg (fun x => zipRow _ (linearRow m layer _ _ x) _) ?_
  refine (self.row_attend hq hj hseen (self.crossExtents layer) _).trans ?_
  rw [row_linear hlayer _ _ (by decide), row_layerNorm hlayer _ _ (by decide) (by decide)]
  rfl

theorem row_feedForward : (feedForward m layer t).row j 0 = feedRow m layer (t.row j 0) := by
  rw [feedForward, row_residual _ _ hj, row_linear hlayer _ _ (by decide), row_map, row_linear hlayer _ _ (by decide),
    row_layerNorm hlayer _ _ (by decide) (by decide)]
  rfl

end

end Decoder

end Whisper

end FortAI
