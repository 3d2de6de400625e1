import FortAI.Machine.Lanes
import FortAI.Machine.Softmax
import FortAI.Qwen35.KeyValue

/-!
# Attention over the cache

The two ways to attend to the positions of a cache: `scalar_attention` takes three turns over the scores,
`fortai_flash_attention_f16` one turn over the rows.  Numbers are exact, and a number in half precision is
the number; default integers are not, so indices beyond the largest one have no result.  Arrays of the model
are indexed from 1, those of `fortai_q8_dot.c` from 0.

* `flash_eq` : the one turn leaves the weighted mean of the rows.
* `scalarAttention_eq`, `scalarAttention_none` : so do the three turns, if no index overflows.
* `attention_iff` : when the two agree.
-/

namespace FortAI

namespace Qwen35

namespace Attention

open KeyValue (huge Rows Cache Turn)

/-! ### The code -/

/-- What the loader has accepted; `k_work` and `v_work` are as large as the products. -/
structure Sizes where
  headSize : ℕ
  valueLength : ℕ
  headsKv : ℕ
  maxContext : ℕ
  headSize_pos : 0 < headSize
  headsKv_pos : 0 < headsKv
  keys_le : headsKv * headSize ≤ huge
  values_le : headsKv * valueLength ≤ huge

variable {R : Type} [Field R]

/-- The cached keys or values of a layer, in rows of so many cells. -/
inductive Storage (R : Type) (heads width context : ℕ)
  | plain (cells : ℕ → R)
  | quantized (dvd_width : 32 ∣ width) (cache : Cache)

namespace Storage

variable {heads width context : ℕ}

/-- `dequantize_attention_cache` if the cache is quantized. -/
def unpack (heads_pos : 0 < heads) (c : Storage R heads width context) (kvHead position : ℕ) (work : ℕ → ℚ) :
    Option (ℕ → ℚ) :=
  match c with
  | plain _ => some work
  | quantized dvd_width cache =>
    -- rows without cells have no blocks
    if h : 0 < width then KeyValue.dequantize ⟨heads, width, context, heads_pos, h, dvd_width⟩ cache kvHead position work
    else some work

/-- An element as `scalar_attention` finds it.  What has been dequantized had larger indices before. -/
def element (c : Storage R heads width context) (work : ℕ → ℚ) (kvHead currentPosition j : ℕ) : Option R :=
  match c with
  | plain cells =>
    let index := currentPosition * width * heads + kvHead * width + j
    if index ≤ huge then some (cells index) else none
  | quantized .. => some (work (currentPosition * width + j) : R)

/-- The rows as `fortai_flash_attention_f16` gets them. -/
def pointer (c : Storage R heads width context) (work : ℕ → ℚ) (kvHead : ℕ) : ℕ → R :=
  match c with
  | plain cells => fun i => cells (kvHead * width + 1 + i)
  | quantized .. => fun i => (work (1 + i) : R)

/-- `key_stride`, `value_stride` -/
def stride (c : Storage R heads width context) : ℕ :=
  match c with
  | plain _ => width * heads
  | quantized .. => width

end Storage

section

variable (avx2 : Bool)

def floatsToHalf (input : ℕ → R) (count : ℕ) : ℕ → R :=
  if avx2 then Lanes.mapEight 0 (fun i _ => input i) count fun _ => 0
  else Lanes.mapScalar 0 (fun i _ => input i) count fun _ => 0

def dotF16 (left right : ℕ → R) (count : ℕ) : R :=
  if avx2 then Lanes.sumAvx2 (fun i => left i * right i) count else Lanes.sumScalar (fun i => left i * right i) count

def scaleF16 (values : ℕ → R) (count : ℕ) (factor : R) : ℕ → R :=
  if avx2 then Lanes.mapAvx2 0 (fun _ v => v * factor) count values
  else Lanes.mapScalar 0 (fun _ v => v * factor) count values

def madF16 (output input : ℕ → R) (count : ℕ) (factor : R) : ℕ → R :=
  if avx2 then Lanes.mapAvx2 0 (fun i v => input i * factor + v) count output
  else Lanes.mapScalar 0 (fun i v => v + input i * factor) count output

/-- The arguments of `fortai_flash_attention_f16`. -/
structure Flash (R : Type) where
  query : ℕ → R
  keyCache : ℕ → R
  valueCache : ℕ → R
  count : ℕ
  keyStride : ℕ
  valueStride : ℕ
  keySize : ℕ
  valueSize : ℕ
  scale : R

/-- Its variables; `none` is `-INFINITY`. -/
structure Running (R : Type) where
  maximum : Option R
  sum : R
  accumulator : ℕ → R

/-- A row whose score is larger than the maximum. -/
def Running.raise (s : Running R) (valueSize : ℕ) (score maximumScale : R) (value : ℕ → R) : Running R where
  maximum := some score
  sum := s.sum * maximumScale + 1
  accumulator := madF16 avx2 (scaleF16 avx2 s.accumulator valueSize maximumScale) value valueSize 1

/-- A row whose score is not. -/
def Running.keep (s : Running R) (valueSize : ℕ) (maximum valueScale : R) (value : ℕ → R) : Running R where
  maximum := some maximum
  sum := s.sum * 1 + valueScale
  accumulator := madF16 avx2 s.accumulator value valueSize valueScale

variable [LinearOrder R] (exp : R → R)

def Running.absorb (s : Running R) (valueSize : ℕ) (score : R) (value : ℕ → R) : Running R :=
  match s.maximum with
  | some m =>
    if score > m then s.raise avx2 valueSize score (exp (m - score)) value
    else s.keep avx2 valueSize m (exp (score - m)) value
  | none => s.raise avx2 valueSize score 0 value

/-- One row of the cache. -/
def flashTurn (a : Flash R) (queryF16 : ℕ → R) (s : Running R) (cacheIndex : ℕ) : Running R :=
  let keyF16 := floatsToHalf avx2 (fun i => a.keyCache (cacheIndex * a.keyStride + i)) a.keySize
  let score := dotF16 avx2 keyF16 queryF16 a.keySize * a.scale
  let valueF16 := floatsToHalf avx2 (fun i => a.valueCache (cacheIndex * a.valueStride + i)) a.valueSize
  s.absorb avx2 exp a.valueSize score valueF16

/-- `fortai_flash_attention_f16`, with the output at this index. -/
def fortaiFlashAttentionF16 (a : Flash R) (first : ℕ) (output : ℕ → R) : ℕ → R :=
  if a.count ≤ 0 ∨ a.keyStride < a.keySize ∨ a.valueStride < a.valueSize ∨ a.keySize ≤ 0 ∨ a.valueSize ≤ 0 then output
  else
    let queryF16 := floatsToHalf avx2 a.query a.keySize
    let s := (List.range a.count).foldl (flashTurn avx2 exp a queryF16) ⟨none, 0, fun _ => 0⟩
    let inverseSum := if s.sum = 0 then 0 else 1 / s.sum
    Lanes.mapScalar first (fun i _ => s.accumulator i * inverseSum) a.valueSize output

end

/-- The caches of a layer. -/
structure Layer (R : Type) (p : Sizes) where
  keys : Storage R p.headsKv p.headSize p.maxContext
  values : Storage R p.headsKv p.valueLength p.maxContext

/-- The arguments of `run_attention`. -/
structure Call (p : Sizes) where
  kvHead : ℕ
  position : ℕ
  qOffset : ℕ
  vOffset : ℕ
  kvHead_lt : kvHead < p.headsKv
  position_lt : position < p.maxContext

/-- The work arrays. -/
structure Work (R : Type) where
  qWork : ℕ → R
  attentionKeyWork : ℕ → ℚ
  attentionValueWork : ℕ → ℚ
  scores : ℕ → R
  attentionWork : ℕ → R

section

variable [LinearOrder R] (exp sqrt : R → R) (avx2 : Bool) {p : Sizes} (layer : Layer R p) (call : Call p) (w : Work R)

/-- The product of the query with the key of a position. -/
def dotKey (keyWork : ℕ → ℚ) (currentPosition : ℕ) : Option R :=
  (List.range' 1 p.headSize).foldlM (fun dot j => do
    let key ← layer.keys.element keyWork call.kvHead currentPosition j
    some (dot + w.qWork (call.qOffset + j) * key)) 0

/-- A turn of the first loop, on the scores and the maximum. -/
def scoreTurn (keyWork : ℕ → ℚ) (scale : R) (s : (ℕ → R) × R) (currentPosition : ℕ) : Option ((ℕ → R) × R) := do
  let dot ← dotKey layer call w keyWork currentPosition
  let score := dot * scale
  some (Function.update s.1 (currentPosition + 1) score, if s.2 < score then score else s.2)

/-- A turn of the second loop, on the scores and the normalizer. -/
def weightTurn (maximum : R) (s : (ℕ → R) × R) (currentPosition : ℕ) : (ℕ → R) × R :=
  let e := exp (s.1 (currentPosition + 1) - maximum)
  (Function.update s.1 (currentPosition + 1) e, s.2 + e)

/-- A turn of the third loop, on the output. -/
def valueTurn (valueWork : ℕ → ℚ) (scores : ℕ → R) (normalizer : R) (attentionWork : ℕ → R) (currentPosition : ℕ) :
    Option (ℕ → R) :=
  let weight := scores (currentPosition + 1) / normalizer
  (List.range' 1 p.valueLength).foldlM (fun attentionWork i => do
    let value ← layer.values.element valueWork call.kvHead currentPosition i
    some (Function.update attentionWork (call.vOffset + i) (attentionWork (call.vOffset + i) + weight * value)))
    attentionWork

/-- `-huge(0.0_real32)` -/
def lowest : R := -340282346638528859811704183484516925440

def scalarAttention (scale : R) : Option (ℕ → R) := do
  let keyWork ← layer.keys.unpack p.headsKv_pos call.kvHead call.position w.attentionKeyWork
  let valueWork ← layer.values.unpack p.headsKv_pos call.kvHead call.position w.attentionValueWork
  let scored ← (List.range (call.position + 1)).foldlM (scoreTurn layer call w keyWork scale) (w.scores, lowest)
  let weighted := (List.range (call.position + 1)).foldl (weightTurn exp scored.2) (scored.1, 0)
  let attentionWork := Lanes.mapScalar (call.vOffset + 1) (fun _ _ => 0) p.valueLength w.attentionWork
  if weighted.2 ≤ 0 then some attentionWork
  else (List.range (call.position + 1)).foldlM (valueTurn layer call valueWork weighted.1 weighted.2) attentionWork

def runAttention (flashAttentionEnabled : Bool) : Option (ℕ → R) := do
  let attentionScale := 1 / sqrt p.headSize
  if !flashAttentionEnabled then scalarAttention exp layer call w attentionScale
  else
    let keyWork ← layer.keys.unpack p.headsKv_pos call.kvHead call.position w.attentionKeyWork
    let valueWork ← layer.values.unpack p.headsKv_pos call.kvHead call.position w.attentionValueWork
    some (fortaiFlashAttentionF16 avx2 exp
      { query := fun i => w.qWork (call.qOffset + 1 + i)
        keyCache := layer.keys.pointer keyWork call.kvHead
        valueCache := layer.values.pointer valueWork call.kvHead
        count := call.position + 1
        keyStride := layer.keys.stride
        valueStride := layer.values.stride
        keySize := p.headSize
        valueSize := p.valueLength
        scale := attentionScale } (call.vOffset + 1) w.attentionWork)

end

/-! ### The rows of a head -/

namespace Storage

variable {heads width context : ℕ} (c : Storage R heads width context) (kvHead position : ℕ)

/-- An element of the row of a head, counted from 1. -/
def row (currentPosition j : ℕ) : R :=
  match c with
  | plain cells => cells (currentPosition * width * heads + kvHead * width + j)
  | quantized _ cache =>
    let front := currentPosition * heads + kvHead
    let blocks := (width + 31) / 32
    ((cache.scales (front * blocks + (j - 1) / 32 + 1) *
      (cache.bytes (front * (width + 2 * blocks) + 2 + (j - 1) / 32 * 34 + ((j - 1) % 32 + 1))).toInt : ℚ) : R)

/-- What a row takes up. -/
def rowLength : ℕ :=
  match c with
  | plain _ => width
  | quantized .. => width + 2 * ((width + 31) / 32)

/-- No index overflows up to the end of the row of a position. -/
def Fits : Prop := (position * heads + kvHead + 1) * c.rowLength ≤ huge

instance : Decidable (c.Fits kvHead position) := inferInstanceAs (Decidable (_ ≤ _))

variable {c kvHead position}

/-- The rows are unpacked where they should be, if they fit. -/
theorem unpack_eq_some (heads_pos : 0 < heads) (hkvHead : kvHead < heads) (hposition : position < context)
    {work work' : ℕ → ℚ} (h : c.unpack heads_pos kvHead position work = some work') {currentPosition i : ℕ}
    (hcurrent : currentPosition ≤ position) (hi : i < width) :
    c.pointer work' kvHead (currentPosition * c.stride + i) = c.row kvHead currentPosition (i + 1) := by
  cases c with
  | plain cells =>
    have hindex : kvHead * width + 1 + (currentPosition * (width * heads) + i) =
        currentPosition * width * heads + kvHead * width + (i + 1) := by
      rw [Nat.mul_assoc]
      omega
    exact congrArg cells hindex
  | quantized dvd_width cache =>
    have hwidth : 0 < width := Nat.zero_lt_of_lt hi
    classical
    rw [unpack, dif_pos hwidth, KeyValue.dequantize_eq cache work hposition hkvHead] at h
    split_ifs at h
    obtain rfl := Option.some.inj h
    have hwrites := @KeyValue.writes_turns ⟨heads, width, context, heads_pos, hwidth, dvd_width⟩ _ kvHead
      cache work _ _ hcurrent (Nat.succ_pos i) hi
    have hindex : 1 + (currentPosition * width + i) = currentPosition * width + (i + 1) := by omega
    simp only [pointer, stride, hindex]
    exact congrArg Rat.cast hwrites

omit [Field R] in
theorem unpack_of_fits (heads_pos : 0 < heads) (hkvHead : kvHead < heads) (hposition : position < context)
    (hfits : c.Fits kvHead position) (work : ℕ → ℚ) : ∃ work', c.unpack heads_pos kvHead position work = some work' := by
  cases c with
  | plain cells => exact ⟨work, rfl⟩
  | quantized dvd_width cache =>
    classical
    rw [unpack]
    split_ifs with hwidth
    · rw [KeyValue.dequantize_eq cache work hposition hkvHead]
      exact ⟨_, if_pos hfits⟩
    · exact ⟨work, rfl⟩

omit [Field R] in
theorem width_le_stride (c : Storage R heads width context) (heads_pos : 0 < heads) : width ≤ c.stride := by
  cases c with
  | plain cells => exact Nat.le_mul_of_pos_right width heads_pos
  | quantized dvd_width cache => exact le_rfl

/-- A row of the plain path is the row of the other one. -/
theorem element_of_fits (hfits : c.Fits kvHead position) (work : ℕ → ℚ) {currentPosition i : ℕ}
    (hcurrent : currentPosition ≤ position) (hi : i < width) :
    c.element work kvHead currentPosition (i + 1) = some (c.pointer work kvHead (currentPosition * c.stride + i)) := by
  cases c with
  | plain cells =>
    have hrow : (currentPosition * heads + kvHead + 1) * width ≤ huge :=
      (Nat.mul_le_mul_right _ (Nat.succ_le_succ (Nat.add_le_add_right (Nat.mul_le_mul_right _ hcurrent) _))).trans hfits
    rw [Nat.add_mul, Nat.add_mul, Nat.one_mul, Nat.mul_right_comm] at hrow
    have hindex : kvHead * width + 1 + (currentPosition * (width * heads) + i) =
        currentPosition * width * heads + kvHead * width + (i + 1) := by
      rw [Nat.mul_assoc]
      omega
    simp only [element, pointer, stride, hindex]
    exact if_pos (by omega)
  | quantized dvd_width cache =>
    have hindex : 1 + (currentPosition * width + i) = currentPosition * width + (i + 1) := by omega
    simp only [element, pointer, stride, hindex]

/-- A row that does not fit is not unpacked, or its last element is not found. -/
theorem none_of_not_fits (heads_pos : 0 < heads) (hkvHead : kvHead < heads) (hposition : position < context)
    (hfits : ¬ c.Fits kvHead position) (work : ℕ → ℚ) :
    0 < width ∧ (c.unpack heads_pos kvHead position work = none ∨
      c.unpack heads_pos kvHead position work = some work ∧
        ∀ work', c.element work' kvHead position width = none) := by
  have hwidth : 0 < width := Nat.pos_of_ne_zero fun hzero => hfits <| by
    subst hzero
    cases c <;> exact Nat.zero_le _
  refine ⟨hwidth, ?_⟩
  cases c with
  | plain cells =>
    rw [Fits, rowLength, Nat.add_mul, Nat.add_mul, Nat.one_mul, Nat.mul_right_comm] at hfits
    exact .inr ⟨rfl, fun work' => if_neg hfits⟩
  | quantized dvd_width cache =>
    classical
    refine .inl ?_
    rw [unpack, dif_pos hwidth, KeyValue.dequantize_eq cache work hposition hkvHead]
    exact if_neg hfits

end Storage

/-! ### One turn over the rows -/

section

variable (avx2 : Bool) {count i : ℕ}

theorem floatsToHalf_apply (input : ℕ → R) (hi : i < count) : floatsToHalf avx2 input count i = input i := by
  have hmapped := Lanes.mapped_apply 0 (fun i _ => input i) hi fun _ => 0
  rw [Nat.zero_add] at hmapped
  rw [floatsToHalf, Lanes.mapEight_eq, Lanes.mapScalar_eq, ite_self, hmapped]

theorem dotF16_eq (left right : ℕ → R) (count : ℕ) :
    dotF16 avx2 left right count = ∑ i ∈ Finset.range count, left i * right i := by
  rw [dotF16, Lanes.sumAvx2_eq, Lanes.sumScalar_eq, ite_self]

theorem scaleF16_apply (values : ℕ → R) (factor : R) (hi : i < count) :
    scaleF16 avx2 values count factor i = values i * factor := by
  have hmapped := Lanes.mapped_apply 0 (fun _ v => v * factor) hi values
  rw [Nat.zero_add] at hmapped
  rw [scaleF16, Lanes.mapAvx2_eq, Lanes.mapScalar_eq, ite_self, hmapped]

theorem madF16_apply (output input : ℕ → R) (factor : R) (hi : i < count) :
    madF16 avx2 output input count factor i = output i + input i * factor := by
  have hmapped := Lanes.mapped_apply 0 (fun i v => v + input i * factor) hi output
  have hfused : (fun i v => input i * factor + v) = fun i v => v + input i * factor := by
    funext i v
    exact add_comm _ _
  rw [Nat.zero_add] at hmapped
  rw [madF16, hfused, Lanes.mapAvx2_eq, Lanes.mapScalar_eq, ite_self, hmapped]

/-- The score of a row. -/
def Flash.score (a : Flash R) (c : ℕ) : R :=
  (∑ i ∈ Finset.range a.keySize, a.keyCache (c * a.keyStride + i) * a.query i) * a.scale

def Flash.value (a : Flash R) (i c : ℕ) : R := a.valueCache (c * a.valueStride + i)

end

open Softmax (Partial mean)

variable (avx2 : Bool) (a : Flash ℝ)

/-- What the variables are after some rows. -/
structure Seen (n : ℕ) (s : Running ℝ) : Prop where
  sum : Partial a.score 1 n s.maximum s.sum
  cell : ∀ i < a.valueSize, Partial a.score (a.value i) n s.maximum (s.accumulator i)
  maximum : s.maximum = none → n = 0

variable {avx2 a} {n : ℕ} {s : Running ℝ}

theorem Seen.raise (h : Seen a n s) {value : ℕ → ℝ} (hvalue : ∀ i < a.valueSize, value i = a.value i n) :
    Seen a (n + 1) (s.raise avx2 a.valueSize (a.score n) (Softmax.rescale Real.exp s.maximum (a.score n)) value) where
  sum := h.sum.raise
  cell i hi := by
    have hcell := (h.cell i hi).raise
    simp only [Running.raise, madF16_apply _ _ _ _ hi, scaleF16_apply _ _ _ hi, hvalue i hi, mul_one]
    exact hcell
  maximum hnone := by cases hnone

theorem Seen.keep (h : Seen a n s) {m : ℝ} (hm : s.maximum = some m) {value : ℕ → ℝ}
    (hvalue : ∀ i < a.valueSize, value i = a.value i n) :
    Seen a (n + 1) (s.keep avx2 a.valueSize m (Real.exp (a.score n - m)) value) where
  sum := by
    have hsum := h.sum
    rw [hm] at hsum
    have hkeep := hsum.keep
    rw [Pi.one_apply, one_mul] at hkeep
    simp only [Running.keep, mul_one]
    exact hkeep
  cell i hi := by
    have hcell := h.cell i hi
    rw [hm] at hcell
    simp only [Running.keep, madF16_apply _ _ _ _ hi, hvalue i hi]
    exact hcell.keep
  maximum hnone := by cases hnone

theorem Seen.turn (h : Seen a n s) :
    Seen a (n + 1) (flashTurn avx2 Real.exp a (floatsToHalf avx2 a.query a.keySize) s n) := by
  have hvalue : ∀ i < a.valueSize,
      floatsToHalf avx2 (fun i => a.valueCache (n * a.valueStride + i)) a.valueSize i = a.value i n :=
    fun i hi => floatsToHalf_apply avx2 _ hi
  have hscore : dotF16 avx2 (floatsToHalf avx2 (fun i => a.keyCache (n * a.keyStride + i)) a.keySize)
      (floatsToHalf avx2 a.query a.keySize) a.keySize * a.scale = a.score n := by
    rw [dotF16_eq, Flash.score]
    congr 1
    refine Finset.sum_congr rfl fun i hi => ?_
    rw [floatsToHalf_apply avx2 _ (Finset.mem_range.mp hi), floatsToHalf_apply avx2 _ (Finset.mem_range.mp hi)]
  have hraise := @Seen.raise avx2 a n s h _ hvalue
  rw [flashTurn, hscore]
  unfold Running.absorb
  cases hm : s.maximum with
  | none =>
    rw [hm] at hraise
    exact hraise
  | some m =>
    rw [hm] at hraise
    dsimp only
    split_ifs
    · exact hraise
    · exact h.keep hm hvalue

theorem Seen.run (n : ℕ) : Seen a n
    ((List.range n).foldl (flashTurn avx2 Real.exp a (floatsToHalf avx2 a.query a.keySize)) ⟨none, 0, fun _ => 0⟩) := by
  induction n with
  | zero => exact ⟨Partial.zero _ _, fun i _ => Partial.zero _ _, fun _ => rfl⟩
  | succ n ih =>
    rw [List.range_succ, List.foldl_append]
    exact ih.turn

/-- One turn over the rows leaves their weighted mean. -/
theorem flash_eq (hcount : 0 < a.count) (hkey : a.keySize ≤ a.keyStride) (hvalue : a.valueSize ≤ a.valueStride)
    (hsize : 0 < a.keySize) (first : ℕ) (output : ℕ → ℝ) :
    fortaiFlashAttentionF16 avx2 Real.exp a first output =
      Lanes.mapped first (fun i _ => mean a.score (a.value i) a.count) a.valueSize output := by
  by_cases hempty : a.valueSize = 0
  · rw [fortaiFlashAttentionF16, if_pos (by simp only [hempty, le_refl, or_true])]
    funext x
    rw [Lanes.mapped, hempty, if_neg (by omega)]
  · obtain ⟨s, hs⟩ : ∃ s, s = (List.range a.count).foldl
        (flashTurn avx2 Real.exp a (floatsToHalf avx2 a.query a.keySize)) ⟨none, 0, fun _ => 0⟩ := ⟨_, rfl⟩
    have hseen : Seen a a.count s := hs ▸ Seen.run a.count
    rw [fortaiFlashAttentionF16, if_neg (by omega)]
    dsimp only
    rw [← hs, Lanes.mapScalar_eq]
    obtain ⟨m, hm⟩ := Option.ne_none_iff_exists'.mp fun hnone => hcount.ne' (hseen.maximum hnone)
    have hsum := hseen.sum
    have hcells := hseen.cell
    rw [hm] at hsum hcells
    have hpos : s.sum ≠ 0 := by
      rw [hsum.eq_total]
      exact (Softmax.total_one_pos hcount m).ne'
    funext x
    simp only [Lanes.mapped]
    -- the sum is not zero
    split_ifs with hx
    · rw [mul_one_div, (hcells (x - first) (by omega)).mean hsum]
    · rfl

/-! ### Three turns over the scores -/

section

variable {p : Sizes} {layer : Layer ℝ p} {call : Call p} {w : Work ℝ} {keyWork valueWork : ℕ → ℚ}

theorem dotKey_eq {key : ℕ → ℝ} {c : ℕ}
    (hkey : ∀ i < p.headSize, layer.keys.element keyWork call.kvHead c (i + 1) = some (key i)) :
    dotKey layer call w keyWork c =
      some (∑ i ∈ Finset.range p.headSize, key i * w.qWork (call.qOffset + 1 + i)) := by
  have hturns : ∀ j ∈ List.range' 1 p.headSize, ∀ dot,
      (do
        let key ← layer.keys.element keyWork call.kvHead c j
        some (dot + w.qWork (call.qOffset + j) * key)) =
        some (Lanes.sumOne (fun j => w.qWork (call.qOffset + j) * key (j - 1)) dot j) := by
    intro j hj dot
    obtain ⟨hone, hlt⟩ := List.mem_range'_1.mp hj
    have helement := hkey (j - 1) (by omega)
    rw [Nat.sub_add_cancel hone] at helement
    rw [helement]
    rfl
  rw [dotKey, Cells.foldlM_some hturns, Lanes.foldl_sumOne, zero_add]
  refine congrArg some (Finset.sum_congr rfl fun i _ => ?_)
  rw [Nat.add_sub_cancel_left, Nat.add_assoc, mul_comm]

/-- The first loop leaves the scores. -/
theorem scores_eq {score : ℕ → ℝ} {scale : ℝ} {n : ℕ}
    (hdot : ∀ c < n, ∃ dot, dotKey layer call w keyWork c = some dot ∧ dot * scale = score c) (s : (ℕ → ℝ) × ℝ) :
    ∃ maximum, (List.range n).foldlM (scoreTurn layer call w keyWork scale) s =
      some (fun x => if 1 ≤ x ∧ x < 1 + n then score (x - 1) else s.1 x, maximum) := by
  induction n with
  | zero =>
    refine ⟨s.2, congrArg some (Prod.ext ?_ rfl)⟩
    funext x
    exact (if_neg (by omega)).symm
  | succ n ih =>
    obtain ⟨maximum, hfold⟩ := ih fun c hc => hdot c (Nat.lt_succ_of_lt hc)
    obtain ⟨dot, hdot, hscore⟩ := hdot n n.lt_succ_self
    rw [List.range_succ, List.foldlM_append, hfold]
    refine ⟨if maximum < score n then score n else maximum, ?_⟩
    show (do let s ← scoreTurn layer call w keyWork scale _ n; some s) = _
    rw [scoreTurn, hdot]
    refine congrArg some (Prod.ext ?_ (by dsimp only; rw [hscore]))
    funext x
    dsimp only
    rw [hscore]
    by_cases hx : x = n + 1
    · subst hx
      rw [Function.update_self, if_pos (by omega), Nat.add_sub_cancel]
    · rw [Function.update_of_ne hx]
      exact if_congr (by omega) rfl rfl

/-- The second loop leaves the weights and their sum. -/
theorem weights_eq {score : ℕ → ℝ} {n : ℕ} (maximum : ℝ) {scores : ℕ → ℝ}
    (hscores : ∀ c < n, scores (c + 1) = score c) :
    let weighted := (List.range n).foldl (weightTurn Real.exp maximum) (scores, 0)
    (∀ c < n, weighted.1 (c + 1) = Real.exp (score c - maximum)) ∧ weighted.2 = Softmax.total score 1 n maximum := by
  have hrun (m : ℕ) (hm : m ≤ n) :
      (List.range m).foldl (weightTurn Real.exp maximum) (scores, 0) =
        (fun x => if 1 ≤ x ∧ x < 1 + m then Real.exp (score (x - 1) - maximum) else scores x,
          Softmax.total score 1 m maximum) := by
    induction m with
    | zero =>
      refine Prod.ext ?_ rfl
      funext x
      exact (if_neg (by omega)).symm
    | succ m ih =>
      rw [List.range_succ, List.foldl_append, ih (Nat.le_of_succ_le hm), List.foldl_cons, List.foldl_nil, weightTurn]
      dsimp only
      -- this score has not been replaced yet
      rw [if_neg (by omega), hscores m hm, Softmax.total_succ, Pi.one_apply, mul_one]
      refine Prod.ext ?_ rfl
      funext x
      dsimp only
      by_cases hx : x = m + 1
      · subst hx
        rw [Function.update_self, if_pos (by omega), Nat.add_sub_cancel]
      · rw [Function.update_of_ne hx]
        exact if_congr (by omega) rfl rfl
  intro weighted
  have hweighted : weighted = _ := hrun n le_rfl
  rw [hweighted]
  refine ⟨fun c hc => ?_, rfl⟩
  dsimp only
  rw [if_pos (by omega), Nat.add_sub_cancel]

/-- A turn of the third loop adds a row. -/
theorem valueTurn_eq {value : ℕ → ℝ} {c : ℕ}
    (hvalue : ∀ i < p.valueLength, layer.values.element valueWork call.kvHead c (i + 1) = some (value i))
    (weights : ℕ → ℝ) (normalizer : ℝ) (attentionWork : ℕ → ℝ) :
    valueTurn layer call valueWork weights normalizer attentionWork c =
      some (Lanes.mapped (call.vOffset + 1) (fun i v => v + weights (c + 1) / normalizer * value i) p.valueLength
        attentionWork) := by
  have hturns : ∀ j ∈ List.range' 1 p.valueLength, ∀ attentionWork : ℕ → ℝ,
      (do
        let value ← layer.values.element valueWork call.kvHead c j
        some (Function.update attentionWork (call.vOffset + j)
          (attentionWork (call.vOffset + j) + weights (c + 1) / normalizer * value))) =
        some (Lanes.mapOne call.vOffset (fun j v => v + weights (c + 1) / normalizer * value (j - 1)) attentionWork j) := by
    intro j hj attentionWork
    obtain ⟨hone, hlt⟩ := List.mem_range'_1.mp hj
    have helement := hvalue (j - 1) (by omega)
    rw [Nat.sub_add_cancel hone] at helement
    rw [helement]
    rfl
  rw [valueTurn, Cells.foldlM_some hturns, Lanes.foldl_mapOne]
  refine congrArg some ?_
  funext x
  rw [Lanes.mapped, Nat.sub_sub]

/-- The third loop adds up the rows. -/
theorem values_eq {value : ℕ → ℕ → ℝ} {n : ℕ}
    (hvalue : ∀ c < n, ∀ i < p.valueLength, layer.values.element valueWork call.kvHead c (i + 1) = some (value i c))
    (weights : ℕ → ℝ) (normalizer : ℝ) (attentionWork : ℕ → ℝ) :
    (List.range n).foldlM (valueTurn layer call valueWork weights normalizer) attentionWork =
      some (Lanes.mapped (call.vOffset + 1)
        (fun i v => v + ∑ c ∈ Finset.range n, weights (c + 1) / normalizer * value i c) p.valueLength attentionWork) := by
  have hturns : ∀ c ∈ List.range n, ∀ attentionWork, valueTurn layer call valueWork weights normalizer attentionWork c =
      some (Lanes.mapped (call.vOffset + 1) (fun i v => v + weights (c + 1) / normalizer * value i c) p.valueLength
        attentionWork) :=
    fun c hc attentionWork => valueTurn_eq (hvalue c (List.mem_range.mp hc)) weights normalizer attentionWork
  rw [Cells.foldlM_some hturns]
  refine congrArg some ?_
  clear hturns hvalue
  induction n with
  | zero =>
    funext x
    simp only [List.range_zero, List.foldl_nil, Finset.range_zero, Finset.sum_empty, add_zero, Lanes.mapped, ite_self]
  | succ n ih =>
    rw [List.range_succ, List.foldl_append, ih, List.foldl_cons, List.foldl_nil]
    funext x
    simp only [Lanes.mapped]
    split_ifs
    · rw [Finset.sum_range_succ, add_assoc]
    · rfl

/-- The score of a position, from the row of the key-value head. -/
noncomputable def score (layer : Layer ℝ p) (call : Call p) (w : Work ℝ) (c : ℕ) : ℝ :=
  (∑ i ∈ Finset.range p.headSize, layer.keys.row call.kvHead c (i + 1) * w.qWork (call.qOffset + 1 + i)) *
    (1 / Real.sqrt p.headSize)

/-- The output with the weighted means of the rows of the key-value head in its slice. -/
noncomputable def attended (layer : Layer ℝ p) (call : Call p) (w : Work ℝ) : ℕ → ℝ :=
  Lanes.mapped (call.vOffset + 1)
    (fun i _ => mean (score layer call w) (fun c => layer.values.row call.kvHead c (i + 1)) (call.position + 1))
    p.valueLength w.attentionWork

/-- The first two loops, where the keys fit. -/
theorem scored (hkeys : layer.keys.Fits call.kvHead call.position)
    (hunpack : layer.keys.unpack p.headsKv_pos call.kvHead call.position w.attentionKeyWork = some keyWork) :
    ∃ scores maximum, (List.range (call.position + 1)).foldlM
      (scoreTurn layer call w keyWork (1 / Real.sqrt p.headSize)) (w.scores, lowest) = some (scores, maximum) ∧
      ∀ c < call.position + 1, scores (c + 1) = score layer call w c := by
  have hdot : ∀ c < call.position + 1, ∃ dot, dotKey layer call w keyWork c = some dot ∧
      dot * (1 / Real.sqrt p.headSize) = score layer call w c := by
    intro c hc
    refine ⟨_, dotKey_eq fun i hi => ?_, rfl⟩
    have hle : c ≤ call.position := Nat.lt_succ_iff.mp hc
    rw [Storage.element_of_fits hkeys keyWork hle hi,
      Storage.unpack_eq_some p.headsKv_pos call.kvHead_lt call.position_lt hunpack hle hi]
  obtain ⟨maximum, hfold⟩ := scores_eq hdot (w.scores, lowest)
  refine ⟨_, maximum, hfold, fun c hc => ?_⟩
  dsimp only
  rw [if_pos (by omega), Nat.add_sub_cancel]

/-- Three turns over the scores leave the weighted means. -/
theorem scalarAttention_eq (hkeys : layer.keys.Fits call.kvHead call.position)
    (hvalues : layer.values.Fits call.kvHead call.position) :
    scalarAttention Real.exp layer call w (1 / Real.sqrt p.headSize) = some (attended layer call w) := by
  obtain ⟨keyWork, hkeyWork⟩ :=
    Storage.unpack_of_fits p.headsKv_pos call.kvHead_lt call.position_lt hkeys w.attentionKeyWork
  obtain ⟨valueWork, hvalueWork⟩ :=
    Storage.unpack_of_fits p.headsKv_pos call.kvHead_lt call.position_lt hvalues w.attentionValueWork
  obtain ⟨scores, maximum, hscored, hscores⟩ := scored (w := w) hkeys hkeyWork
  obtain ⟨hweights, hnormalizer⟩ := weights_eq maximum hscores
  have hpos : ¬ Softmax.total (score layer call w) 1 (call.position + 1) maximum ≤ 0 :=
    not_le.mpr (Softmax.total_one_pos (Nat.succ_pos _) maximum)
  have hvalue : ∀ c < call.position + 1, ∀ i < p.valueLength,
      layer.values.element valueWork call.kvHead c (i + 1) = some (layer.values.row call.kvHead c (i + 1)) := by
    intro c hc i hi
    have hle : c ≤ call.position := Nat.lt_succ_iff.mp hc
    rw [Storage.element_of_fits hvalues valueWork hle hi,
      Storage.unpack_eq_some p.headsKv_pos call.kvHead_lt call.position_lt hvalueWork hle hi]
  simp only [scalarAttention, hkeyWork, hvalueWork, hscored, Option.bind_eq_bind, Option.bind_some, hnormalizer]
  rw [if_neg hpos, values_eq hvalue, Lanes.mapScalar_eq]
  refine congrArg some ?_
  funext x
  simp only [attended, Lanes.mapped]
  split_ifs
  · rw [zero_add, ← Softmax.mean_sub maximum, Softmax.total_div]
    refine Finset.sum_congr rfl fun c hc => ?_
    rw [hweights c (Finset.mem_range.mp hc)]
  · rfl

/-- One turn over the rows leaves the same. -/
theorem runAttention_eq (avx2 : Bool) (hkeys : layer.keys.Fits call.kvHead call.position)
    (hvalues : layer.values.Fits call.kvHead call.position) :
    runAttention Real.exp Real.sqrt avx2 layer call w true = some (attended layer call w) := by
  obtain ⟨keyWork, hkeyWork⟩ :=
    Storage.unpack_of_fits p.headsKv_pos call.kvHead_lt call.position_lt hkeys w.attentionKeyWork
  obtain ⟨valueWork, hvalueWork⟩ :=
    Storage.unpack_of_fits p.headsKv_pos call.kvHead_lt call.position_lt hvalues w.attentionValueWork
  simp only [runAttention, hkeyWork, hvalueWork, Option.bind_eq_bind, Option.bind_some, Bool.not_true,
    Bool.false_eq_true, if_false]
  rw [flash_eq (Nat.succ_pos _) (layer.keys.width_le_stride p.headsKv_pos)
    (layer.values.width_le_stride p.headsKv_pos) p.headSize_pos]
  refine congrArg some ?_
  funext x
  simp only [attended, Lanes.mapped]
  split_ifs with hx
  · refine Softmax.mean_congr (fun c hc => ?_) fun c hc => ?_
    · have hle : c ≤ call.position := Nat.lt_succ_iff.mp hc
      simp only [Flash.score, score]
      congr 1
      refine Finset.sum_congr rfl fun i hi => ?_
      rw [Storage.unpack_eq_some p.headsKv_pos call.kvHead_lt call.position_lt hkeyWork hle (Finset.mem_range.mp hi)]
    · exact Storage.unpack_eq_some p.headsKv_pos call.kvHead_lt call.position_lt hvalueWork
        (Nat.lt_succ_iff.mp hc) (by omega)
  · rfl

/-- An index that overflows leaves `scalar_attention` without a result. -/
theorem scalarAttention_none (hfits : ¬ (layer.keys.Fits call.kvHead call.position ∧
    layer.values.Fits call.kvHead call.position)) :
    scalarAttention Real.exp layer call w (1 / Real.sqrt p.headSize) = none := by
  have hlast : call.position ∈ List.range (call.position + 1) := List.mem_range.mpr call.position.lt_succ_self
  by_cases hkeys : layer.keys.Fits call.kvHead call.position
  · obtain ⟨keyWork, hkeyWork⟩ :=
      Storage.unpack_of_fits p.headsKv_pos call.kvHead_lt call.position_lt hkeys w.attentionKeyWork
    obtain ⟨scores, maximum, hscored, hscores⟩ := scored (w := w) hkeys hkeyWork
    obtain ⟨-, hnormalizer⟩ := weights_eq maximum hscores
    have hpos : ¬ Softmax.total (score layer call w) 1 (call.position + 1) maximum ≤ 0 :=
      not_le.mpr (Softmax.total_one_pos (Nat.succ_pos _) maximum)
    obtain ⟨hlength, hnone | ⟨hunpack, hnone⟩⟩ := Storage.none_of_not_fits p.headsKv_pos call.kvHead_lt
      call.position_lt (fun h => hfits ⟨hkeys, h⟩) w.attentionValueWork
    · simp only [scalarAttention, hkeyWork, hnone, Option.bind_eq_bind, Option.bind_some, Option.bind_none]
    · simp only [scalarAttention, hkeyWork, hunpack, hscored, Option.bind_eq_bind, Option.bind_some, hnormalizer]
      rw [if_neg hpos]
      refine Cells.foldlM_none hlast (fun attentionWork => ?_) _
      refine Cells.foldlM_none (List.mem_range'_1.mpr ⟨hlength, Nat.lt_one_add_iff.mpr le_rfl⟩) (fun a => ?_) _
      rw [hnone]
      rfl
  · obtain ⟨hlength, hnone | ⟨hunpack, hnone⟩⟩ := Storage.none_of_not_fits p.headsKv_pos call.kvHead_lt
      call.position_lt hkeys w.attentionKeyWork
    · simp only [scalarAttention, hnone, Option.bind_eq_bind, Option.bind_none]
    · have hdot : dotKey layer call w w.attentionKeyWork call.position = none := by
        refine Cells.foldlM_none (List.mem_range'_1.mpr ⟨hlength, Nat.lt_one_add_iff.mpr le_rfl⟩) (fun dot => ?_) _
        rw [hnone]
        rfl
      have hscored : (List.range (call.position + 1)).foldlM
          (scoreTurn layer call w w.attentionKeyWork (1 / Real.sqrt p.headSize)) (w.scores, lowest) = none := by
        refine Cells.foldlM_none hlast (fun s => ?_) _
        rw [scoreTurn, hdot]
        rfl
      cases hvalueWork : layer.values.unpack p.headsKv_pos call.kvHead call.position w.attentionValueWork with
      | none => simp only [scalarAttention, hunpack, hvalueWork, Option.bind_eq_bind, Option.bind_some, Option.bind_none]
      | some valueWork =>
        simp only [scalarAttention, hunpack, hvalueWork, hscored, Option.bind_eq_bind, Option.bind_some, Option.bind_none]

end

/-- Both ways to attend leave the weighted means of the rows of the key-value head exactly where no default
integer overflows up to the row of the position. -/
theorem attention_iff {p : Sizes} (avx2 : Bool) (layer : Layer ℝ p) (call : Call p) (w : Work ℝ) :
    (runAttention Real.exp Real.sqrt avx2 layer call w true = some (attended layer call w) ∧
      runAttention Real.exp Real.sqrt avx2 layer call w false = some (attended layer call w)) ↔
    layer.keys.Fits call.kvHead call.position ∧ layer.values.Fits call.kvHead call.position := by
  constructor
  · rintro ⟨-, hscalar⟩
    by_contra hfits
    have hnone : runAttention Real.exp Real.sqrt avx2 layer call w false = none := scalarAttention_none hfits
    rw [hnone] at hscalar
    cases hscalar
  · rintro ⟨hkeys, hvalues⟩
    exact ⟨runAttention_eq avx2 hkeys hvalues, scalarAttention_eq hkeys hvalues⟩

/-- Keys and values of 2048 cells for a position, and 2^20 positions. -/
def longSizes : Sizes where
  headSize := 256
  valueLength := 256
  headsKv := 8
  maxContext := 1048576
  headSize_pos := by decide
  headsKv_pos := by decide
  keys_le := by decide
  values_le := by decide

noncomputable def longLayer : Layer ℝ longSizes := ⟨.plain fun _ => 0, .plain fun _ => 0⟩

/-- The last head at the last position. -/
def lastCall : Call longSizes := ⟨7, 1048575, 0, 0, by decide, by decide⟩

def zeroWork : Work ℝ := ⟨fun _ => 0, fun _ => 0, fun _ => 0, fun _ => 0, fun _ => 0⟩

/-- The index of the last cell of the cache is one too large. -/
theorem not_attended_lastCall :
    runAttention Real.exp Real.sqrt true longLayer lastCall zeroWork false = none ∧
    runAttention Real.exp Real.sqrt true longLayer lastCall zeroWork true ≠ none := by
  have hfits : ¬ longLayer.keys.Fits lastCall.kvHead lastCall.position := by
    show ¬ (1048575 * 8 + 7 + 1) * 256 ≤ 2147483647
    decide
  refine ⟨scalarAttention_none fun h => hfits h.1, fun hnone => ?_⟩
  cases hnone

end Attention

end Qwen35

end FortAI
