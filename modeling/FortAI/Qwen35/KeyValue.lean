import FortAI.Cpu.Quantize
import FortAI.Machine.Cells
import Mathlib.Order.CompletePartialOrder

/-!
# The quantized cache of keys and values

A row of a cache is what one head keeps for one position: blocks of 34 bytes, two for the scale and 32 for
the values, and one number for the scale of each block in an array of its own.  Arrays are indexed from 1,
and the indices are default integers.

* `Stored.dequantize` : `dequantize_attention_cache` finds what was stored.
* `Stored.keyValue` : `layers_key_value` does in the first block, but for its last value.
* `readsBack_iff` : where the two give what was stored.
-/

namespace FortAI

namespace Qwen35

namespace KeyValue

open Cpu Cells

/-- The largest default integer. -/
def huge : ℕ := 2147483647

/-- The rows of the keys or of the values of a layer. -/
structure Rows where
  heads : ℕ
  /-- `attention_head_size` or `value_length` -/
  width : ℕ
  context : ℕ
  heads_pos : 0 < heads
  width_pos : 0 < width
  dvd_width : 32 ∣ width

/-- The bytes of the rows, and the scales of their blocks. -/
structure Cache where
  bytes : ℕ → Int8
  scales : ℕ → ℚ

namespace Rows

variable (r : Rows)

/-- `key_blocks`, `value_blocks` -/
def blocks : ℕ := (r.width + 31) / 32

/-- `key_row`, `value_row` -/
def row : ℕ := r.width + 2 * r.blocks

/-- The number of rows in front of one. -/
def front (position head : ℕ) : ℕ := position * r.heads + head

theorem width_eq : r.width = 32 * r.blocks := by
  have := r.dvd_width
  rw [blocks]
  omega

theorem row_eq : r.row = 34 * r.blocks := by
  have := r.width_eq
  rw [row]
  omega

theorem blocks_pos : 0 < r.blocks := by
  have := r.width_eq
  have := r.width_pos
  omega

end Rows

/-! ### Storing -/

/-- `fortai_q8_quantize` of a block, with the instructions of the processor if it has them. -/
def quantize : Option F16c → (Fin 32 → ℚ) → Quantized
  | some f16c => quantizeAvx2 f16c
  | none => quantizeScalar

/-- The number in `scales`. -/
def scaleOf (q : Quantized) : ℚ :=
  match q.scale with
  | some bits => Format.single.value bits.toNat
  | none => 0

/-- The bytes of a block. -/
def blockByte (q : Quantized) (k : ℕ) : Int8 :=
  if k = 0 then q.scaleBits.toUInt8.toInt8
  else if k = 1 then (q.scaleBits >>> 8).toUInt8.toInt8
  else q.values ⟨(k - 2) % 32, Nat.mod_lt _ (by decide)⟩

/-- One block, behind so many bytes and scales. -/
def writeBlock (q : Quantized) (offset scaleOffset : ℕ) (c : Cache) : Cache where
  bytes j := if offset < j ∧ j ≤ offset + 34 then blockByte q (j - offset - 1) else c.bytes j
  scales := Function.update c.scales (scaleOffset + 1) (scaleOf q)

variable (f16c : Option F16c) (r : Rows)

/-- `fortai_q8_quantize` of a row, with `output` and `scales` behind so many bytes and scales. -/
def quantizeRow (input : ℕ → ℚ) (count offset scaleOffset : ℕ) (c : Cache) : Cache :=
  (List.range (count / 32)).foldl (fun c block => writeBlock (quantize f16c fun i => input (32 * block + i))
    (offset + block * 34) (scaleOffset + block) c) c

/-- The row of one head. -/
def storeHead (position : ℕ) (work : ℕ → ℚ) (c : Cache) (head : ℕ) : Cache :=
  quantizeRow f16c (fun j => work (head * r.width + j)) r.width (r.front position head * r.row)
    (r.front position head * r.blocks) c

/-- The part of `layers_state_store` for the keys or for the values, `none` if an index overflows. -/
def store (c : Cache) (position : ℕ) (work : ℕ → ℚ) : Option Cache :=
  if r.row * r.heads ≤ huge then
    (List.range r.heads).foldlM (fun c head =>
      if r.front position head * r.row + 1 ≤ huge then some (storeHead f16c r position work c head)
      else none) c
  else none

/-! ### Reading -/

/-- An element of an array of this size. -/
def load {α : Type} (a : ℕ → α) (size index : ℕ) : Option α :=
  if 1 ≤ index ∧ index ≤ size ∧ index ≤ huge then some (a index) else none

/-- `layers_key_value` -/
def keyValue (c : Cache) (head position index : ℕ) : Option ℚ := do
  let qvalue ← load c.bytes (r.row * r.heads * r.context) (r.front position head * r.row + 2 + index)
  let scale ← load c.scales (r.blocks * r.heads * r.context)
    (r.front position head * r.blocks + index / 32 + 1)
  some (scale * qvalue.toInt)

/-- A turn of the loops of `dequantize_attention_cache`. -/
structure Turn where
  position : ℕ
  block : ℕ
  i : ℕ

/-- The turns, in their order. -/
def turns (position : ℕ) : List Turn :=
  (List.range (position + 1)).flatMap fun current =>
    (List.range r.blocks).flatMap fun block =>
      (List.range' 1 (Nat.min 32 (r.width - 32 * block))).map fun i => ⟨current, block, i⟩

namespace Turn

/-- The index of the output. -/
def target (t : Turn) : ℕ := t.position * r.width + t.block * 32 + t.i

def scaleIndex (head : ℕ) (t : Turn) : ℕ := r.front t.position head * r.blocks + t.block + 1

def byteIndex (head : ℕ) (t : Turn) : ℕ := r.front t.position head * r.row + 2 + t.block * 34 + t.i

/-- What is stored in the output. -/
def value (c : Cache) (head : ℕ) (t : Turn) : ℚ :=
  c.scales (t.scaleIndex r head) * (c.bytes (t.byteIndex r head)).toInt

/-- Its indices do not overflow, of which that of the byte is the largest, and are inside of the arrays. -/
def Inside (head : ℕ) (t : Turn) : Prop :=
  t.byteIndex r head ≤ huge ∧ t.byteIndex r head ≤ r.row * r.heads * r.context ∧
    t.scaleIndex r head ≤ r.blocks * r.heads * r.context

instance (head : ℕ) (t : Turn) : Decidable (t.Inside r head) := inferInstanceAs (Decidable (_ ∧ _))

end Turn

/-- `dequantize_attention_cache` -/
def dequantize (c : Cache) (head position : ℕ) (output : ℕ → ℚ) : Option (ℕ → ℚ) :=
  (turns r position).foldlM (fun output t =>
    if t.Inside r head then some (Function.update output (t.target r) (t.value r c head)) else none) output

/-! ### What is in a row -/

section
variable {f16c r} {c c' : Cache} {position position' head head' : ℕ} {work : ℕ → ℚ} {q : ℕ → Quantized}

/-- The blocks written so far, and nothing else. -/
theorem foldl_writeBlock (q : ℕ → Quantized) (offset scaleOffset n : ℕ) (c : Cache) :
    let c' := (List.range n).foldl
      (fun c block => writeBlock (q block) (offset + block * 34) (scaleOffset + block) c) c
    (∀ j, c'.bytes j = if offset < j ∧ j ≤ offset + n * 34 then
      blockByte (q ((j - offset - 1) / 34)) ((j - offset - 1) % 34) else c.bytes j) ∧
    ∀ j, c'.scales j = if scaleOffset < j ∧ j ≤ scaleOffset + n then scaleOf (q (j - scaleOffset - 1))
      else c.scales j := by
  induction n with
  | zero =>
    exact ⟨fun j => (if_neg (by omega)).symm, fun j => (if_neg (by omega)).symm⟩
  | succ n ih =>
    obtain ⟨hbytes, hscales⟩ := ih
    rw [List.range_succ, List.foldl_append]
    refine ⟨fun j => ?_, fun j => ?_⟩
    · show (if offset + n * 34 < j ∧ j ≤ offset + n * 34 + 34 then _ else _) = _
      by_cases hlast : offset + n * 34 < j ∧ j ≤ offset + n * 34 + 34
      · have hblock : (j - offset - 1) / 34 = n := by omega
        have hplace : j - (offset + n * 34) - 1 = (j - offset - 1) % 34 := by omega
        rw [if_pos hlast, if_pos (by omega), hblock, hplace]
      · rw [if_neg hlast, hbytes]
        exact if_congr (by omega) rfl rfl
    · show Function.update _ (scaleOffset + n + 1) _ j = _
      by_cases hlast : j = scaleOffset + n + 1
      · have hblock : j - scaleOffset - 1 = n := by omega
        rw [hlast, Function.update_self, if_pos (by omega), ← hlast, hblock]
      · rw [Function.update_of_ne hlast, hscales]
        exact if_congr (by omega) rfl rfl

/-- The row of a head has these blocks. -/
structure Stored (r : Rows) (c : Cache) (position head : ℕ) (q : ℕ → Quantized) : Prop where
  bytes : ∀ b < r.blocks, ∀ k < 34,
    c.bytes (r.front position head * r.row + b * 34 + k + 1) = blockByte (q b) k
  scales : ∀ b < r.blocks, c.scales (r.front position head * r.blocks + b + 1) = scaleOf (q b)

/-- The blocks of a row that is stored. -/
def rowBlocks (f16c : Option F16c) (r : Rows) (work : ℕ → ℚ) (head b : ℕ) : Quantized :=
  quantize f16c fun i => work (head * r.width + (32 * b + i))

/-- Nothing changes between two rows but what is in them. -/
structure Framed (r : Rows) (first last : ℕ) (c c' : Cache) : Prop where
  bytes : ∀ j, ¬ (first * r.row < j ∧ j ≤ last * r.row) → c'.bytes j = c.bytes j
  scales : ∀ j, ¬ (first * r.blocks < j ∧ j ≤ last * r.blocks) → c'.scales j = c.scales j

theorem storeHead_spec (f16c : Option F16c) (r : Rows) (position head : ℕ) (work : ℕ → ℚ) (c : Cache) :
    Stored r (storeHead f16c r position work c head) position head (rowBlocks f16c r work head) ∧
      Framed r (r.front position head) (r.front position head + 1) c
        (storeHead f16c r position work c head) := by
  have hcount : r.width / 32 = r.blocks := by
    have := r.width_eq
    omega
  have hrow := r.row_eq
  obtain ⟨hbytes, hscales⟩ := foldl_writeBlock (rowBlocks f16c r work head)
    (r.front position head * r.row) (r.front position head * r.blocks) r.blocks c
  rw [storeHead, quantizeRow, hcount]
  refine ⟨⟨fun b hb k hk => ?_, fun b hb => ?_⟩, fun j hj => ?_, fun j hj => ?_⟩
  · have hblock : (r.front position head * r.row + b * 34 + k + 1 - r.front position head * r.row - 1) / 34 = b := by
      omega
    have hplace : (r.front position head * r.row + b * 34 + k + 1 - r.front position head * r.row - 1) % 34 = k := by
      omega
    refine (hbytes _).trans ?_
    rw [if_pos (by omega), hblock, hplace]
  · have hblock : r.front position head * r.blocks + b + 1 - r.front position head * r.blocks - 1 = b := by
      omega
    refine (hscales _).trans ?_
    rw [if_pos (by omega), hblock]
  · refine (hbytes j).trans (if_neg ?_)
    rw [Nat.succ_mul] at hj
    omega
  · refine (hscales j).trans (if_neg ?_)
    rw [Nat.succ_mul] at hj
    omega

theorem Framed.refl (r : Rows) (first last : ℕ) (c : Cache) : Framed r first last c c :=
  ⟨fun _ _ => rfl, fun _ _ => rfl⟩

/-- Rows that follow each other. -/
theorem Framed.append {first middle last : ℕ} {c'' : Cache} (h : Framed r first middle c c')
    (h' : Framed r middle last c' c'') (hfirst : first ≤ middle) (hlast : middle ≤ last) :
    Framed r first last c c'' where
  bytes j hj := by
    have := Nat.mul_le_mul_right r.row hfirst
    have := Nat.mul_le_mul_right r.row hlast
    rw [h'.bytes j (by omega), h.bytes j (by omega)]
  scales j hj := by
    have := Nat.mul_le_mul_right r.blocks hfirst
    have := Nat.mul_le_mul_right r.blocks hlast
    rw [h'.scales j (by omega), h.scales j (by omega)]

/-- A row stays what it is while other rows are written. -/
theorem Stored.of_framed {first last : ℕ} (h : Stored r c position head q) (hframed : Framed r first last c c')
    (hother : r.front position head < first ∨ last ≤ r.front position head) :
    Stored r c' position head q where
  bytes b hb k hk := by
    have hrow := r.row_eq
    rw [hframed.bytes _ fun hj => ?_, h.bytes b hb k hk]
    rcases hother with hlt | hle
    · have hmul := Nat.mul_le_mul_right r.row hlt
      rw [Nat.succ_mul] at hmul
      omega
    · have hmul := Nat.mul_le_mul_right r.row hle
      omega
  scales b hb := by
    rw [hframed.scales _ fun hj => ?_, h.scales b hb]
    rcases hother with hlt | hle
    · have hmul := Nat.mul_le_mul_right r.blocks hlt
      rw [Nat.succ_mul] at hmul
      omega
    · have hmul := Nat.mul_le_mul_right r.blocks hle
      omega

/-- The rows of the heads so far are stored. -/
theorem foldl_storeHead (f16c : Option F16c) (r : Rows) (position n : ℕ) (work : ℕ → ℚ) (c : Cache) :
    (∀ head < n, Stored r ((List.range n).foldl (storeHead f16c r position work) c) position head
      (rowBlocks f16c r work head)) ∧
    Framed r (r.front position 0) (r.front position n) c
      ((List.range n).foldl (storeHead f16c r position work) c) := by
  induction n with
  | zero => exact ⟨fun head h => absurd h (Nat.not_lt_zero head), .refl r _ _ c⟩
  | succ n ih =>
    obtain ⟨hstored, hframed⟩ := ih
    obtain ⟨hlast, hrow⟩ := storeHead_spec f16c r position n work
      ((List.range n).foldl (storeHead f16c r position work) c)
    rw [List.range_succ, List.foldl_append, List.foldl_cons, List.foldl_nil]
    refine ⟨fun head hhead => ?_, hframed.append hrow (Nat.add_le_add_left (Nat.zero_le n) _) (Nat.le_succ _)⟩
    rcases Nat.lt_succ_iff_lt_or_eq.mp hhead with hlt | rfl
    · exact (hstored head hlt).of_framed hrow (.inl (Nat.add_lt_add_left hlt _))
    · exact hlast

/-- The indices of the rows of a position do not overflow when they are stored. -/
def StoreFits (r : Rows) (position : ℕ) : Prop :=
  r.row * r.heads ≤ huge ∧ r.front position (r.heads - 1) * r.row + 1 ≤ huge

theorem store_eq (f16c : Option F16c) (r : Rows) (c : Cache) (position : ℕ) (work : ℕ → ℚ)
    [Decidable (StoreFits r position)] :
    store f16c r c position work = if StoreFits r position then
      some ((List.range r.heads).foldl (storeHead f16c r position work) c) else none := by
  have hlast : (∀ head ∈ List.range r.heads, r.front position head * r.row + 1 ≤ huge) ↔
      r.front position (r.heads - 1) * r.row + 1 ≤ huge := by
    have hpos := r.heads_pos
    refine ⟨fun h => h _ (List.mem_range.mpr (by omega)), fun h head hhead => ?_⟩
    have hle : r.front position head ≤ r.front position (r.heads - 1) :=
      Nat.add_le_add_left (Nat.le_sub_one_of_lt (List.mem_range.mp hhead)) _
    exact (Nat.succ_le_succ (Nat.mul_le_mul_right r.row hle)).trans h
  rw [store, foldlM_guard fun head => r.front position head * r.row + 1 ≤ huge]
  by_cases hsize : r.row * r.heads ≤ huge
  · rw [if_pos hsize]
    refine if_congr ?_ rfl rfl
    rw [hlast, StoreFits, and_iff_right hsize]
  · rw [if_neg hsize, if_neg fun h => hsize h.1]

/-- What a call of `layers_state_store` leaves behind. -/
theorem store_spec (h : store f16c r c position work = some c') :
    StoreFits r position ∧
      (∀ head < r.heads, Stored r c' position head (rowBlocks f16c r work head)) ∧
      Framed r (r.front position 0) (r.front (position + 1) 0) c c' := by
  classical
  have hnext : r.front (position + 1) 0 = r.front position r.heads := Nat.succ_mul position r.heads
  rw [store_eq] at h
  split_ifs at h with hfits
  obtain rfl := Option.some.inj h
  rw [hnext]
  exact ⟨hfits, foldl_storeHead f16c r position r.heads work c⟩

/-- The calls of `layers_state_store` for several positions. -/
def storeAll (f16c : Option F16c) (r : Rows) : List (ℕ × (ℕ → ℚ)) → Cache → Option Cache
  | [], c => some c
  | call :: calls, c => do
    let c ← store f16c r c call.1 call.2
    storeAll f16c r calls c

/-- Calls for other positions leave a row as it is. -/
theorem Stored.storeAll (hhead : head < r.heads) (calls : List (ℕ × (ℕ → ℚ)))
    (hcalls : ∀ call ∈ calls, call.1 ≠ position) (h : Stored r c position head q)
    (hrun : storeAll f16c r calls c = some c') : Stored r c' position head q := by
  induction calls generalizing c with
  | nil => exact Option.some.inj hrun ▸ h
  | cons call calls ih =>
    obtain ⟨hcall, hcalls⟩ := List.forall_mem_cons.mp hcalls
    obtain ⟨middle, hstore, hrest⟩ := Option.bind_eq_some_iff.mp hrun
    refine ih hcalls (h.of_framed (store_spec hstore).2.2 ?_) hrest
    rcases Nat.lt_or_gt_of_ne hcall with hlt | hgt
    · -- the call was for a position in front
      have hmul := Nat.mul_le_mul_right r.heads hlt
      exact .inr (hmul.trans (Nat.le_add_right _ _))
    · have hmul := Nat.mul_le_mul_right r.heads hgt
      rw [Nat.succ_mul] at hmul
      refine .inl ?_
      simp only [Rows.front]
      omega

/-! ### What is read -/

/-- The element that belongs at an index of a row. -/
def written (q : ℕ → Quantized) (index : ℕ) : ℚ :=
  scaleOf (q ((index - 1) / 32)) * ((q ((index - 1) / 32)).values ⟨(index - 1) % 32, Nat.mod_lt _ (by decide)⟩).toInt

/-- The indices of a row, and of those in front of it, do not overflow when it is read. -/
def ReadFits (r : Rows) (position head : ℕ) : Prop := (r.front position head + 1) * r.row ≤ huge

theorem load_eq {α : Type} {a : ℕ → α} {size index : ℕ} (hlow : 1 ≤ index) (hsize : index ≤ size)
    (hhuge : index ≤ huge) : load a size index = some (a index) := if_pos ⟨hlow, hsize, hhuge⟩

/-- Every row of the context is inside of the arrays. -/
theorem front_le (hposition : position < r.context) (hhead : head < r.heads) :
    (r.front position head + 1) * r.row ≤ r.row * r.heads * r.context ∧
      (r.front position head + 1) * r.blocks ≤ r.blocks * r.heads * r.context := by
  have hfront : r.front position head + 1 ≤ r.heads * r.context := by
    have := Nat.mul_le_mul_left r.heads (Nat.succ_le_of_lt hposition)
    rw [Nat.mul_succ, Nat.mul_comm r.heads position] at this
    rw [Rows.front]
    omega
  rw [Nat.mul_assoc, Nat.mul_assoc, Nat.mul_comm r.row, Nat.mul_comm r.blocks]
  exact ⟨Nat.mul_le_mul_right _ hfront, Nat.mul_le_mul_right _ hfront⟩

theorem Stored.byte (h : Stored r c position head q) {b k : ℕ} (hb : b < r.blocks) (hk : k < 32) :
    c.bytes (r.front position head * r.row + 2 + b * 34 + (k + 1)) = (q b).values ⟨k, hk⟩ := by
  have hindex : r.front position head * r.row + 2 + b * 34 + (k + 1) =
      r.front position head * r.row + b * 34 + (k + 2) + 1 := by
    omega
  rw [hindex, h.bytes b hb (k + 2) (by omega), blockByte, if_neg (by omega), if_neg (by omega)]
  exact congrArg (q b).values (Fin.ext (show (k + 2 - 2) % 32 = k by omega))

/-- In the first block the accessor finds all the elements but the last. -/
theorem Stored.keyValue (h : Stored r c position head q) (hposition : position < r.context)
    (hhead : head < r.heads) (hfits : ReadFits r position head) {index : ℕ} (hone : 1 ≤ index)
    (hlt : index < 32) : keyValue r c head position index = some (written q index) := by
  have hblocks := r.blocks_pos
  have hrow := r.row_eq
  obtain ⟨hbytes, hscales⟩ := front_le hposition hhead
  rw [ReadFits, Nat.succ_mul] at hfits
  rw [Nat.succ_mul] at hbytes hscales
  have hscaleFits : r.front position head * r.blocks ≤ r.front position head * r.row :=
    Nat.mul_le_mul_left _ (by omega)
  have hdiv : index / 32 = 0 := Nat.div_eq_of_lt hlt
  have hdiv' : (index - 1) / 32 = 0 := Nat.div_eq_of_lt (by omega)
  have hmod : (index - 1) % 32 = index - 1 := Nat.mod_eq_of_lt (by omega)
  have hbyte := h.byte hblocks (show index - 1 < 32 by omega)
  rw [Nat.sub_add_cancel hone, Nat.zero_mul, Nat.add_zero] at hbyte
  rw [KeyValue.keyValue, load_eq (by omega) (by omega) (by omega), hdiv,
    load_eq (by omega) (by omega) (by omega), h.scales 0 hblocks, hbyte, written, hdiv']
  simp only [hmod]
  rfl

theorem mem_turns {t : Turn} :
    t ∈ turns r position ↔ t.position ≤ position ∧ t.block < r.blocks ∧ 1 ≤ t.i ∧ t.i ≤ 32 := by
  have hwidth := r.width_eq
  obtain ⟨current, block, i⟩ := t
  have hmin (hblock : block < r.blocks) : Nat.min 32 (r.width - 32 * block) = 32 :=
    Nat.min_eq_left (by omega)
  rw [turns]
  simp only [List.mem_flatMap, List.mem_map, List.mem_range, List.mem_range'_1, Turn.mk.injEq]
  constructor
  · rintro ⟨a, ha, b, hb, j, hj, rfl, rfl, rfl⟩
    rw [hmin hb] at hj
    exact ⟨Nat.lt_succ_iff.mp ha, hb, hj.1, by omega⟩
  · rintro ⟨ha, hb, hone, hle⟩
    refine ⟨current, Nat.lt_succ_of_le ha, block, hb, i, ?_, rfl, rfl, rfl⟩
    rw [hmin hb]
    exact ⟨hone, by omega⟩

/-- The turns are all taken where the last row fits. -/
theorem inside_iff (hposition : position < r.context) (hhead : head < r.heads) :
    (∀ t ∈ turns r position, t.Inside r head) ↔ ReadFits r position head := by
  have hblocks := r.blocks_pos
  have hrow := r.row_eq
  constructor
  · intro h
    have hlast := (h ⟨position, r.blocks - 1, 32⟩ (mem_turns.mpr ⟨le_rfl, Nat.sub_lt hblocks Nat.one_pos, show 1 ≤ 32 by decide, le_rfl⟩)).1
    rw [ReadFits, Nat.succ_mul]
    simp only [Turn.byteIndex] at hlast
    omega
  · intro hfits t ht
    obtain ⟨ht, hblock, hone, hle⟩ := mem_turns.mp ht
    obtain ⟨hbytes, hscales⟩ := front_le (lt_of_le_of_lt ht hposition) hhead
    have hfront : r.front t.position head + 1 ≤ r.front position head + 1 :=
      Nat.succ_le_succ (Nat.add_le_add_right (Nat.mul_le_mul_right _ ht) _)
    have hmul := (Nat.mul_le_mul_right r.row hfront).trans hfits
    rw [Nat.succ_mul] at hmul hbytes hscales
    refine ⟨?_, ?_, ?_⟩
    · simp only [Turn.byteIndex]
      omega
    · simp only [Turn.byteIndex]
      omega
    · simp only [Turn.scaleIndex]
      omega

theorem dequantize_eq (c : Cache) (output : ℕ → ℚ) (hposition : position < r.context)
    (hhead : head < r.heads) [Decidable (ReadFits r position head)] :
    dequantize r c head position output = if ReadFits r position head then
      some (writes (Turn.target r) (Turn.value r c head) (turns r position) output) else none := by
  rw [dequantize, foldlM_guard fun t => Turn.Inside r head t]
  exact if_congr (inside_iff hposition hhead) rfl rfl

/-- What the loops leave for an element of a row; no other turn has the same index. -/
theorem writes_turns (c : Cache) (output : ℕ → ℚ) {current index : ℕ} (hcurrent : current ≤ position) (hone : 1 ≤ index)
    (hle : index ≤ r.width) :
    writes (Turn.target r) (Turn.value r c head) (turns r position) output (current * r.width + index) =
      Turn.value r c head ⟨current, (index - 1) / 32, (index - 1) % 32 + 1⟩ := by
  have hwidth := r.width_eq
  have hblock : (index - 1) / 32 < r.blocks := by omega
  have hplace : (index - 1) % 32 < 32 := Nat.mod_lt _ (by decide)
  refine writes_eq ?_ (fun t ht htarget => ?_) output
  · refine ⟨⟨current, (index - 1) / 32, (index - 1) % 32 + 1⟩,
      mem_turns.mpr ⟨hcurrent, hblock, Nat.succ_pos _, hplace⟩, ?_⟩
    simp only [Turn.target]
    omega
  · obtain ⟨-, htblock, htone, htle⟩ := mem_turns.mp ht
    obtain ⟨cp, block, i⟩ := t
    simp only [Turn.target] at htarget htblock htone htle
    have hcp : cp = current := by
      obtain hlt | heq | hlt := Nat.lt_trichotomy cp current
      · have := Nat.mul_le_mul_right r.width hlt
        rw [Nat.succ_mul] at this
        omega
      · exact heq
      · have := Nat.mul_le_mul_right r.width hlt
        rw [Nat.succ_mul] at this
        omega
    subst hcp
    have htb : block = (index - 1) / 32 := by omega
    have hti : i = (index - 1) % 32 + 1 := by omega
    rw [htb, hti]

/-- The loops find every element of the row. -/
theorem Stored.dequantize (h : Stored r c position head q) (hposition : position < r.context)
    (hhead : head < r.heads) (hfits : ReadFits r position head) {index : ℕ} (hone : 1 ≤ index)
    (hle : index ≤ r.width) (output : ℕ → ℚ) :
    ∃ output', dequantize r c head position output = some output' ∧
      output' (position * r.width + index) = written q index := by
  classical
  have hwidth := r.width_eq
  have hblock : (index - 1) / 32 < r.blocks := by omega
  have hplace : (index - 1) % 32 < 32 := Nat.mod_lt _ (by decide)
  rw [dequantize_eq c output hposition hhead, if_pos hfits]
  refine ⟨_, rfl, ?_⟩
  have hscale := h.scales _ hblock
  have hbyte := h.byte hblock hplace
  rw [writes_turns c output le_rfl hone hle, Turn.value, Turn.scaleIndex, Turn.byteIndex, hscale, hbyte]
  rfl

end

/-! ### A single number in a row -/

/-- A block that is zero but for one lane, if any. -/
def spike (lane : Option (Fin 32)) : Fin 32 → ℚ := fun i => if some i = lane then 127 else 0

theorem maximumScalar_spike (lane : Option (Fin 32)) :
    maximumScalar (spike lane) = if lane.isSome then 127 else 0 := by
  refine (isMaximum_maximumScalar _).unique ⟨?_, fun i => ?_⟩
  · cases lane with
    | none => exact ⟨0, by simp [spike]⟩
    | some i => exact ⟨i, by simp [spike]⟩
  · rw [spike]
    split_ifs with h hsome hsome
    · norm_num
    · rw [← h] at hsome
      exact absurd rfl hsome
    · norm_num
    · norm_num

/-- The bytes of a spike: 127 in its lane, and a scale of 1. -/
theorem quantize_spike (f16c : Option F16c) (lane : Option (Fin 32)) :
    (quantize f16c (spike lane)).scaleBits = (if lane.isSome then 0x3c00 else 0) ∧
    scaleOf (quantize f16c (spike lane)) = (if lane.isSome then 1 else 0) ∧
    ∀ i, (quantize f16c (spike lane)).values i = if some i = lane then 127 else 0 := by
  have hmaximum := maximumScalar_spike lane
  have hbits : exactToHalf (maximumScalar (spike lane) / 127) = if lane.isSome then 0x3c00 else 0 := by
    rw [hmaximum]
    cases lane with
    | none =>
      show exactToHalf (0 / 127) = 0
      decide +kernel
    | some i =>
      show exactToHalf (127 / 127) = 0x3c00
      decide +kernel
  have hscale : scaleOf (quantizeScalar (spike lane)) = if lane.isSome then 1 else 0 := by
    show (match halfToFloat (exactToHalf (maximumScalar (spike lane) / 127)) with
      | some bits => Format.single.value bits.toNat
      | none => 0) = _
    rw [hbits]
    cases lane with
    | none =>
      show (match halfToFloat 0 with
        | some bits => Format.single.value bits.toNat
        | none => 0) = 0
      decide +kernel
    | some i =>
      rw [Option.isSome_some, if_pos rfl, if_pos rfl]
      decide +kernel
  have hproduct (i : Fin 32) : spike lane i * inverse (maximumScalar (spike lane)) =
      if some i = lane then 127 else 0 := by
    rw [hmaximum, spike]
    split_ifs with h hsome hsome
    · norm_num [inverse]
    · rw [← h] at hsome
      exact absurd rfl hsome
    · rw [zero_mul]
    · rw [zero_mul]
  cases f16c with
  | none =>
    refine ⟨hbits, hscale, fun i => ?_⟩
    show Int8.ofInt (roundf (spike lane i * inverse (maximumScalar (spike lane)))) = _
    rw [hproduct]
    split_ifs <;> decide +kernel
  | some f16c =>
    obtain ⟨hbits', hscale'⟩ := quantizeAvx2_scale f16c (spike lane)
    refine ⟨hbits'.trans hbits, ?_, fun i => ?_⟩
    · show (match (quantizeAvx2 f16c (spike lane)).scale with
        | some bits => Format.single.value bits.toNat
        | none => 0) = _
      rw [hscale']
      exact hscale
    · show (quantizeAvx2 f16c (spike lane)).values i = _
      rw [quantizeAvx2_values, hproduct]
      split_ifs <;> decide +kernel

/-- No other byte of the block is 127. -/
theorem lane_of_blockByte {f16c : Option F16c} {lane : Option (Fin 32)} {k : ℕ}
    (h : (blockByte (quantize f16c (spike lane)) k).toInt = 127) :
    2 ≤ k ∧ some ⟨(k - 2) % 32, Nat.mod_lt _ (by decide)⟩ = lane := by
  obtain ⟨hbits, -, hvalues⟩ := quantize_spike f16c lane
  rw [blockByte, hbits, hvalues] at h
  split_ifs at h with h0 hsome h1 hsome hlane
  · exact absurd h (by decide)
  · exact absurd h (by decide)
  · exact absurd h (by decide)
  · exact absurd h (by decide)
  · exact ⟨by omega, hlane⟩
  · exact absurd h (by decide)

/-- The numbers of a layer that are zero but for one of them. -/
def spikeWork (r : Rows) (head index : ℕ) : ℕ → ℚ := fun j => if j = head * r.width + (index - 1) then 127 else 0

/-- The blocks that they give. -/
theorem rowBlocks_spikeWork (f16c : Option F16c) (r : Rows) {head index : ℕ} (hone : 1 ≤ index)
    (hle : index ≤ r.width) (head' : ℕ) {b : ℕ} (hb : b < r.blocks) :
    rowBlocks f16c r (spikeWork r head index) head' b = quantize f16c (spike
      (if head' = head ∧ b = (index - 1) / 32 then some ⟨(index - 1) % 32, Nat.mod_lt _ (by decide)⟩ else none)) := by
  have hwidth := r.width_eq
  rw [rowBlocks]
  congr 1
  funext i
  rw [spikeWork, spike]
  refine if_congr ?_ rfl rfl
  constructor
  · intro heq
    have hhead : head' = head := by
      rcases Nat.lt_trichotomy head' head with hlt | heq' | hgt
      · have := Nat.mul_le_mul_right r.width hlt
        rw [Nat.succ_mul] at this
        omega
      · exact heq'
      · have := Nat.mul_le_mul_right r.width hgt
        rw [Nat.succ_mul] at this
        omega
    subst hhead
    rw [if_pos ⟨rfl, by omega⟩]
    exact congrArg some (Fin.ext (show i.val = (index - 1) % 32 by omega))
  · intro heq
    split_ifs at heq with hblock
    obtain ⟨rfl, rfl⟩ := hblock
    have hi : i.val = (index - 1) % 32 := congrArg Fin.val (Option.some.inj heq)
    omega

/-! ### Reading back -/

/-- An element of a row. -/
structure Element (r : Rows) where
  position : ℕ
  head : ℕ
  index : ℕ
  position_lt : position < r.context
  head_lt : head < r.heads
  one_le_index : 1 ≤ index
  index_le : index ≤ r.width

/-- Whatever is stored for a position, and for other positions later, both routines find an element of it. -/
def ReadsBack (f16c : Option F16c) (r : Rows) (e : Element r) : Prop :=
  ∀ c work output, ∃ stored, store f16c r c e.position work = some stored ∧
    ∀ calls c', (∀ call ∈ calls, call.1 ≠ e.position) → storeAll f16c r calls stored = some c' →
      keyValue r c' e.head e.position e.index = some (written (rowBlocks f16c r work e.head) e.index) ∧
      ∃ output', dequantize r c' e.head e.position output = some output' ∧
        output' (e.position * r.width + e.index) = written (rowBlocks f16c r work e.head) e.index

/-- Behind the first 31 elements the accessor finds something else than the only number of a row. -/
theorem keyValue_spike_ne {f16c : Option F16c} {r : Rows} (e : Element r) (hindex : 32 ≤ e.index) {stored : Cache}
    (hstore : store f16c r ⟨fun _ => 0, fun _ => 0⟩ e.position (spikeWork r e.head e.index) = some stored) :
    keyValue r stored e.head e.position e.index ≠
      some (written (rowBlocks f16c r (spikeWork r e.head e.index) e.head) e.index) := by
  obtain ⟨position, head, index, hposition, hhead, hone, hle⟩ := e
  dsimp only at hstore hindex ⊢
  have hwidth := r.width_eq
  have hrow := r.row_eq
  obtain ⟨-, hstored, hframed⟩ := store_spec hstore
  have hblocks (head' : ℕ) {b : ℕ} (hb : b < r.blocks) :=
    @rowBlocks_spikeWork f16c r head index hone hle head' b hb
  have hone' : 1 ≤ index / 32 := (Nat.one_le_div_iff (by decide)).mpr hindex
  have hlast : (index - 1) / 32 < r.blocks := by omega
  have hwritten : written (rowBlocks f16c r (spikeWork r head index) head) index = 127 := by
    obtain ⟨-, hscale, hvalues⟩ := quantize_spike f16c (some ⟨(index - 1) % 32, Nat.mod_lt _ (by decide)⟩)
    rw [written, hblocks head hlast, if_pos ⟨rfl, rfl⟩, hscale, hvalues, if_pos rfl, Option.isSome_some,
      if_pos rfl, one_mul]
    rfl
  have hscale : stored.scales (r.front position head * r.blocks + index / 32 + 1) =
      if index / 32 = (index - 1) / 32 then 1 else 0 := by
    rcases Nat.lt_or_ge (index / 32) r.blocks with hlt | hge
    · obtain ⟨-, hscale, -⟩ := quantize_spike f16c
        (if head = head ∧ index / 32 = (index - 1) / 32 then some ⟨(index - 1) % 32, Nat.mod_lt _ (by decide)⟩ else none)
      rw [(hstored head hhead).scales _ hlt, hblocks head hlt, hscale]
      refine if_congr ?_ rfl rfl
      by_cases heq : index / 32 = (index - 1) / 32
      · exact iff_of_true (by rw [if_pos ⟨rfl, heq⟩]; rfl) heq
      · exact iff_of_false (by rw [if_neg fun h => heq h.2]; exact Bool.false_ne_true) heq
    · -- the first block of the next row
      rw [if_neg (by omega)]
      have haddress : r.front position head * r.blocks + index / 32 + 1 =
          r.front position (head + 1) * r.blocks + 0 + 1 := by
        have hnext : r.front position (head + 1) = r.front position head + 1 := rfl
        rw [hnext, Nat.succ_mul]
        omega
      rw [haddress]
      by_cases hnext : head + 1 < r.heads
      · obtain ⟨-, hscale, -⟩ := quantize_spike f16c none
        rw [(hstored _ hnext).scales 0 r.blocks_pos, hblocks _ r.blocks_pos,
          if_neg fun h => absurd h.1 (Nat.succ_ne_self head), hscale]
        rfl
      · refine hframed.scales _ fun h => h.2.not_gt ?_
        have hend : r.front (position + 1) 0 = r.front position (head + 1) := by
          rw [Rows.front, Rows.front, Nat.succ_mul]
          omega
        rw [hend]
        omega
  intro hread
  rw [hwritten] at hread
  obtain ⟨qvalue, hqvalue, hrest⟩ := Option.bind_eq_some_iff.mp hread
  obtain ⟨scale, hload, hproduct⟩ := Option.bind_eq_some_iff.mp hrest
  have hproduct := Option.some.inj hproduct
  rw [load] at hload hqvalue
  split_ifs at hload hqvalue
  obtain rfl := Option.some.inj hload
  obtain rfl := Option.some.inj hqvalue
  rw [hscale] at hproduct
  split_ifs at hproduct with hsame
  · -- the scale is right, so the byte is in another place
    have haddress : r.front position head * r.row + 2 + index =
        r.front position head * r.row + (index + 1) / 34 * 34 + (index + 1) % 34 + 1 := by
      omega
    have hbyte := (hstored head hhead).bytes ((index + 1) / 34) (by omega) ((index + 1) % 34)
      (Nat.mod_lt _ (by decide))
    rw [← haddress, hblocks head (by omega)] at hbyte
    rw [one_mul, hbyte] at hproduct
    obtain ⟨htwo, hlane⟩ := lane_of_blockByte (by exact_mod_cast hproduct)
    split_ifs at hlane with hblock
    have := congrArg Fin.val (Option.some.inj hlane)
    dsimp only at this
    omega
  · rw [zero_mul] at hproduct
    exact absurd hproduct (by norm_num)

/-- The two routines find what was stored at the first 31 indices of a row, as long as no index overflows. -/
theorem readsBack_iff (f16c : Option F16c) (r : Rows) (e : Element r) :
    ReadsBack f16c r e ↔ e.index < 32 ∧ StoreFits r e.position ∧ ReadFits r e.position e.head := by
  classical
  constructor
  · intro h
    obtain ⟨stored, hstore, hread⟩ := h ⟨fun _ => 0, fun _ => 0⟩ (spikeWork r e.head e.index) fun _ => 0
    obtain ⟨haccessor, output', houtput, -⟩ := hread [] stored (fun _ h => absurd h List.not_mem_nil) rfl
    refine ⟨not_le.mp fun hindex => keyValue_spike_ne e hindex hstore haccessor, (store_spec hstore).1, ?_⟩
    by_contra hfits
    rw [dequantize_eq _ _ e.position_lt e.head_lt, if_neg hfits] at houtput
    cases houtput
  · rintro ⟨hindex, hstoreFits, hreadFits⟩ c work output
    refine ⟨_, (store_eq f16c r c e.position work).trans (if_pos hstoreFits), fun calls c' hcalls hrun => ?_⟩
    have hstored := (foldl_storeHead f16c r e.position r.heads work c).1 e.head e.head_lt
    have hlater := hstored.storeAll e.head_lt calls hcalls hrun
    exact ⟨hlater.keyValue e.position_lt e.head_lt hreadFits e.one_le_index hindex,
      hlater.dequantize e.position_lt e.head_lt hreadFits e.one_le_index e.index_le output⟩

/-- The bytes of a row. -/
def byteRange (r : Rows) (position head : ℕ) : Set ℕ :=
  {j | r.front position head * r.row < j ∧ j ≤ (r.front position head + 1) * r.row}

/-- The rows of a cache do not overlap. -/
theorem disjoint_byteRange {r : Rows} {position position' head head' : ℕ} (hhead : head < r.heads)
    (hhead' : head' < r.heads) (h : (position, head) ≠ (position', head')) :
    Disjoint (byteRange r position head) (byteRange r position' head') := by
  have hne : r.front position head ≠ r.front position' head' := by
    intro heq
    refine h ?_
    have hdiv := congrArg (· / r.heads) heq
    have hmod := congrArg (· % r.heads) heq
    simp only [Rows.front, Nat.mul_comm _ r.heads, Nat.mul_add_div r.heads_pos,
      Nat.div_eq_of_lt hhead, Nat.div_eq_of_lt hhead', Nat.mul_add_mod, Nat.mod_eq_of_lt hhead,
      Nat.mod_eq_of_lt hhead', Nat.add_zero] at hdiv hmod
    rw [hdiv, hmod]
  refine Set.disjoint_left.mpr fun j hj hj' => ?_
  rcases Nat.lt_or_gt_of_ne hne with hlt | hgt
  · have := Nat.mul_le_mul_right r.row hlt
    exact absurd (hj.2.trans this) hj'.1.not_ge
  · have := Nat.mul_le_mul_right r.row hgt
    exact absurd (hj'.2.trans this) hj.1.not_ge

/-- Both routines find what was stored exactly at the first 31 indices of a row and where no index overflows;
no row is changed when another one is stored. -/
theorem cache_layout (f16c : Option F16c) (r : Rows) (e : Element r) :
    (ReadsBack f16c r e ↔ e.index < 32 ∧ StoreFits r e.position ∧ ReadFits r e.position e.head) ∧
    (∀ c work, ∀ j ∉ byteRange r e.position e.head,
      (storeHead f16c r e.position work c e.head).bytes j = c.bytes j) ∧
    ∀ e' : Element r, (e.position, e.head) ≠ (e'.position, e'.head) →
      Disjoint (byteRange r e.position e.head) (byteRange r e'.position e'.head) :=
  ⟨readsBack_iff f16c r e,
    fun c work j hj => (storeHead_spec f16c r e.position e.head work c).2.bytes j hj,
    fun e' h => disjoint_byteRange e.head_lt e'.head_lt h⟩

/-- One head of 64 elements and room for one position. -/
def smallRows : Rows := ⟨1, 64, 1, by decide, by decide, by decide⟩

/-- The last element of the first block is not found. -/
theorem not_readsBack_smallRows :
    ¬ ReadsBack none smallRows ⟨0, 0, 32, by decide, by decide, by decide, by decide⟩ :=
  fun h => absurd ((readsBack_iff none smallRows _).mp h).1 (by decide)

end KeyValue

end Qwen35

end FortAI
