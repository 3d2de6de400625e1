import FortAI.Machine.Riff
import FortAI.Whisper.Wav

/-!
# The chunks of a WAV file

The walk over the chunks of a file, as they stand in it.

* `absorb` : what a chunk says, from its payload.
* `turn_chunk`, `walk_chunks` : the walk goes from a chunk to the next one.
* `walk_cases` : how the walk ends.
* `Carries`, `walk_iff_carries` : the format and the samples that the walk finds.
-/

namespace FortAI

namespace Whisper

namespace Wav

open Binary Storage Riff

variable {raw front rest : Bytes} {w : Walk} {c last : Chunk} {chunks : List Chunk} {fuel i n : ℕ}

/-! ### Numbers -/

theorem drop_front (hraw : raw = front ++ rest) (n : ℕ) : raw.drop (front.length + n) = rest.drop n := by
  rw [hraw, ← List.drop_drop, List.drop_left]

theorem unsigned_take_succ (s : Bytes) (i n : ℕ) :
    unsigned ((s.drop i).take (n + 1)) =
      unsigned ((s.drop i).take 1) + 256 * unsigned ((s.drop (i + 1)).take n) := by
  rw [← List.drop_drop]
  cases s.drop i with
  | nil => rw [List.take_nil, List.take_nil, List.drop_nil, List.take_nil]; rfl
  | cons b s => rfl

theorem wavByte_eq (h : i + 1 ≤ raw.length) :
    wavByte raw (i + 1) = .ok (unsigned ((raw.drop i).take 1)) := by
  rw [wavByte, if_neg (by omega), substring_eq h]
  rfl

theorem wavU16_eq (h : i + 2 ≤ raw.length) :
    wavU16 raw (i + 1) = .ok (unsigned ((raw.drop i).take 2)) := by
  rw [wavU16, wavByte_eq (by omega), wavByte_eq (by omega), unsigned_take_succ raw i 1]
  generalize unsigned ((raw.drop i).take 1) = first
  generalize unsigned ((raw.drop (i + 1)).take 1) = second
  have hneg : ¬ ((first : ℤ) < 0 ∨ (second : ℤ) < 0) := by omega
  show Except.ok (if (first : ℤ) < 0 ∨ (second : ℤ) < 0 then -1 else (first : ℤ) + second * 2 ^ 8) = _
  rw [if_neg hneg]
  congr 1
  push_cast
  omega

theorem wavU32_eq (h : i + 4 ≤ raw.length) :
    wavU32 raw (i + 1) = .ok (unsigned ((raw.drop i).take 4)) := by
  rw [wavU32, wavByte_eq (by omega), wavByte_eq (i := i + 1) (by omega), wavByte_eq (i := i + 2) (by omega),
    wavByte_eq (i := i + 3) (by omega), unsigned_take_succ raw i 3, unsigned_take_succ raw (i + 1) 2,
    unsigned_take_succ raw (i + 2) 1]
  generalize unsigned ((raw.drop i).take 1) = first
  generalize unsigned ((raw.drop (i + 1)).take 1) = second
  generalize unsigned ((raw.drop (i + 2)).take 1) = third
  generalize unsigned ((raw.drop (i + 3)).take 1) = fourth
  have hneg : ¬ ((first : ℤ) < 0 ∨ (second : ℤ) < 0 ∨ (third : ℤ) < 0 ∨ (fourth : ℤ) < 0) := by omega
  show Except.ok (if (first : ℤ) < 0 ∨ (second : ℤ) < 0 ∨ (third : ℤ) < 0 ∨ (fourth : ℤ) < 0 then -1
    else (first : ℤ) + second * 2 ^ 8 + third * 2 ^ 16 + fourth * 2 ^ 24) = _
  rw [if_neg hneg]
  congr 1
  push_cast
  omega

/-! ### Payloads -/

/-- A number in the payload of a format. -/
def field (p : Bytes) (offset n : ℕ) : ℕ := unsigned ((p.drop offset).take n)

def audioFormat (p : Bytes) : ℕ := field p 0 2

def channels (p : Bytes) : ℕ := field p 2 2

def sampleRate (p : Bytes) : ℕ := field p 4 4

def blockAlign (p : Bytes) : ℕ := field p 12 2

def bitsPerSample (p : Bytes) : ℕ := field p 14 2

/-- The payload of a chunk, where it stands in the file. -/
theorem drop_chunk (hraw : raw = front ++ (c.body ++ rest)) (n : ℕ) :
    raw.drop (front.length + 8 + n) = (c.payload ++ rest).drop n := by
  have hhead : c.body ++ rest = (c.id ++ littleEndian 4 c.payload.length) ++ (c.payload ++ rest) := by
    rw [Chunk.body, List.append_assoc, List.append_assoc, List.append_assoc]
  have hlength : (c.id ++ littleEndian 4 c.payload.length).length = 8 := by
    rw [List.length_append, c.length_id, length_littleEndian]
  rw [Nat.add_assoc, drop_front hraw, hhead, ← hlength, ← List.drop_drop, List.drop_left]

theorem field_eq (hraw : raw = front ++ (c.body ++ rest)) (offset n : ℕ) (h : offset + n ≤ c.payload.length) :
    unsigned ((raw.drop (front.length + 8 + offset)).take n) = field c.payload offset n := by
  rw [drop_chunk hraw, List.drop_append_of_le_length (by omega),
    List.take_append_of_le_length (by rw [List.length_drop]; omega)]
  rfl

theorem length_of_chunk (hraw : raw = front ++ (c.body ++ rest)) :
    raw.length = front.length + 8 + c.payload.length + rest.length := by
  rw [hraw, List.length_append, List.length_append, Chunk.length_body]
  omega

theorem sizeAt_eq (hraw : raw = front ++ rest) (h : 8 ≤ rest.length) :
    wavU32 raw (front.length + 1 + 4) = .ok (sizeAt rest) := by
  have hlength : raw.length = front.length + rest.length := by rw [hraw, List.length_append]
  have hposition : front.length + 1 + 4 = front.length + 4 + 1 := by omega
  rw [hposition, wavU32_eq (by omega), drop_front hraw]
  rfl

/-! ### A turn -/

/-- The variables after a chunk. -/
def absorb (w : Walk) (c : Chunk) : Walk :=
  let next :=
    if c.id = fmtId then
      { w with
        audioFormat := audioFormat c.payload
        channels := channels c.payload
        sampleRate := sampleRate c.payload
        blockAlign := blockAlign c.payload
        bitsPerSample := bitsPerSample c.payload
        fmtFound := true }
    else if c.id = dataId then
      { w with
        dataStart := w.position + 8
        dataSize := c.payload.length
        dataFound := true }
    else w
  { next with position := w.position + 8 + c.payload.length + c.payload.length % 2 }

def Walk.Complete (w : Walk) : Prop := w.fmtFound = true ∧ w.dataFound = true

theorem fmtId_ne_dataId : fmtId ≠ dataId := by decide

theorem absorb_position (w : Walk) (c : Chunk) :
    (absorb w c).position = w.position + 8 + c.payload.length + c.payload.length % 2 := rfl

theorem absorb_fmtFound (w : Walk) (c : Chunk) :
    (absorb w c).fmtFound = if c.id = fmtId then true else w.fmtFound := by
  rw [absorb]
  split_ifs <;> rfl

theorem absorb_dataFound (w : Walk) (c : Chunk) :
    (absorb w c).dataFound = if c.id = dataId then true else w.dataFound := by
  rw [absorb]
  by_cases hfmt : c.id = fmtId
  · rw [if_pos hfmt, if_neg (hfmt ▸ fmtId_ne_dataId)]
  · rw [if_neg hfmt]
    split_ifs <;> rfl

/-- A chunk that says nothing new leaves the walk complete. -/
theorem Walk.Complete.absorb (h : w.Complete) (c : Chunk) : (absorb w c).Complete := by
  refine ⟨?_, ?_⟩
  · rw [absorb_fmtFound, h.1, ite_self]
  · rw [absorb_dataFound, h.2, ite_self]

theorem Walk.Complete.foldl (h : w.Complete) (chunks : List Chunk) : (chunks.foldl Wav.absorb w).Complete := by
  induction chunks generalizing w with
  | nil => exact h
  | cons c chunks ih => exact ih (h.absorb c)

/-- The formats of these chunks are long enough. -/
def LongFmt (chunks : List Chunk) : Prop := ∀ c ∈ chunks, c.id = fmtId → 16 ≤ c.payload.length

theorem readFmt_eq (hraw : raw = front ++ (c.body ++ rest)) (hposition : w.position = front.length + 1)
    (hlong : 16 ≤ c.payload.length) : readFmt raw w c.payload.length = .ok { w with
      audioFormat := audioFormat c.payload
      channels := channels c.payload
      sampleRate := sampleRate c.payload
      blockAlign := blockAlign c.payload
      bitsPerSample := bitsPerSample c.payload
      fmtFound := true } := by
  have hlength := length_of_chunk hraw
  have h16 (offset : ℕ) (h : offset + 2 ≤ 16) :
      wavU16 raw (w.position + (8 + offset)) = .ok (field c.payload offset 2) := by
    have hat : w.position + (8 + offset) = front.length + 8 + offset + 1 := by omega
    rw [hat, wavU16_eq (i := front.length + 8 + offset) (by omega), field_eq hraw offset 2 (by omega)]
  have h32 : wavU32 raw (w.position + 12) = .ok (field c.payload 4 4) := by
    have hat : w.position + 12 = front.length + 8 + 4 + 1 := by omega
    rw [hat, wavU32_eq (i := front.length + 8 + 4) (by omega), field_eq hraw 4 4 (by omega)]
  rw [readFmt, if_neg (by omega), h32, h16 0 (by omega), h16 2 (by omega), h16 12 (by omega), h16 14 (by omega)]
  show (if (w.position : ℤ) + 8 + c.payload.length ≤ w.position then _ else _) = _
  rw [if_neg (by omega)]
  rfl

theorem turn_eq (hsize : wavU32 raw (w.position + 4) = .ok (n : ℤ)) : turn raw w =
    if w.position + 8 + n > raw.length + 1 then .ok (w, false)
    else (readChunk raw w n).bind fun next =>
      .ok ({ next with position := w.position + 8 + n + n % 2 }, !(next.fmtFound && next.dataFound)) := by
  rw [turn, hsize]
  show (if (n : ℤ) < 0 then .ok (w, false) else if w.position + 8 + (n : ℤ).toNat > raw.length + 1 then .ok (w, false)
    else (readChunk raw w n).bind fun next =>
      .ok ({ next with position := w.position + 8 + (n : ℤ).toNat + (n : ℤ).toNat % 2 },
        !(next.fmtFound && next.dataFound)) : Checked WavError (Walk × Bool)) = _
  rw [if_neg (by omega), Int.toNat_natCast]

/-- The identifier and the length of the chunk that stands at the position. -/
theorem head_chunk (hraw : raw = front ++ (c.body ++ rest)) (hposition : w.position = front.length + 1) :
    wavU32 raw (w.position + 4) = .ok (c.payload.length : ℤ) ∧
      (substring raw w.position (w.position + 3) : Checked WavError Bytes) = .ok c.id ∧
      ¬ w.position + 8 + c.payload.length > raw.length + 1 := by
  have hlength := length_of_chunk hraw
  refine ⟨?_, ?_, by omega⟩
  · rw [hposition, sizeAt_eq hraw (by rw [List.length_append, Chunk.length_body]; omega), sizeAt_body]
  · have hat : w.position + 3 = front.length + 4 := by omega
    have htake : (raw.drop front.length).take 4 = c.id := by
      rw [hraw, List.drop_left, Chunk.body, List.append_assoc, List.take_left' c.length_id]
    rw [hat, hposition, substring_eq (by omega), htake]

/-- One turn reads the chunk that stands at the position. -/
theorem turn_chunk (hraw : raw = front ++ (c.body ++ rest)) (hposition : w.position = front.length + 1)
    (hlong : c.id = fmtId → 16 ≤ c.payload.length) :
    turn raw w = .ok (absorb w c, !((absorb w c).fmtFound && (absorb w c).dataFound)) := by
  obtain ⟨hsize, hid, hroom⟩ := head_chunk hraw hposition
  have hchunk : readChunk raw w c.payload.length = .ok { absorb w c with position := w.position } := by
    rw [readChunk, hid, absorb]
    by_cases hfmt : c.id = fmtId
    · rw [if_pos hfmt, ← readFmt_eq hraw hposition (hlong hfmt)]
      exact if_pos hfmt
    · rw [if_neg hfmt]
      refine (if_neg hfmt).trans ?_
      show Except.ok (if c.id = dataId then _ else _) = _
      split_ifs <;> rfl
  rw [turn_eq hsize, if_neg hroom, hchunk]
  rfl

/-- A format that is too short ends it all. -/
theorem turn_short (hraw : raw = front ++ (c.body ++ rest)) (hposition : w.position = front.length + 1)
    (hfmt : c.id = fmtId) (hshort : c.payload.length < 16) : turn raw w = .error (.refused .truncatedFmt) := by
  obtain ⟨hsize, hid, hroom⟩ := head_chunk hraw hposition
  have hchunk : readChunk raw w c.payload.length = .error (.refused .truncatedFmt) := by
    rw [readChunk, hid]
    refine (if_pos hfmt).trans ?_
    rw [readFmt, if_pos (by omega)]
  rw [turn_eq hsize, if_neg hroom, hchunk]
  rfl

/-- A chunk that is not all in the file ends the walk. -/
theorem turn_stop (hraw : raw = front ++ rest) (hposition : w.position = front.length + 1) (h : 8 ≤ rest.length)
    (hroom : rest.length < 8 + sizeAt rest) : turn raw w = .ok (w, false) := by
  have hlength : raw.length = front.length + rest.length := by rw [hraw, List.length_append]
  have hsize : wavU32 raw (w.position + 4) = .ok (sizeAt rest : ℤ) := by rw [hposition, sizeAt_eq hraw h]
  rw [turn_eq hsize, if_pos (by omega)]

/-! ### The walk -/

theorem walk_end (h : raw.length < w.position + 7) : walk raw fuel w = .ok w := by
  cases fuel with
  | zero => rfl
  | succ fuel => rw [walk, if_neg (by omega)]

theorem walk_next {next : Walk} {again : Bool} (h : w.position + 7 ≤ raw.length) (hturn : turn raw w = .ok (next, again)) :
    walk raw (fuel + 1) w = if again then walk raw fuel next else .ok next := by
  rw [walk, if_pos h, hturn]
  rfl

/-- The walk goes on behind a chunk, until it is complete. -/
theorem walk_chunk (fuel : ℕ) (hraw : raw = front ++ (c.body ++ rest)) (hposition : w.position = front.length + 1)
    (hlong : c.id = fmtId → 16 ≤ c.payload.length) :
    ((absorb w c).Complete → walk raw (fuel + 1) w = .ok (absorb w c)) ∧
      (¬ (absorb w c).Complete → walk raw (fuel + 1) w = walk raw fuel (absorb w c)) := by
  have hlength := length_of_chunk hraw
  have hagain : (!((absorb w c).fmtFound && (absorb w c).dataFound)) = true ↔ ¬ (absorb w c).Complete := by
    rw [Bool.not_eq_true', ← Bool.not_eq_true, Bool.and_eq_true, Walk.Complete]
  rw [walk_next (by omega) (turn_chunk hraw hposition hlong)]
  exact ⟨fun h => if_neg (hagain.not.mpr (not_not.mpr h)), fun h => if_pos (hagain.mpr h)⟩

theorem position_absorb (hposition : w.position = front.length + 1) (c : Chunk) :
    (absorb w c).position = (front ++ c.bytes).length + 1 := by
  rw [absorb_position, List.length_append, Chunk.length_bytes]
  omega

/-- The walk over chunks that leave it incomplete. -/
theorem walk_chunks (hraw : raw = front ++ (encodeChunks chunks ++ rest)) (hposition : w.position = front.length + 1)
    (hlong : LongFmt chunks) (hopen : ¬ (chunks.foldl absorb w).Complete) :
    walk raw (fuel + chunks.length) w = walk raw fuel (chunks.foldl absorb w) := by
  induction chunks generalizing w front with
  | nil => rfl
  | cons c chunks ih =>
    have hraw' : raw = front ++ (c.body ++ (c.padding ++ (encodeChunks chunks ++ rest))) := by
      rw [hraw, encodeChunks_cons, Chunk.bytes, List.append_assoc, List.append_assoc]
    have hnext : raw = front ++ c.bytes ++ (encodeChunks chunks ++ rest) := by
      rw [hraw', Chunk.bytes, List.append_assoc, List.append_assoc]
    have hwalk := (walk_chunk (fuel + chunks.length) hraw' hposition (hlong c List.mem_cons_self)).2
      fun h => hopen (h.foldl chunks)
    rw [List.length_cons, ← Nat.add_assoc, hwalk]
    exact ih hnext (position_absorb hposition c) (fun d hd => hlong d (List.mem_cons_of_mem c hd)) hopen

/-- How the walk ends: at a format that is too short, incomplete, or behind the chunk that makes it complete. -/
theorem walk_cases (fuel : ℕ) (hraw : raw = front ++ rest) (hposition : w.position = front.length + 1) (hopen : ¬ w.Complete) :
    walk raw fuel w = .error (.refused .truncatedFmt) ∨
      (∃ w', walk raw fuel w = .ok w' ∧ ¬ w'.Complete) ∨
      ∃ chunks last after, rest = encodeChunks chunks ++ (last.body ++ after) ∧ LongFmt (chunks ++ [last]) ∧
        (¬ (chunks.foldl absorb w).Complete) ∧ (absorb (chunks.foldl absorb w) last).Complete ∧
        walk raw fuel w = .ok (absorb (chunks.foldl absorb w) last) := by
  induction fuel generalizing w front rest with
  | zero => exact .inr (.inl ⟨w, rfl, hopen⟩)
  | succ fuel ih =>
    have hlength : raw.length = front.length + rest.length := by rw [hraw, List.length_append]
    rcases Nat.lt_or_ge rest.length 8 with hend | h8
    · exact .inr (.inl ⟨w, walk_end (by omega), hopen⟩)
    rcases Nat.lt_or_ge rest.length (8 + sizeAt rest) with hroom | hroom
    · refine .inr (.inl ⟨w, ?_, hopen⟩)
      rw [walk_next (by omega) (turn_stop hraw hposition h8 hroom)]
      rfl
    obtain ⟨c, after, hrest, -, hpad⟩ := exists_chunk hroom
    have hraw' : raw = front ++ (c.body ++ after) := by rw [hraw, hrest]
    by_cases hlong : c.id = fmtId → 16 ≤ c.payload.length
    · obtain ⟨hcomplete, hnext⟩ := walk_chunk fuel hraw' hposition hlong
      have hone : LongFmt [c] := fun d hd => by
        rw [List.mem_singleton.mp hd]
        exact hlong
      by_cases hdone : (absorb w c).Complete
      · exact .inr (.inr ⟨[], c, after, hrest, hone, hopen, hdone, hcomplete hdone⟩)
      rw [hnext hdone]
      -- nothing stands behind the last chunk of an odd length without its byte
      by_cases hpadding : c.padding ++ after.drop c.padding.length = after
      · have hsplit : raw = front ++ c.bytes ++ after.drop c.padding.length := by
          rw [hraw', Chunk.bytes, List.append_assoc, List.append_assoc, hpadding]
        rcases ih hsplit (position_absorb hposition c) hdone with h | h | h
        · exact .inl h
        · exact .inr (.inl h)
        · obtain ⟨chunks, last, after', hafter, hlong', hopen', hdone', hwalk⟩ := h
          refine .inr (.inr ⟨c :: chunks, last, after', ?_, ?_, hopen', hdone', hwalk⟩)
          · rw [hrest, encodeChunks_cons, Chunk.bytes, List.append_assoc, List.append_assoc, ← hafter, hpadding]
          · intro d hd
            rcases List.mem_cons.mp hd with rfl | hd
            · exact hlong
            · exact hlong' d hd
      · refine .inr (.inl ⟨_, walk_end ?_, hdone⟩)
        have hnil : after = [] := by
          by_contra hne
          apply hpadding
          obtain ⟨x, xs, rfl⟩ := List.exists_cons_of_ne_nil hne
          rw [Chunk.padding, hpad hne]
          split_ifs <;> rfl
        have hodd : c.payload.length % 2 ≠ 0 := by
          intro heven
          apply hpadding
          rw [Chunk.padding, if_neg (by omega)]
          rfl
        have hsize := length_of_chunk hraw'
        rw [hnil, List.length_nil] at hsize
        rw [absorb_position]
        omega
    · push Not at hlong
      refine .inl ?_
      rw [walk, if_pos (by omega), turn_short hraw' hposition hlong.1 hlong.2]
      rfl

/-! ### What the walk finds -/

/-- The variables are those of the chunks that have been read. -/
structure Reads (raw : Bytes) (w : Walk) (chunks : List Chunk) : Prop where
  fmtFound : w.fmtFound = (payloadOf fmtId chunks).isSome
  fmt : ∀ p, payloadOf fmtId chunks = some p → w.audioFormat = audioFormat p ∧ w.channels = channels p ∧
    w.sampleRate = sampleRate p ∧ w.blockAlign = blockAlign p ∧ w.bitsPerSample = bitsPerSample p
  dataFound : w.dataFound = (payloadOf dataId chunks).isSome
  data : ∀ d, payloadOf dataId chunks = some d → w.dataSize = d.length ∧
    ∃ i, w.dataStart = i + 1 ∧ i + d.length ≤ raw.length ∧ (raw.drop i).take d.length = d

theorem Reads.absorb (h : Reads raw w chunks) (hraw : raw = front ++ (c.body ++ rest))
    (hposition : w.position = front.length + 1) : Reads raw (absorb w c) (chunks ++ [c]) := by
  refine ⟨?_, fun p hp => ?_, ?_, fun d hd => ?_⟩
  · rw [absorb_fmtFound, payloadOf_concat, h.fmtFound]
    split_ifs <;> rfl
  · rw [payloadOf_concat] at hp
    rw [Wav.absorb]
    split_ifs at hp ⊢ with hfmt hdata
    · rw [← Option.some_inj.mp hp]
      exact ⟨rfl, rfl, rfl, rfl, rfl⟩
    · exact h.fmt p hp
    · exact h.fmt p hp
  · rw [absorb_dataFound, payloadOf_concat, h.dataFound]
    split_ifs <;> rfl
  · rw [payloadOf_concat] at hd
    have hlength := length_of_chunk hraw
    rw [Wav.absorb]
    by_cases hdata : c.id = dataId
    · have hfmt : c.id ≠ fmtId := fun hfmt => fmtId_ne_dataId (hfmt.symm.trans hdata)
      rw [if_pos hdata, Option.some_inj] at hd
      rw [if_neg hfmt, if_pos hdata, ← hd]
      have hstart : w.position + 8 = front.length + 8 + 1 := by omega
      refine ⟨rfl, front.length + 8, hstart, by omega, ?_⟩
      rw [← Nat.add_zero (front.length + 8), drop_chunk hraw, List.drop_zero, List.take_left]
    · rw [if_neg hdata] at hd
      rw [if_neg hdata]
      split_ifs
      · exact h.data d hd
      · exact h.data d hd

theorem Reads.foldl {more : List Chunk} (h : Reads raw w chunks) (hraw : raw = front ++ (encodeChunks more ++ rest))
    (hposition : w.position = front.length + 1) :
    Reads raw (more.foldl Wav.absorb w) (chunks ++ more) ∧
      (more.foldl Wav.absorb w).position = (front ++ encodeChunks more).length + 1 := by
  induction more generalizing w chunks front with
  | nil =>
    rw [List.append_nil]
    refine ⟨h, ?_⟩
    rw [encodeChunks, List.flatMap_nil, List.append_nil]
    exact hposition
  | cons c more ih =>
    have hraw' : raw = front ++ (c.body ++ (c.padding ++ (encodeChunks more ++ rest))) := by
      rw [hraw, encodeChunks_cons, Chunk.bytes, List.append_assoc, List.append_assoc]
    have hnext : raw = front ++ c.bytes ++ (encodeChunks more ++ rest) := by
      rw [hraw', Chunk.bytes, List.append_assoc, List.append_assoc]
    have hih := ih (h.absorb hraw' hposition) hnext (position_absorb hposition c)
    rw [List.append_assoc] at hih
    rw [encodeChunks_cons, ← List.append_assoc]
    exact hih

theorem reads_start (raw : Bytes) : Reads raw .start [] where
  fmtFound := rfl
  fmt p hp := absurd hp.symm (Option.some_ne_none p)
  dataFound := rfl
  data d hd := absurd hd.symm (Option.some_ne_none d)

/-- The first twelve bytes of a file. -/
def riffHeader (size : Bytes) : Bytes := CString.ascii "RIFF" ++ (size ++ CString.ascii "WAVE")

theorem length_riffHeader {size : Bytes} (h : size.length = 4) : (riffHeader size).length = 12 := by
  rw [riffHeader, List.length_append, List.length_append, h]
  rfl

/-- A file carries a format and samples: behind its header stand chunks, and the first of them with which both
have come is the last one to be read. -/
def Carries (raw p d : Bytes) : Prop :=
  ∃ (size : Bytes) (chunks : List Chunk) (last : Chunk) (after : Bytes), size.length = 4 ∧
    raw = riffHeader size ++ (encodeChunks chunks ++ (last.body ++ after)) ∧ LongFmt (chunks ++ [last]) ∧
    (payloadOf fmtId chunks = none ∨ payloadOf dataId chunks = none) ∧
    payloadOf fmtId (chunks ++ [last]) = some p ∧ payloadOf dataId (chunks ++ [last]) = some d

/-- The walk has found the format and the samples. -/
structure Found (raw : Bytes) (w : Walk) (p d : Bytes) : Prop where
  audioFormat : w.audioFormat = audioFormat p
  channels : w.channels = channels p
  sampleRate : w.sampleRate = sampleRate p
  blockAlign : w.blockAlign = blockAlign p
  bitsPerSample : w.bitsPerSample = bitsPerSample p
  dataSize : w.dataSize = d.length
  dataStart : ∃ i, w.dataStart = i + 1 ∧ i + d.length ≤ raw.length ∧ (raw.drop i).take d.length = d

theorem Reads.found {p d : Bytes} (h : Reads raw w chunks) (hp : payloadOf fmtId chunks = some p)
    (hd : payloadOf dataId chunks = some d) : Found raw w p d := by
  obtain ⟨hformat, hchannels, hrate, halign, hbits⟩ := h.fmt p hp
  exact ⟨hformat, hchannels, hrate, halign, hbits, (h.data d hd).1, (h.data d hd).2⟩

theorem Reads.complete_iff (h : Reads raw w chunks) :
    w.Complete ↔ (payloadOf fmtId chunks).isSome = true ∧ (payloadOf dataId chunks).isSome = true := by
  rw [Walk.Complete, h.fmtFound, h.dataFound]

/-- The variables behind the chunks and the last one. -/
theorem reads_last {size after : Bytes} (hsize : size.length = 4)
    (hraw : raw = riffHeader size ++ (encodeChunks chunks ++ (last.body ++ after))) :
    Reads raw (chunks.foldl absorb .start) chunks ∧
      Reads raw (absorb (chunks.foldl absorb .start) last) (chunks ++ [last]) ∧
      (chunks.foldl absorb .start).position = (riffHeader size ++ encodeChunks chunks).length + 1 := by
  have hstart : Walk.start.position = (riffHeader size).length + 1 := by
    rw [length_riffHeader hsize]
    rfl
  obtain ⟨hreads, hposition⟩ := (reads_start raw).foldl hraw hstart
  rw [← List.append_assoc] at hraw
  exact ⟨hreads, hreads.absorb hraw hposition, hposition⟩

/-- The walk over a file that carries a format and samples finds them. -/
theorem Carries.walk {p d : Bytes} (h : Carries raw p d) :
    ∃ w, walk raw raw.length .start = .ok w ∧ w.Complete ∧ Found raw w p d := by
  obtain ⟨size, chunks, last, after, hsize, hraw, hlong, hopen, hp, hd⟩ := h
  obtain ⟨hreads, hreads', hposition⟩ := reads_last hsize hraw
  have hstart : Walk.start.position = (riffHeader size).length + 1 := by
    rw [length_riffHeader hsize]
    rfl
  have hopen' : ¬ (chunks.foldl absorb .start).Complete := by
    rw [hreads.complete_iff]
    rintro ⟨hfmt, hdata⟩
    rcases hopen with hnone | hnone
    · rw [hnone] at hfmt
      exact absurd hfmt Bool.false_ne_true
    · rw [hnone] at hdata
      exact absurd hdata Bool.false_ne_true
  have hdone : (absorb (chunks.foldl absorb .start) last).Complete := by
    rw [hreads'.complete_iff, hp, hd]
    exact ⟨rfl, rfl⟩
  have hfuel : ∃ fuel, raw.length = fuel + 1 + chunks.length := by
    have hchunks := length_le_encodeChunks chunks
    have hlength : raw.length = 12 + ((encodeChunks chunks).length + (last.body ++ after).length) := by
      rw [hraw, List.length_append, List.length_append, length_riffHeader hsize]
    exact ⟨raw.length - 1 - chunks.length, by omega⟩
  obtain ⟨fuel, hfuel⟩ := hfuel
  refine ⟨_, ?_, hdone, hreads'.found hp hd⟩
  rw [hfuel, walk_chunks hraw hstart (fun c hc => hlong c (List.mem_append_left _ hc)) hopen']
  rw [← List.append_assoc] at hraw
  exact (walk_chunk fuel hraw hposition (hlong last (List.mem_append_right _ List.mem_cons_self))).1 hdone

/-- The walk reports an error, or it ends; it finds a format and samples only where the file carries them. -/
theorem walk_start {size rest : Bytes} (hsize : size.length = 4) (hraw : raw = riffHeader size ++ rest) :
    walk raw raw.length .start = .error (.refused .truncatedFmt) ∨
      ∃ w, walk raw raw.length .start = .ok w ∧ (w.Complete → ∃ p d, Carries raw p d ∧ Found raw w p d) := by
  have hstart : Walk.start.position = (riffHeader size).length + 1 := by
    rw [length_riffHeader hsize]
    rfl
  have hopen : ¬ Walk.start.Complete := fun h => Bool.false_ne_true h.1
  rcases walk_cases raw.length hraw hstart hopen with herror | ⟨w, hwalk, hw⟩ | hfound
  · exact .inl herror
  · exact .inr ⟨w, hwalk, fun h => absurd h hw⟩
  · obtain ⟨chunks, last, after, hrest, hlong, hopen', hdone, hwalk⟩ := hfound
    rw [hrest] at hraw
    obtain ⟨hreads, hreads', -⟩ := reads_last hsize hraw
    obtain ⟨hp, hd⟩ := hreads'.complete_iff.mp hdone
    obtain ⟨p, hp⟩ := Option.isSome_iff_exists.mp hp
    obtain ⟨d, hd⟩ := Option.isSome_iff_exists.mp hd
    refine .inr ⟨_, hwalk, fun _ => ⟨p, d, ⟨size, chunks, last, after, hsize, hraw, hlong, ?_, hp, hd⟩, hreads'.found hp hd⟩⟩
    rw [hreads.complete_iff, not_and_or, Option.not_isSome_iff_eq_none, Option.not_isSome_iff_eq_none] at hopen'
    exact hopen'

end Wav

end Whisper

end FortAI
