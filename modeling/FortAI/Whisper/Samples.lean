import FortAI.Whisper.Chunks
import Mathlib.Algebra.Order.Archimedean.Basic
import Mathlib.Algebra.Order.Field.Basic
import Mathlib.Tactic.Linarith
import Mathlib.Tactic.Ring

/-!
# The samples of a WAV file

A file at 16 kHz is decoded to the means of its frames.  At any other rate `samples`, which the procedure
allocates with no element at its beginning, is allocated again.

* `mix_eq` : the frames are the means of their channels.
* `resample_eq` : the loop behind the second ALLOCATE would give a linear interpolation.
* `decodes_iff` : the files for which the procedure does what it should.
-/

namespace FortAI

namespace Whisper

namespace Wav

open Binary Storage Riff

variable {raw p d : Bytes} {w : Walk} {n i j : ℕ}

/-! ### What the samples are -/

/-- The sample of a channel of a frame. -/
def sample (d : Bytes) (channels frame channel : ℕ) : ℤ :=
  signed .int16 (unsigned ((d.drop (frame * (2 * channels) + 2 * channel)).take 2))

/-- The mean of the channels of a frame. -/
def mean (d : Bytes) (channels frame : ℕ) : ℚ :=
  ((List.range channels).map fun channel => (sample d channels frame channel : ℚ) / 32768).sum / channels

/-- The value at a position between two numbers of the sequence. -/
def interpolate (f : ℕ → ℚ) (x : ℚ) : ℚ :=
  (1 - (x - ⌊x⌋₊)) * f ⌊x⌋₊ + (x - ⌊x⌋₊) * f (⌊x⌋₊ + 1)

/-- The number of frames in the payload of the samples. -/
def frames (p d : Bytes) : ℕ := d.length / (2 * channels p)

/-- The number of frames at 16 kHz. -/
def outputs (n rate : ℕ) : ℕ := 1 + (n - 1) * 16000 / rate

/-- What the samples of a file are to be. -/
def decoded (p d : Bytes) : List ℚ :=
  if sampleRate p = 16000 then (List.range (frames p d)).map (mean d (channels p))
  else (List.range (outputs (frames p d) (sampleRate p))).map fun j : ℕ =>
    interpolate (mean d (channels p)) ((j : ℚ) * sampleRate p / 16000)

/-- Frames of 16 bits in one to 32 channels, at a rate from 1 to 384000, no more of them than are accepted. -/
structure Playable (p d : Bytes) : Prop where
  pcm : audioFormat p = 1
  bits : bitsPerSample p = 16
  channels_pos : 1 ≤ channels p
  channels_le : channels p ≤ 32
  rate_pos : 1 ≤ sampleRate p
  rate_le : sampleRate p ≤ 384000
  align : blockAlign p = 2 * channels p
  nonempty : 1 ≤ d.length
  whole : 2 * channels p ∣ d.length
  fits : frames p d ≤ maxAudioSamples * 24

theorem Playable.frames_mul (h : Playable p d) : frames p d * (2 * channels p) = d.length :=
  Nat.div_mul_cancel h.whole

theorem Playable.frames_pos (h : Playable p d) : 1 ≤ frames p d := by
  have hmul := h.frames_mul
  have hlength := h.nonempty
  rcases Nat.eq_zero_or_pos (frames p d) with hzero | hpos
  · rw [hzero, Nat.zero_mul] at hmul
    omega
  · exact hpos

/-! ### Frames -/

theorem sum_mem {l : List ℚ} (h : ∀ x ∈ l, -1 ≤ x ∧ x ≤ 1) : -(l.length : ℚ) ≤ l.sum ∧ l.sum ≤ l.length := by
  induction l with
  | nil => exact ⟨by rw [List.length_nil, List.sum_nil, Nat.cast_zero, neg_zero], le_rfl⟩
  | cons x l ih =>
    obtain ⟨hlow, hhigh⟩ := ih fun y hy => h y (List.mem_cons_of_mem x hy)
    obtain ⟨hx, hx'⟩ := h x List.mem_cons_self
    rw [List.length_cons, List.sum_cons, Nat.cast_add, Nat.cast_one]
    exact ⟨by linarith, by linarith⟩

theorem sample_mem {channels : ℕ} (hd : i * (2 * channels) + 2 * j + 2 ≤ d.length) :
    -1 ≤ (sample d channels i j : ℚ) / 32768 ∧ (sample d channels i j : ℚ) / 32768 ≤ 1 := by
  have hlength : ((d.drop (i * (2 * channels) + 2 * j)).take 2).length = 2 := by
    rw [List.length_take, List.length_drop]
    omega
  obtain ⟨hlow, hhigh⟩ := signed_mem .int16 (unsigned_lt .int16 hlength)
  have hlow' : (-32768 : ℚ) ≤ sample d channels i j := by exact_mod_cast hlow
  have hhigh' : (sample d channels i j : ℚ) ≤ 32768 := by exact_mod_cast hhigh.le
  constructor
  · rw [le_div_iff₀ (by norm_num)]
    linarith
  · rw [div_le_iff₀ (by norm_num)]
    linarith

/-- The channels of a frame stand inside the payload. -/
theorem channel_le {channels : ℕ} (hmul : n * (2 * channels) ≤ d.length) (hi : i < n) (hj : j < channels) :
    i * (2 * channels) + 2 * j + 2 ≤ d.length := by
  have hframe : (i + 1) * (2 * channels) ≤ n * (2 * channels) := Nat.mul_le_mul_right _ hi
  rw [Nat.succ_mul] at hframe
  omega

theorem mean_mem {channels : ℕ} (hmul : n * (2 * channels) ≤ d.length) (hpos : 1 ≤ channels) (hi : i < n) :
    -1 ≤ mean d channels i ∧ mean d channels i ≤ 1 := by
  have hall : ∀ x ∈ (List.range channels).map fun channel => (sample d channels i channel : ℚ) / 32768,
      -1 ≤ x ∧ x ≤ 1 := by
    intro x hx
    obtain ⟨j, hj, rfl⟩ := List.mem_map.mp hx
    exact sample_mem (channel_le hmul hi (List.mem_range.mp hj))
  obtain ⟨hlow, hhigh⟩ := sum_mem hall
  rw [List.length_map, List.length_range] at hlow hhigh
  have hcast : (0 : ℚ) < channels := by exact_mod_cast hpos
  rw [mean]
  constructor
  · rw [le_div_iff₀ hcast]
    linarith
  · rw [div_le_iff₀ hcast]
    linarith

theorem foldl_add_eq_sum (f : ℕ → ℚ) (l : List ℕ) (x : ℚ) :
    l.foldl (fun sum i => sum + f i) x = x + (l.map f).sum := by
  induction l generalizing x with
  | nil => exact (add_zero x).symm
  | cons i l ih => rw [List.foldl_cons, ih, List.map_cons, List.sum_cons, add_assoc]

/-- A frame is the mean of its channels. -/
theorem mixFrame_eq (h : Found raw w p d) (halign : blockAlign p = 2 * channels p)
    (hmul : n * (2 * channels p) ≤ d.length) (hi : i < n) : mixFrame raw w i = .ok (mean d (channels p) i) := by
  obtain ⟨start, hstart, hroom, hdata⟩ := h.dataStart
  have hbody (mixed : ℚ) (j : ℕ) (hj : j ∈ List.range (channels p)) :
      ((do
        let value ← wavU16 raw (w.dataStart + i * w.blockAlign.toNat + 2 * j)
        if value < 0 then .error (.refused .truncatedData)
        else return mixed + ((if value ≥ 32768 then value - 65536 else value : ℤ) : ℚ) / 32768) : Checked WavError ℚ) =
      .ok (mixed + (sample d (channels p) i j : ℚ) / 32768) := by
    have hle := channel_le hmul hi (List.mem_range.mp hj)
    have hposition : w.dataStart + i * w.blockAlign.toNat + 2 * j =
        start + (i * (2 * channels p) + 2 * j) + 1 := by
      rw [hstart, h.blockAlign, Int.toNat_natCast, halign]
      omega
    have hbytes : (raw.drop (start + (i * (2 * channels p) + 2 * j))).take 2 =
        (d.drop (i * (2 * channels p) + 2 * j)).take 2 := by
      rw [← hdata, List.drop_take, List.drop_drop, List.take_take, Nat.min_eq_left (by omega)]
    rw [hposition, wavU16_eq (by omega), hbytes, sample]
    generalize unsigned ((d.drop (i * (2 * channels p) + 2 * j)).take 2) = u
    have hvalue : (if (u : ℤ) ≥ 32768 then (u : ℤ) - 65536 else u) = signed .int16 u := by
      show _ = if u < 32768 then (u : ℤ) else u - 2 * (32768 : ℕ)
      split_ifs <;> omega
    show (if (u : ℤ) < 0 then .error (.refused .truncatedData)
      else .ok (mixed + ((if (u : ℤ) ≥ 32768 then (u : ℤ) - 65536 else u : ℤ) : ℚ) / 32768) : Checked WavError ℚ) = _
    rw [if_neg (by omega), hvalue]
  have hfold := foldlM_eq_foldl hbody 0
  rw [foldl_add_eq_sum, zero_add] at hfold
  rw [mixFrame, h.channels, Int.toNat_natCast]
  refine (congrArg (fun x => x >>= fun mixed => pure (mixed / ((channels p : ℤ) : ℚ))) hfold).trans ?_
  show Except.ok _ = _
  rw [mean, Int.cast_natCast]

/-- The frames are stored one after the other. -/
theorem mix_eq (h : Found raw w p d) (halign : blockAlign p = 2 * channels p)
    (hmul : n * (2 * channels p) ≤ d.length) :
    mix raw w n = .ok (some ((List.range n).map (mean d (channels p)))) := by
  refine foldlM_store (fun native i hi => ?_) (List.length_replicate ..)
  rw [mixFrame_eq h halign hmul hi]
  rfl

/-- The checks accept a format and samples, or report an error. -/
theorem readFrames_cases (h : Found raw w p d) (hcomplete : w.Complete) :
    (Playable p d → readFrames raw w =
      .ok (sampleRate p, frames p d, some ((List.range (frames p d)).map (mean d (channels p))))) ∧
    (¬ Playable p d → ∃ e, readFrames raw w = .error (.refused e)) := by
  have hframes (hplay : blockAlign p = 2 * channels p) : d.length / blockAlign p = frames p d := by rw [frames, hplay]
  rw [readFrames, hcomplete.1, hcomplete.2, h.audioFormat, h.bitsPerSample, h.channels, h.sampleRate, h.blockAlign,
    h.dataSize, ← Int.ofNat_tmod, ← Int.ofNat_tdiv, if_neg (by decide)]
  dsimp only
  rw [Int.toNat_natCast]
  constructor
  · intro hplay
    have hformat := hplay.pcm
    have hbits := hplay.bits
    have hpos := hplay.channels_pos
    have hle := hplay.channels_le
    have hrate := hplay.rate_pos
    have hrate' := hplay.rate_le
    have halign := hplay.align
    have hdata := hplay.nonempty
    have hfits := hplay.fits
    have hwhole : d.length % blockAlign p = 0 := by
      rw [halign]
      exact Nat.mod_eq_zero_of_dvd hplay.whole
    rw [if_neg (by omega), if_neg (by omega), if_neg (by omega), hframes halign, if_neg (by omega),
      mix_eq h halign hplay.frames_mul.le]
    rfl
  · intro hplay
    split_ifs with hformat hmeta hdata hlong
    · exact ⟨_, rfl⟩
    · exact ⟨_, rfl⟩
    · exact ⟨_, rfl⟩
    · exact ⟨_, rfl⟩
    · have halign : blockAlign p = 2 * channels p := by omega
      rw [hframes halign] at hlong
      refine absurd ⟨by omega, by omega, by omega, by omega, by omega, by omega, halign, by omega, ?_, by omega⟩ hplay
      rw [← halign]
      exact Nat.dvd_of_mod_eq_zero (by omega)

/-! ### The whole file -/

/-- The identifiers at the beginning of a file. -/
theorem readNative_eq (h : 12 ≤ raw.length) : readNative raw =
    if raw.take 4 ≠ CString.ascii "RIFF" ∨ (raw.drop 8).take 4 ≠ CString.ascii "WAVE" then .error (.refused .notRiff)
    else (walk raw raw.length .start).bind (readFrames raw) := by
  have hriff : (substring raw 1 4 : Checked WavError Bytes) = .ok (raw.take 4) :=
    substring_eq (i := 0) (n := 4) (by omega)
  have hwave : (substring raw 9 12 : Checked WavError Bytes) = .ok ((raw.drop 8).take 4) :=
    substring_eq (i := 8) (n := 4) (by omega)
  rw [readNative, if_neg (by omega), hriff, hwave]
  rfl

theorem readNative_riff {size rest : Bytes} (hsize : size.length = 4) (hraw : raw = riffHeader size ++ rest) :
    readNative raw = (walk raw raw.length .start).bind (readFrames raw) := by
  have hlength : 12 ≤ raw.length := by
    rw [hraw, List.length_append, length_riffHeader hsize]
    omega
  have hriff : raw.take 4 = CString.ascii "RIFF" := by
    rw [hraw, riffHeader, List.append_assoc]
    exact List.take_left' rfl
  have hwave : (raw.drop 8).take 4 = CString.ascii "WAVE" := by
    have hfront : raw = (CString.ascii "RIFF" ++ size) ++ (CString.ascii "WAVE" ++ rest) := by
      rw [hraw, riffHeader, List.append_assoc, List.append_assoc, List.append_assoc]
    rw [hfront, List.drop_left' (by rw [List.length_append, hsize]; rfl)]
    exact List.take_left' rfl
  rw [readNative_eq hlength, if_neg (not_or.mpr ⟨not_not.mpr hriff, not_not.mpr hwave⟩)]

/-- A file without the header is refused. -/
theorem readNative_other (h : ∀ size rest : Bytes, size.length = 4 → raw ≠ riffHeader size ++ rest) :
    ∃ e, readNative raw = .error (.refused e) := by
  rcases Nat.lt_or_ge raw.length 12 with hshort | hlength
  · exact ⟨.truncated, by rw [readNative, if_pos hshort]⟩
  · rw [readNative_eq hlength]
    split_ifs with hid
    · exact ⟨_, rfl⟩
    · rw [not_or, not_not, not_not] at hid
      have hsize : ((raw.drop 4).take 4).length = 4 := by
        rw [List.length_take, List.length_drop]
        omega
      have hdrop : raw.drop 8 = (raw.drop 4).drop 4 := by rw [List.drop_drop]
      refine absurd ?_ (h ((raw.drop 4).take 4) ((raw.drop 8).drop 4) hsize)
      rw [riffHeader, ← hid.1, ← hid.2, List.append_assoc, List.append_assoc, List.take_append_drop, hdrop,
        List.take_append_drop, List.take_append_drop]

/-- A file is refused, or it carries a format and samples that are accepted. -/
theorem readNative_cases (raw : Bytes) : (∃ e, readNative raw = .error (.refused e)) ∨
    ∃ p d, Carries raw p d ∧ Playable p d := by
  by_cases hheader : ∃ size rest : Bytes, size.length = 4 ∧ raw = riffHeader size ++ rest
  · obtain ⟨size, rest, hsize, hraw⟩ := hheader
    rw [readNative_riff hsize hraw]
    rcases walk_start hsize hraw with hwalk | ⟨w, hwalk, hcarries⟩
    · exact .inl ⟨.truncatedFmt, by rw [hwalk]; rfl⟩
    rw [hwalk]
    by_cases hcomplete : w.Complete
    · obtain ⟨p, d, hcarries, hfound⟩ := hcarries hcomplete
      by_cases hplay : Playable p d
      · exact .inr ⟨p, d, hcarries, hplay⟩
      · exact .inl ((readFrames_cases hfound hcomplete).2 hplay)
    · refine .inl ⟨.missingChunks, ?_⟩
      have hmissing : (!w.fmtFound || !w.dataFound) = true := by
        rw [Walk.Complete, not_and_or, Bool.not_eq_true, Bool.not_eq_true] at hcomplete
        rw [Bool.or_eq_true, Bool.not_eq_true', Bool.not_eq_true']
        exact hcomplete
      exact if_pos hmissing
  · push Not at hheader
    exact .inl (readNative_other hheader)

/-- A format and samples that are accepted are decoded to their frames. -/
theorem readNative_of_carries (h : Carries raw p d) (hplay : Playable p d) : readNative raw =
    .ok (sampleRate p, frames p d, some ((List.range (frames p d)).map (mean d (channels p)))) := by
  obtain ⟨w, hwalk, hcomplete, hfound⟩ := h.walk
  obtain ⟨size, chunks, last, after, hsize, hraw, -⟩ := h
  rw [readNative_riff hsize hraw, hwalk]
  exact (readFrames_cases hfound hcomplete).1 hplay

/-! ### Resampling -/

theorem truncate_of_nonneg {x : ℚ} (h : 0 ≤ x) : truncate x = ⌊x⌋₊ := by
  rw [truncate, if_pos h, Int.natCast_floor_eq_floor h]

theorem outputFrames_eq {rate : ℕ} (hn : 1 ≤ n) (hrate : 1 ≤ rate) :
    outputFrames n (((rate : ℤ) : ℚ) / 16000) = outputs n rate := by
  have hcast : (((n : ℤ) - 1 : ℤ) : ℚ) / (((rate : ℤ) : ℚ) / 16000) = ((n - 1) * 16000 : ℕ) / (rate : ℕ) := by
    rw [div_div_eq_mul_div]
    push_cast [Nat.cast_sub hn]
    rfl
  have hfloor : truncate ((((n : ℤ) - 1 : ℤ) : ℚ) / (((rate : ℤ) : ℚ) / 16000)) = ((n - 1) * 16000 / rate : ℕ) := by
    rw [hcast, truncate, if_pos (by positivity), Rat.floor_natCast_div_natCast]
    rfl
  rw [outputFrames, hfloor, outputs]
  generalize (n - 1) * 16000 / rate = k
  split_ifs <;> omega

/-- The position of a frame at 16 kHz is not behind the last frame. -/
theorem position_le {rate : ℕ} (hrate : 1 ≤ rate) (hj : j < outputs n rate) : j * rate ≤ (n - 1) * 16000 := by
  rw [outputs] at hj
  exact (Nat.le_div_iff_mul_le hrate).mp (by omega)

/-- An element of the array at 16 kHz. -/
theorem resampleFrame_eq {f : ℕ → ℚ} {rate : ℕ} (hn : 1 ≤ n) (hrate : 1 ≤ rate) (hj : j < outputs n rate) :
    resampleFrame (some ((List.range n).map f)) n (((rate : ℤ) : ℚ) / 16000) j =
      .ok (interpolate f (j * rate / 16000)) := by
  have hposition : (j : ℚ) * (((rate : ℤ) : ℚ) / 16000) = j * rate / 16000 := by
    rw [Int.cast_natCast, mul_div_assoc]
  have hle : (j : ℚ) * rate / 16000 ≤ ((n - 1 : ℕ) : ℚ) := by
    rw [div_le_iff₀ (by norm_num)]
    exact_mod_cast position_le hrate hj
  have hnonneg : (0 : ℚ) ≤ j * rate / 16000 := by positivity
  rw [resampleFrame, hposition]
  generalize (j : ℚ) * rate / 16000 = x at hle hnonneg
  have hfloor : ⌊x⌋₊ ≤ n - 1 := Nat.floor_le_of_le hle
  have hsource : (if truncate x < (n : ℤ) - 1 then truncate x else (n : ℤ) - 1) = (⌊x⌋₊ : ℤ) := by
    rw [truncate_of_nonneg hnonneg]
    split_ifs <;> omega
  have hleft : (⌊x⌋₊ + 1 : ℤ).toNat = ⌊x⌋₊ + 1 := by omega
  have hright : (⌊x⌋₊ + 2 : ℤ).toNat = ⌊x⌋₊ + 1 + 1 := by omega
  dsimp only
  rw [hsource, hleft, hright, load_eq (by omega), interpolate]
  by_cases hlast : ⌊x⌋₊ + 1 < n
  · have hinside : (⌊x⌋₊ : ℤ) + 1 < n := by exact_mod_cast hlast
    rw [load_eq hlast]
    refine (if_pos hinside).trans ?_
    show Except.ok ((1 - (x - ((⌊x⌋₊ : ℤ) : ℚ))) * f ⌊x⌋₊ + (x - ((⌊x⌋₊ : ℤ) : ℚ)) * f (⌊x⌋₊ + 1)) = _
    rw [Int.cast_natCast]
  · -- the last frame, whose successor has no weight
    have hx : x - (⌊x⌋₊ : ℚ) = 0 := by
      have hceil : x ≤ (⌊x⌋₊ : ℚ) := hle.trans (by exact_mod_cast (by omega : n - 1 ≤ ⌊x⌋₊))
      linarith [Nat.floor_le hnonneg]
    have houtside : ¬ (⌊x⌋₊ : ℤ) + 1 < n := by exact_mod_cast hlast
    refine (if_neg houtside).trans ?_
    show Except.ok ((1 - (x - ((⌊x⌋₊ : ℤ) : ℚ))) * f ⌊x⌋₊ + (x - ((⌊x⌋₊ : ℤ) : ℚ)) * f ⌊x⌋₊) = _
    rw [Int.cast_natCast, hx, zero_mul, zero_mul]

/-- The loop at 16 kHz, on an array that has been allocated, interpolates between the frames. -/
theorem resample_eq {f : ℕ → ℚ} {rate : ℕ} {samples : List ℚ} (hn : 1 ≤ n) (hrate : 1 ≤ rate)
    (hlength : samples.length = outputs n rate) :
    resample (some ((List.range n).map f)) n (((rate : ℤ) : ℚ) / 16000) (outputs n rate) (some samples) =
      .ok (some ((List.range (outputs n rate)).map fun j : ℕ => interpolate f ((j : ℚ) * rate / 16000))) := by
  refine foldlM_store (fun array j hj => ?_) hlength
  rw [resampleFrame_eq hn hrate hj]
  rfl

/-- What is between two numbers of the sequence is between its bounds. -/
theorem interpolate_mem {f : ℕ → ℚ} {x : ℚ} (hx : 0 ≤ x) (hle : x ≤ (n - 1 : ℕ)) (hn : 1 ≤ n)
    (h : ∀ i < n, -1 ≤ f i ∧ f i ≤ 1) : -1 ≤ interpolate f x ∧ interpolate f x ≤ 1 := by
  have hfloor : ⌊x⌋₊ ≤ n - 1 := Nat.floor_le_of_le hle
  have hlow := Nat.floor_le hx
  have hhigh := (Nat.lt_floor_add_one x).le
  obtain ⟨hf, hf'⟩ := h ⌊x⌋₊ (by omega)
  rw [interpolate]
  obtain ⟨t, ht⟩ : ∃ t, t = x - (⌊x⌋₊ : ℚ) := ⟨_, rfl⟩
  rw [← ht]
  have ht0 : 0 ≤ t := by linarith
  have ht1 : t ≤ 1 := by linarith
  rcases Nat.lt_or_ge (⌊x⌋₊ + 1) n with hlt | hge
  · obtain ⟨hg, hg'⟩ := h (⌊x⌋₊ + 1) hlt
    constructor <;> nlinarith
  · have hzero : t = 0 := by
      have hceil : x ≤ (⌊x⌋₊ : ℚ) := hle.trans (by exact_mod_cast (by omega : n - 1 ≤ ⌊x⌋₊))
      linarith
    rw [hzero, sub_zero, one_mul, zero_mul, add_zero]
    exact ⟨hf, hf'⟩

/-- All samples are between -1 and 1. -/
theorem decoded_mem (h : Playable p d) : ∀ x ∈ decoded p d, -1 ≤ x ∧ x ≤ 1 := by
  have hframe (i : ℕ) (hi : i < frames p d) := mean_mem h.frames_mul.le h.channels_pos hi
  intro x hx
  rw [decoded] at hx
  split_ifs at hx with hrate
  · obtain ⟨i, hi, rfl⟩ := List.mem_map.mp hx
    exact hframe i (List.mem_range.mp hi)
  · obtain ⟨j, hj, rfl⟩ := List.mem_map.mp hx
    refine interpolate_mem (by positivity) ?_ h.frames_pos hframe
    rw [div_le_iff₀ (by norm_num)]
    exact_mod_cast position_le h.rate_pos (List.mem_range.mp hj)

/-! ### The procedure -/

/-- A file of chunks behind its header, one of which is the format and one the samples. -/
structure WavFile where
  size : Bytes
  chunks : List Chunk
  fmt : Chunk
  data : Chunk
  length_size : size.length = 4
  fmt_only : chunks.filter (fun c => c.id = fmtId) = [fmt]
  data_only : chunks.filter (fun c => c.id = dataId) = [data]
  long : 16 ≤ fmt.payload.length
  playable : Playable fmt.payload data.payload
  /-- What is resampled stays in the limit. -/
  outputs_le : sampleRate fmt.payload ≠ 16000 →
    outputs (frames fmt.payload data.payload) (sampleRate fmt.payload) ≤ maxAudioSamples

namespace WavFile

def bytes (f : WavFile) : Bytes := riffHeader f.size ++ encodeChunks f.chunks

def samples (f : WavFile) : List ℚ := decoded f.fmt.payload f.data.payload

theorem carries (f : WavFile) : Carries f.bytes f.fmt.payload f.data.payload := by
  have hfmt : payloadOf fmtId f.chunks = some f.fmt.payload := by
    rw [payloadOf, f.fmt_only]
    rfl
  have hdata : payloadOf dataId f.chunks = some f.data.payload := by
    rw [payloadOf, f.data_only]
    rfl
  obtain ⟨before, last, after, hchunks, hbefore, hlast⟩ :=
    exists_first (P := fun l => payloadOf fmtId l ≠ none ∧ payloadOf dataId l ≠ none)
      (fun h => h.1 rfl) ⟨by rw [hfmt]; exact Option.some_ne_none _, by rw [hdata]; exact Option.some_ne_none _⟩
  have hsplit : f.chunks = before ++ [last] ++ after := by
    rw [hchunks, List.append_assoc]
    rfl
  obtain ⟨p, hp⟩ := Option.ne_none_iff_exists'.mp hlast.1
  obtain ⟨d, hd⟩ := Option.ne_none_iff_exists'.mp hlast.2
  refine ⟨f.size, before, last, last.padding ++ encodeChunks after, f.length_size, ?_, fun c hc hid => ?_, ?_, ?_, ?_⟩
  · rw [bytes, hchunks, encodeChunks_append, encodeChunks_cons, Chunk.bytes, List.append_assoc]
  · have hmem : c ∈ f.chunks.filter fun c => c.id = fmtId :=
      List.mem_filter.mpr ⟨hsplit ▸ List.mem_append_left after hc, decide_eq_true hid⟩
    rw [f.fmt_only, List.mem_singleton] at hmem
    rw [hmem]
    exact f.long
  · rw [not_and_or, not_not, not_not] at hbefore
    exact hbefore
  · rw [hp, payloadOf_of_filter hsplit f.fmt_only hp]
  · rw [hd, payloadOf_of_filter hsplit f.data_only hd]

end WavFile

/-- A file is resampled: it carries a format and samples that are accepted, at another rate than 16 kHz, and what
is resampled stays in the limit. -/
def Resampled (raw : Bytes) : Prop :=
  ∃ p d, Carries raw p d ∧ Playable p d ∧ sampleRate p ≠ 16000 ∧
    outputs (frames p d) (sampleRate p) ≤ maxAudioSamples

/-- What decoding should be: it ends without a fault, a file of chunks gives its samples, which are between -1
and 1, and an error leaves no samples. -/
structure Decodes (raw : Bytes) : Prop where
  runs : ∃ outcome, decode raw = .ok outcome
  exact : ∀ f : WavFile, raw = f.bytes → decode raw = .ok ⟨some f.samples, none⟩
  bounded : ∀ f : WavFile, raw = f.bytes → ∀ x ∈ f.samples, -1 ≤ x ∧ x ≤ 1
  empty : ∀ outcome, decode raw = .ok outcome → outcome.stat ≠ none → outcome.samples = some []

/-- What follows an accepted format and samples. -/
theorem decode_of_carries (h : Carries raw p d) (hplay : Playable p d) : decode raw =
    if sampleRate p = 16000 then .ok ⟨some (decoded p d), none⟩
    else if outputs (frames p d) (sampleRate p) > maxAudioSamples then .ok ⟨some [], some .resampledTooLong⟩
    else .error .allocated := by
  have hfinish : decode raw = finish (some []) (sampleRate p) (frames p d)
      (some ((List.range (frames p d)).map (mean d (channels p)))) := by
    rw [decode, readNative_of_carries h hplay]
    rfl
  rw [hfinish, finish, decoded]
  by_cases hrate : sampleRate p = 16000
  · rw [if_pos (by exact_mod_cast hrate), if_pos hrate, if_pos hrate]
  rw [if_neg (by exact_mod_cast hrate), if_neg hrate]
  dsimp only
  rw [outputFrames_eq hplay.frames_pos hplay.rate_pos]
  by_cases hlong : outputs (frames p d) (sampleRate p) > maxAudioSamples
  · rw [if_pos (by exact_mod_cast hlong), if_pos hlong]
  · rw [if_neg (by exact_mod_cast hlong), if_neg hlong]
    rfl

/-- A file that is not resampled is refused without samples, or decoded. -/
theorem decode_of_not_resampled (h : ¬ Resampled raw) :
    ∃ outcome, decode raw = .ok outcome ∧ (outcome.stat ≠ none → outcome.samples = some []) := by
  rcases readNative_cases raw with ⟨e, he⟩ | ⟨p, d, hcarries, hplay⟩
  · refine ⟨⟨some [], some e⟩, ?_, fun _ => rfl⟩
    rw [decode, he]
    rfl
  have hrun := decode_of_carries hcarries hplay
  by_cases hrate : sampleRate p = 16000
  · rw [if_pos hrate] at hrun
    exact ⟨_, hrun, fun hstat => absurd rfl hstat⟩
  rw [if_neg hrate] at hrun
  split_ifs at hrun with hlong
  · exact ⟨_, hrun, fun _ => rfl⟩
  · exact absurd ⟨p, d, hcarries, hplay, hrate, Nat.not_lt.mp hlong⟩ h

/-- Decoding does what it should for every file that is not resampled, and for no other. -/
theorem decodes_iff (raw : Bytes) : Decodes raw ↔ ¬ Resampled raw := by
  constructor
  · rintro h ⟨p, d, hcarries, hplay, hrate, houtputs⟩
    obtain ⟨outcome, hrun⟩ := h.runs
    rw [decode_of_carries hcarries hplay, if_neg hrate, if_neg (Nat.not_lt.mpr houtputs)] at hrun
    cases hrun
  · intro h
    obtain ⟨outcome, hrun, hempty⟩ := decode_of_not_resampled h
    refine ⟨⟨outcome, hrun⟩, fun f hf => ?_, fun f _ => decoded_mem f.playable, fun outcome' hrun' => ?_⟩
    · have hcarries : Carries raw f.fmt.payload f.data.payload := hf ▸ f.carries
      have hrate : sampleRate f.fmt.payload = 16000 := by
        by_contra hrate
        exact h ⟨_, _, hcarries, f.playable, hrate, f.outputs_le hrate⟩
      rw [decode_of_carries hcarries f.playable, if_pos hrate]
      rfl
    · rw [hrun] at hrun'
      rw [← Except.ok.inj hrun']
      exact hempty

/-- A frame of one channel at 8 kHz. -/
theorem decode_resampled : ¬ Decodes (CString.ascii "RIFF" ++ [38, 0, 0, 0] ++ CString.ascii "WAVEfmt " ++
    [16, 0, 0, 0, 1, 0, 1, 0, 64, 31, 0, 0, 128, 62, 0, 0, 2, 0, 16, 0] ++ CString.ascii "data" ++
    [2, 0, 0, 0, 0, 64]) := by
  intro h
  obtain ⟨outcome, hrun⟩ := h.runs
  have hfault : (decode (CString.ascii "RIFF" ++ [38, 0, 0, 0] ++ CString.ascii "WAVEfmt " ++
      [16, 0, 0, 0, 1, 0, 1, 0, 64, 31, 0, 0, 128, 62, 0, 0, 2, 0, 16, 0] ++ CString.ascii "data" ++
      [2, 0, 0, 0, 0, 64])).isOk = false := by decide +kernel
  rw [hrun] at hfault
  exact absurd hfault.symm Bool.false_ne_true

end Wav

end Whisper

end FortAI
