import FortAI.Machine.Binary
import FortAI.Machine.Storage
import FortAI.Status
import Mathlib.Data.Rat.Floor

/-!
# WAV files

`whisper_wav_decode` takes the samples of a WAV file to a single channel at 16 kHz, here in exact
arithmetic.  The server passes on 16 MiB at most, so that a default integer holds every position.

* `walk` : the chunks, until both a format and the samples have come.
* `mix` : the frames, each the mean of its channels.
* `resample` : the loop over the frames at 16 kHz.
* `decode` : the whole, with the array `samples` as it is returned.
-/

namespace FortAI

namespace Whisper

namespace Wav

open Binary Storage

/-- `MAX_AUDIO_SAMPLES` -/
def maxAudioSamples : ℕ := 16000 * 60 * 30

inductive WavError
  | truncated | notRiff | truncatedFmt | invalidFmtSize | missingChunks | unsupportedCodec
  | invalidMetadata | unaligned | tooLong | truncatedData | resampledTooLong
  deriving DecidableEq

def WavError.fault : WavError → Fault
  | unsupportedCodec => .unsupported
  | _ => .invalid

def WavError.message : WavError → String
  | truncated => "WAV payload is truncated"
  | notRiff => "audio payload is not a RIFF/WAVE file"
  | truncatedFmt => "WAV fmt chunk is truncated"
  | invalidFmtSize => "WAV fmt chunk size is invalid"
  | missingChunks => "WAV file has no complete fmt/data chunks"
  | unsupportedCodec => "only PCM16 WAV input is supported"
  | invalidMetadata => "WAV channel or sample-rate metadata is invalid"
  | unaligned => "WAV PCM data is empty or unaligned"
  | tooLong => "WAV payload exceeds the native audio limit"
  | truncatedData => "WAV PCM data is truncated"
  | resampledTooLong => "resampled audio exceeds the native audio limit"

/-! ### Numbers -/

/-- `wav_byte` -/
def wavByte (raw : Bytes) (position : ℕ) : Checked WavError ℤ :=
  if position < 1 ∨ position > raw.length then .ok (-1)
  else do
    let byte ← substring raw position position
    return unsigned byte

/-- `wav_u16` -/
def wavU16 (raw : Bytes) (position : ℕ) : Checked WavError ℤ := do
  let first ← wavByte raw position
  let second ← wavByte raw (position + 1)
  return if first < 0 ∨ second < 0 then -1 else first + second * 2 ^ 8

/-- `wav_u32` -/
def wavU32 (raw : Bytes) (position : ℕ) : Checked WavError ℤ := do
  let first ← wavByte raw position
  let second ← wavByte raw (position + 1)
  let third ← wavByte raw (position + 2)
  let fourth ← wavByte raw (position + 3)
  return if first < 0 ∨ second < 0 ∨ third < 0 ∨ fourth < 0 then -1
    else first + second * 2 ^ 8 + third * 2 ^ 16 + fourth * 2 ^ 24

/-! ### Chunks -/

def fmtId : Bytes := CString.ascii "fmt "

def dataId : Bytes := CString.ascii "data"

/-- The variables of the loop over the chunks. -/
structure Walk where
  position : ℕ
  fmtFound : Bool
  dataFound : Bool
  audioFormat : ℤ
  channels : ℤ
  sampleRate : ℤ
  bitsPerSample : ℤ
  blockAlign : ℤ
  dataStart : ℕ
  dataSize : ℤ

def Walk.start : Walk := ⟨13, false, false, 0, 0, 0, 0, 0, 0, 0⟩

/-- The branch for a format. -/
def readFmt (raw : Bytes) (w : Walk) (chunkSize : ℤ) : Checked WavError Walk :=
  if chunkSize < 16 then .error (.refused .truncatedFmt)
  else do
    let fmtEnd := w.position + 8 + chunkSize
    let audioFormat ← wavU16 raw (w.position + 8)
    let channels ← wavU16 raw (w.position + 10)
    let sampleRate ← wavU32 raw (w.position + 12)
    let blockAlign ← wavU16 raw (w.position + 20)
    let bitsPerSample ← wavU16 raw (w.position + 22)
    if fmtEnd ≤ w.position then .error (.refused .invalidFmtSize)
    else return { w with
      audioFormat, channels, sampleRate, blockAlign, bitsPerSample
      fmtFound := true }

/-- What a chunk says. -/
def readChunk (raw : Bytes) (w : Walk) (chunkSize : ℤ) : Checked WavError Walk := do
  let id ← substring raw w.position (w.position + 3)
  if id = fmtId then readFmt raw w chunkSize
  else do
    let id ← substring raw w.position (w.position + 3)
    return if id = dataId then
      { w with
        dataStart := w.position + 8
        dataSize := chunkSize
        dataFound := true }
      else w

/-- One turn of the loop over the chunks, and whether another one follows. -/
def turn (raw : Bytes) (w : Walk) : Checked WavError (Walk × Bool) := do
  let chunkSize ← wavU32 raw (w.position + 4)
  if chunkSize < 0 then return (w, false)
  else
    let chunkEnd := w.position + 8 + chunkSize.toNat
    if chunkEnd > raw.length + 1 then return (w, false)
    else do
      let next ← readChunk raw w chunkSize
      return ({ next with position := chunkEnd + chunkSize.toNat % 2 }, !(next.fmtFound && next.dataFound))

/-- The loop over the chunks; every turn goes on by eight bytes at least. -/
def walk (raw : Bytes) : ℕ → Walk → Checked WavError Walk
  | 0, w => .ok w
  | fuel + 1, w =>
    if w.position + 7 ≤ raw.length then do
      let (next, again) ← turn raw w
      if again then walk raw fuel next else return next
    else .ok w

/-! ### Frames -/

/-- The loop over the channels of a frame. -/
def mixFrame (raw : Bytes) (w : Walk) (frame : ℕ) : Checked WavError ℚ := do
  let sampleOffset := w.dataStart + frame * w.blockAlign.toNat
  let mixed ← (List.range w.channels.toNat).foldlM (fun (mixed : ℚ) channel => do
    let value ← wavU16 raw (sampleOffset + 2 * channel)
    if value < 0 then .error (.refused .truncatedData)
    else return mixed + ((if value ≥ 32768 then value - 65536 else value : ℤ) : ℚ) / 32768) 0
  return mixed / w.channels

/-- The loop over the frames. -/
def mix (raw : Bytes) (w : Walk) (frames : ℕ) : Checked WavError (Allocatable ℚ) := do
  let native ← allocate none frames
  (List.range frames).foldlM (fun native frame => do
    let x ← mixFrame raw w frame
    store native (frame + 1) x) native

/-- The checks behind the loop over the chunks, and the frames: the rate, the number of frames, and `native`. -/
def readFrames (raw : Bytes) (w : Walk) : Checked WavError (ℤ × ℕ × Allocatable ℚ) :=
  if !w.fmtFound || !w.dataFound then .error (.refused .missingChunks)
  else if w.audioFormat ≠ 1 ∨ w.bitsPerSample ≠ 16 then .error (.refused .unsupportedCodec)
  else if w.channels ≤ 0 ∨ w.channels > 32 ∨ w.sampleRate ≤ 0 ∨ w.sampleRate > 384000 ∨
      w.blockAlign ≠ 2 * w.channels then .error (.refused .invalidMetadata)
  else if w.dataSize ≤ 0 ∨ w.dataSize.tmod w.blockAlign ≠ 0 then .error (.refused .unaligned)
  else
    let frames := w.dataSize.tdiv w.blockAlign
    if frames > maxAudioSamples * 24 then .error (.refused .tooLong)
    else do
      let native ← mix raw w frames.toNat
      return (w.sampleRate, frames.toNat, native)

/-- The part of `whisper_wav_decode` that does not touch `samples`. -/
def readNative (raw : Bytes) : Checked WavError (ℤ × ℕ × Allocatable ℚ) :=
  if raw.length < 12 then .error (.refused .truncated)
  else do
    let riff ← substring raw 1 4
    let wave ← substring raw 9 12
    if riff ≠ CString.ascii "RIFF" ∨ wave ≠ CString.ascii "WAVE" then .error (.refused .notRiff)
    else do
      let w ← walk raw raw.length .start
      readFrames raw w

/-! ### Resampling -/

/-- `int(x, int64)` -/
def truncate (x : ℚ) : ℤ := if 0 ≤ x then ⌊x⌋ else ⌈x⌉

/-- `output_frames` -/
def outputFrames (frames : ℕ) (ratio : ℚ) : ℤ :=
  let frames : ℤ := 1 + truncate (((frames : ℤ) - 1 : ℤ) / ratio)
  if 1 < frames then frames else 1

/-- The value of the element `next_frame + 1`. -/
def resampleFrame (native : Allocatable ℚ) (frames : ℕ) (ratio : ℚ) (nextFrame : ℕ) : Checked WavError ℚ := do
  let sourcePosition : ℚ := nextFrame * ratio
  let lastFrame : ℤ := frames - 1
  let sourceFrame := if truncate sourcePosition < lastFrame then truncate sourcePosition else lastFrame
  let fraction := sourcePosition - sourceFrame
  let left ← load native (sourceFrame + 1).toNat
  let right ← if sourceFrame + 1 < frames then load native (sourceFrame + 2).toNat else pure left
  return (1 - fraction) * left + fraction * right

/-- The loop over the frames at 16 kHz. -/
def resample (native : Allocatable ℚ) (frames : ℕ) (ratio : ℚ) (outputs : ℕ) (samples : Allocatable ℚ) :
    Checked WavError (Allocatable ℚ) :=
  (List.range outputs).foldlM (fun samples nextFrame => do
    let x ← resampleFrame native frames ratio nextFrame
    store samples (nextFrame + 1) x) samples

/-- What is returned; no error is `FORTAI_OK`. -/
structure Outcome where
  samples : Allocatable ℚ
  stat : Option WavError

/-- What follows the frames. -/
def finish (samples : Allocatable ℚ) (sampleRate : ℤ) (frames : ℕ) (native : Allocatable ℚ) :
    Checked WavError Outcome :=
  -- `move_alloc`
  if sampleRate = 16000 then .ok ⟨native, none⟩
  else
    let ratio : ℚ := sampleRate / 16000
    let outputs := outputFrames frames ratio
    if outputs > maxAudioSamples then .ok ⟨samples, some .resampledTooLong⟩
    else do
      let samples ← allocate samples outputs.toNat
      let samples ← resample native frames ratio outputs.toNat samples
      return ⟨samples, none⟩

/-- `whisper_wav_decode` -/
def decode (raw : Bytes) : Checked WavError Outcome := do
  -- `samples` is not allocated on entry
  let samples ← allocate none 0
  match readNative raw with
  | .error (.refused e) => return ⟨samples, some e⟩
  | .error stop => .error stop
  | .ok (sampleRate, frames, native) => finish samples sampleRate frames native

end Wav

end Whisper

end FortAI
