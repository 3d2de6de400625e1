import FortAI.Machine.Binary
import FortAI.Status

/-!
# Whisper model files

`whisper_file_open` reads hyperparameters, mel filters, a vocabulary and then one tensor record after
the other, each with its payload behind it.

* `readHeader` : all in front of the tensors.
* `scanRecords` : the tensor records.
* `fillFilters` : the filter bank, where every index is checked against the array.
* `openFile` : the whole.
-/

namespace FortAI

namespace Whisper

open Binary

/-! ### Types of tensors -/

/-- `whisper_ggml_block_size` -/
def blockSize (valueType : ℤ) : ℤ :=
  if valueType ∈ [0, 1, 24, 25, 26, 27, 28, 30, 39, 40] then 1
  else if valueType ∈ [2, 3, 6, 7, 8, 9] then 32
  else if valueType ∈ [10, 11, 12, 13, 14, 15, 16, 17, 18, 19, 20, 21, 22, 23, 29, 34, 35, 41, 42] then 256
  else 0

/-- The branches of `whisper_ggml_type_size`. -/
def typeSizes : List (ℤ × ℤ) :=
  [(0, 4), (1, 2), (2, 18), (3, 20), (6, 22), (7, 24), (8, 34), (9, 36), (10, 84), (11, 110), (12, 144),
    (13, 176), (14, 210), (15, 292), (16, 66), (17, 74), (18, 98), (19, 56), (20, 36), (21, 110), (22, 82),
    (23, 136), (24, 1), (25, 2), (26, 4), (27, 8), (28, 8), (29, 56), (30, 2), (34, 20), (35, 66), (39, 1),
    (40, 18), (41, 18), (42, 66)]

/-- `whisper_ggml_type_size` -/
def typeSize (valueType : ℤ) : ℤ := (typeSizes.lookup valueType).getD 0

/-- `whisper_ggml_tensor_bytes` -/
def tensorBytes (valueType elements : ℤ) : ℤ :=
  if blockSize valueType ≤ 0 ∨ typeSize valueType ≤ 0 then 0
  else if elements.tmod (blockSize valueType) ≠ 0 then 0
  else wrap .int64 (elements.tdiv (blockSize valueType) * typeSize valueType)

/-! ### Errors -/

inductive OpenError
  | invalidMagic | truncatedHparams
  | nonPositiveDimension | indivisibleState | differentStates | invalidWeightType
  | invalidFilterMetadata | truncatedFilters
  | invalidVocabularyCount | invalidTokenLength | truncatedVocabulary
  | truncatedIndex | invalidTensorHeader | invalidTensorShape | truncatedName | unsupportedType
  | payloadExceedsFile
  | filterMismatch | missingFilters | emptyVocabulary | noTensors | inconsistentAccounting
  deriving DecidableEq

def OpenError.fault : OpenError → Fault
  | truncatedHparams | truncatedFilters | truncatedVocabulary | truncatedIndex | truncatedName
  | payloadExceedsFile => .ioError
  | unsupportedType => .unsupported
  | _ => .invalid

def OpenError.message : OpenError → String
  | invalidMagic => "Whisper model has invalid GGML magic"
  | truncatedHparams => "Whisper model hparams are truncated"
  | nonPositiveDimension => "Whisper hparams contain a non-positive dimension"
  | indivisibleState => "Whisper state dimensions are not divisible by head counts"
  | differentStates => "Whisper encoder and decoder state sizes differ"
  | invalidWeightType => "Whisper weight type is invalid"
  | invalidFilterMetadata => "Whisper mel filter metadata is invalid"
  | truncatedFilters => "Whisper mel filter data is truncated"
  | invalidVocabularyCount => "Whisper vocabulary count is invalid"
  | invalidTokenLength => "Whisper vocabulary token length is invalid"
  | truncatedVocabulary => "Whisper vocabulary is truncated"
  | truncatedIndex => "Whisper tensor index is truncated"
  | invalidTensorHeader => "Whisper tensor header is invalid"
  | invalidTensorShape => "Whisper tensor shape is invalid"
  | truncatedName => "Whisper tensor name is truncated"
  | unsupportedType => "Whisper tensor type is unsupported"
  | payloadExceedsFile => "Whisper tensor payload exceeds the model file"
  | filterMismatch => "Whisper mel filter dimensions do not match hparams"
  | missingFilters => "Whisper mel filters are missing"
  | emptyVocabulary => "Whisper vocabulary is empty"
  | noTensors => "Whisper model contains no tensors"
  | inconsistentAccounting => "Whisper tensor byte accounting is inconsistent"

/-! ### The header -/

/-- `whisper_hparams_t` -/
structure Hparams where
  nVocab : ℤ
  nAudioCtx : ℤ
  nAudioState : ℤ
  nAudioHead : ℤ
  nAudioLayer : ℤ
  nTextCtx : ℤ
  nTextState : ℤ
  nTextHead : ℤ
  nTextLayer : ℤ
  nMels : ℤ
  ftype : ℤ
  deriving DecidableEq

/-- `whisper_hparams_validate` -/
def Hparams.validate (p : Hparams) : Option OpenError :=
  if p.nVocab ≤ 0 ∨ p.nAudioCtx ≤ 0 ∨ p.nAudioState ≤ 0 ∨ p.nAudioHead ≤ 0 ∨ p.nAudioLayer ≤ 0 ∨
      p.nTextCtx ≤ 0 ∨ p.nTextState ≤ 0 ∨ p.nTextHead ≤ 0 ∨ p.nTextLayer ≤ 0 ∨ p.nMels ≤ 0 then
    some .nonPositiveDimension
  else if p.nAudioState.tmod p.nAudioHead ≠ 0 ∨ p.nTextState.tmod p.nTextHead ≠ 0 then
    some .indivisibleState
  else if p.nAudioState ≠ p.nTextState then some .differentStates
  else if p.ftype < 0 then some .invalidWeightType
  else none

/-- What is read in front of the tensors; single precision numbers are given by their bits. -/
structure Header where
  hparams : Hparams
  filterMel : ℤ
  filterFft : ℤ
  filterValues : List ℤ
  vocab : List Bytes

/-- So many integers of 32 bits, read by one statement. -/
def readInts : ℕ → Bytes → Option (List ℤ × Bytes)
  | 0, rest => some ([], rest)
  | n + 1, rest =>
    match readInt .int32 rest with
    | none => none
    | some (x, rest) =>
      match readInts n rest with
      | none => none
      | some (xs, rest) => some (x :: xs, rest)

/-- The loop over the tokens. -/
def readTokens : ℕ → Bytes → Except OpenError (List Bytes × Bytes)
  | 0, rest => .ok ([], rest)
  | n + 1, rest =>
    match readInt .int32 rest with
    | none => .error .invalidTokenLength
    | some (length, rest) =>
      if length < 0 ∨ 1048576 < length then .error .invalidTokenLength
      else
        match read length.toNat rest with
        | none => .error .truncatedVocabulary
        | some (token, rest) =>
          match readTokens n rest with
          | .error e => .error e
          | .ok (tokens, rest) => .ok (token :: tokens, rest)

def magic : ℤ := 1734831468

/-- `read(unit) hparams%n_vocab, ...` -/
def readHparams (rest : Bytes) : Option (Hparams × Bytes) :=
  match readInts 11 rest with
  | some ([a, b, c, d, e, f, g, h, i, j, k], rest) => some (⟨a, b, c, d, e, f, g, h, i, j, k⟩, rest)
  | _ => none

/-- The part of `whisper_file_open` from the mel filters to the vocabulary. -/
def readFilters (hparams : Hparams) (rest : Bytes) : Except OpenError (Header × Bytes) :=
  match readInts 2 rest with
  | some ([mel, fft], rest) =>
    if mel ≤ 0 ∨ fft ≤ 0 then .error .invalidFilterMetadata
    else
      -- an array of a negative extent has no elements
      match readInts (wrap .int32 (mel * fft)).toNat rest with
      | none => .error .truncatedFilters
      | some (values, rest) =>
        match readInt .int32 rest with
        | none => .error .invalidVocabularyCount
        | some (count, rest) =>
          if count < 0 ∨ hparams.nVocab < count then .error .invalidVocabularyCount
          else
            match readTokens count.toNat rest with
            | .error e => .error e
            | .ok (vocab, rest) => .ok (⟨hparams, mel, fft, values, vocab⟩, rest)
  | _ => .error .invalidFilterMetadata

/-- The part of `whisper_file_open` up to the vocabulary. -/
def readHeader (file : Bytes) : Except OpenError (Header × Bytes) :=
  match readInt .int32 file with
  | none => .error .invalidMagic
  | some (x, rest) =>
    if x ≠ magic then .error .invalidMagic
    else
      match readHparams rest with
      | none => .error .truncatedHparams
      | some (hparams, rest) =>
        match hparams.validate with
        | some e => .error e
        | none => readFilters hparams rest

/-! ### The tensor records -/

/-- `whisper_tensor_record_t`; offsets count from 1. -/
structure Record where
  name : Bytes
  rank : ℤ
  valueType : ℤ
  shape : List ℤ
  elements : ℤ
  byteCount : ℤ
  fileOffset : ℤ
  deriving DecidableEq

/-- The loop over the dimensions of a tensor. -/
def readDimensions : ℕ → Bytes → Except OpenError (List ℤ × Bytes)
  | 0, rest => .ok ([], rest)
  | n + 1, rest =>
    match readInt .int32 rest with
    | none => .error .invalidTensorShape
    | some (dimension, rest) =>
      if dimension ≤ 0 then .error .invalidTensorShape
      else
        match readDimensions n rest with
        | .error e => .error e
        | .ok (dimensions, rest) => .ok (dimension :: dimensions, rest)

/-- The product of the dimensions as the loop over them computes it. -/
def elementCount (dimensions : List ℤ) : ℤ :=
  dimensions.foldl (fun elements dimension => wrap .int64 (elements * dimension)) 1

/-- A record behind its number of dimensions, and what stands behind its name, in a file of this
size. -/
def readRecord (size : ℕ) (nDims : ℤ) (rest : Bytes) : Except OpenError (Record × Bytes) :=
  match readInts 2 rest with
  | some ([length, valueType], rest) =>
    if nDims < 1 ∨ 4 < nDims ∨ length < 0 ∨ 4096 < length then .error .invalidTensorHeader
    else
      match readDimensions nDims.toNat rest with
      | .error e => .error e
      | .ok (dimensions, rest) =>
        match read length.toNat rest with
        | none => .error .truncatedName
        | some (name, rest) =>
          let elements := elementCount dimensions
          let bytes := tensorBytes valueType elements
          let position : ℤ := size - rest.length + 1
          if bytes ≤ 0 then .error .unsupportedType
          else if position ≤ 0 ∨ size < wrap .int64 (wrap .int64 (position + bytes) - 1) then
            .error .payloadExceedsFile
          else
            let shape := dimensions ++ List.replicate (4 - dimensions.length) 1
            .ok (⟨name, nDims, valueType, shape, elements, bytes, position⟩, rest)
  | _ => .error .invalidTensorHeader

theorem readInts_eq_some {n : ℕ} {rest after : Bytes} {xs : List ℤ}
    (h : readInts n rest = some (xs, after)) :
    rest = xs.flatMap (encode .int32) ++ after ∧ xs.length = n ∧
      ∀ x ∈ xs, -2147483648 ≤ x ∧ x < 2147483648 := by
  induction n generalizing rest xs with
  | zero =>
    obtain ⟨rfl, rfl⟩ := Prod.mk.inj (Option.some.inj h)
    exact ⟨rfl, rfl, fun x hx => by cases hx⟩
  | succ n ih =>
    rw [readInts] at h
    split at h
    · cases h
    · rename_i x behind hread
      split at h
      · cases h
      · rename_i xs after hreads
        obtain ⟨rfl, rfl⟩ := Prod.mk.inj (Option.some.inj h)
        obtain ⟨rfl, hx⟩ := readInt_eq_some hread
        obtain ⟨rfl, hlength, hxs⟩ := ih hreads
        refine ⟨?_, congrArg (· + 1) hlength, List.forall_mem_cons.mpr ⟨hx, hxs⟩⟩
        rw [List.flatMap_cons, List.append_assoc]

theorem readDimensions_eq_ok {n : ℕ} {rest after : Bytes} {dimensions : List ℤ}
    (h : readDimensions n rest = .ok (dimensions, after)) :
    rest = dimensions.flatMap (encode .int32) ++ after ∧ dimensions.length = n ∧
      ∀ d ∈ dimensions, 0 < d ∧ d < 2147483648 := by
  induction n generalizing rest dimensions with
  | zero =>
    obtain ⟨rfl, rfl⟩ := Prod.mk.inj (Except.ok.inj h)
    exact ⟨rfl, rfl, fun x hx => by cases hx⟩
  | succ n ih =>
    rw [readDimensions] at h
    split at h
    · cases h
    · rename_i d behind hread
      split_ifs at h with hpos
      split at h
      · cases h
      · rename_i dimensions after hdimensions
        obtain ⟨rfl, rfl⟩ := Prod.mk.inj (Except.ok.inj h)
        obtain ⟨rfl, hd⟩ := readInt_eq_some hread
        obtain ⟨rfl, hlength, hall⟩ := ih hdimensions
        refine ⟨?_, congrArg (· + 1) hlength, List.forall_mem_cons.mpr ⟨⟨not_le.mp hpos, hd.2⟩, hall⟩⟩
        rw [List.flatMap_cons, List.append_assoc]

/-- What stands in the file in front of the payload. -/
def Record.header (r : Record) : Bytes :=
  ([r.rank, (r.name.length : ℤ), r.valueType] ++ r.shape.take r.rank.toNat).flatMap (encode .int32) ++
    r.name

/-- What a record holds that is read in a file of this size, in front of the bytes `after`. -/
structure Record.Read (r : Record) (size : ℕ) (after : Bytes) : Prop where
  shape_pos : ∀ d ∈ r.shape, 0 < d ∧ d < 2147483648
  length_shape : r.shape.length = 4
  elements : r.elements = elementCount r.shape
  byteCount : r.byteCount = tensorBytes r.valueType r.elements
  byteCount_pos : 0 < r.byteCount
  fileOffset : r.fileOffset = size - after.length + 1
  fits : wrap .int64 (wrap .int64 (r.fileOffset + r.byteCount) - 1) ≤ size

/-- The dimensions that a tensor does not have do not count. -/
theorem elementCount_append_ones (dimensions : List ℤ) (n : ℕ) :
    elementCount (dimensions ++ List.replicate n 1) = elementCount dimensions := by
  have hwrap : wrap .int64 (elementCount dimensions) = elementCount dimensions :=
    wrap_eq_self (product_mem .int64 dimensions).1 (product_mem .int64 dimensions).2
  rw [elementCount, List.foldl_append, ← elementCount]
  generalize elementCount dimensions = x at hwrap ⊢
  induction n with
  | zero => rfl
  | succ n ih => rw [List.replicate_succ, List.foldl_cons, mul_one, hwrap, ih]

theorem readRecord_eq_ok {size : ℕ} {nDims : ℤ} {rest after : Bytes} {r : Record}
    (h : readRecord size nDims rest = .ok (r, after)) :
    encode .int32 nDims ++ rest = r.header ++ after ∧ r.Read size after := by
  rw [readRecord] at h
  split at h
  · rename_i length valueType behind hheader
    split_ifs at h with hinvalid
    push Not at hinvalid
    obtain ⟨hdims, hdims', hlength, -⟩ := hinvalid
    split at h
    · cases h
    · rename_i dimensions behind hdimensions
      split at h
      · cases h
      · rename_i name rest hread
        simp only at h
        split_ifs at h with hbytes hfits
        push Not at hbytes hfits
        obtain ⟨rfl, rfl⟩ := Prod.mk.inj (Except.ok.inj h)
        obtain ⟨rfl, -, -⟩ := readInts_eq_some hheader
        obtain ⟨rfl, hcount, hpos⟩ := readDimensions_eq_ok hdimensions
        obtain ⟨rfl, hname⟩ := read_eq_some.mp hread
        have htake : (dimensions ++ List.replicate (4 - dimensions.length) (1 : ℤ)).take nDims.toNat =
            dimensions := by rw [← hcount, List.take_left]
        refine ⟨?_, ?_, ?_, ?_, rfl, hbytes, rfl, hfits.2⟩
        · simp only [Record.header, htake, hname, Int.toNat_of_nonneg hlength, List.flatMap_append,
            List.flatMap_cons, List.flatMap_nil, List.append_assoc,
            List.append_nil]
        · intro d hd
          rcases List.mem_append.mp hd with hd | hd
          · exact hpos d hd
          · rw [List.eq_of_mem_replicate hd]
            decide
        · rw [List.length_append, List.length_replicate]
          omega
        · exact (elementCount_append_ones dimensions _).symm
  · cases h

theorem readRecord_length {size : ℕ} {nDims : ℤ} {rest after : Bytes} {r : Record}
    (h : readRecord size nDims rest = .ok (r, after)) : after.length ≤ rest.length := by
  have hlength := congrArg List.length (readRecord_eq_ok h).1
  rw [List.length_append, List.length_append, length_encode, Record.header, List.length_append] at hlength
  have hfour : 4 ≤ (([r.rank, (r.name.length : ℤ), r.valueType] ++ r.shape.take r.rank.toNat).flatMap
      (encode .int32)).length := by
    rw [List.cons_append, List.flatMap_cons, List.length_append, length_encode]
    exact Nat.le_add_right _ _
  have hsize : Width.size .int32 = 4 := rfl
  omega

/-- The loop over the tensor records. -/
def scanRecords (size : ℕ) (rest : Bytes) : Except OpenError (List Record) :=
  match _hdims : readInt .int32 rest with
  | none => .ok []
  | some (nDims, behind) =>
    match _hrecord : readRecord size nDims behind with
    | .error e => .error e
    | .ok (record, payload) =>
      let next := wrap .int64 (record.fileOffset + record.byteCount)
      if size < next then .ok [record]
      -- `pos=` has to be positive
      else if next ≤ 0 then .error .truncatedIndex
      else
        match scanRecords size (payload.drop (next - record.fileOffset).toNat) with
        | .error e => .error e
        | .ok records => .ok (record :: records)
termination_by rest.length
decreasing_by
  have hrest := (readInt_eq_some _hdims).1
  have hpayload := readRecord_length _hrecord
  rw [hrest, List.length_append, length_encode, List.length_drop]
  have hsize : 0 < Width.size .int32 := by decide
  omega

/-! ### The filter bank -/

/-- A counted loop that collects values, from `i` on. -/
def collect {α : Type} (f : ℤ → Option α) : ℕ → ℤ → Option (List α)
  | 0, _ => some []
  | n + 1, i =>
    match f i with
    | none => none
    | some x =>
      match collect f n (i + 1) with
      | none => none
      | some xs => some (x :: xs)

/-- An element of an array whose indices start at 1. -/
def element {α : Type} (values : List α) (index : ℤ) : Option α :=
  if index < 1 then none else values[(index - 1).toNat]?

/-- `(i - 1) * filter_fft + j` -/
def filterIndex (fft i j : ℤ) : ℤ := wrap .int32 (wrap .int32 (wrap .int32 (i - 1) * fft) + j)

/-- The columns of the filter bank; none where an index is out of bounds. -/
def fillFilters (values : List ℤ) (mel fft : ℤ) : Option (List (List ℤ)) :=
  collect (fun j => collect (fun i => element values (filterIndex fft i j)) mel.toNat 1) fft.toNat 1

/-! ### The file -/

/-- `whisper_file_t` -/
structure WhisperFile where
  hparams : Hparams
  filterMel : ℤ
  filterFft : ℤ
  filters : List (List ℤ)
  vocab : List Bytes
  tensors : List Record
  fileSize : ℕ

/-- `whisper_file_validate` -/
def WhisperFile.validate (f : WhisperFile) : Option OpenError :=
  match f.hparams.validate with
  | some e => some e
  | none =>
    if f.filterMel ≠ f.hparams.nMels ∨ f.filterFft ≠ 1 + 400 / 2 then some .filterMismatch
    else if f.filters.length ≠ f.filterFft ∨ f.filters.any (·.length ≠ f.filterMel) then
      some .missingFilters
    else if f.vocab.length ≤ 0 then some .emptyVocabulary
    else if f.tensors.length = 0 then some .noTensors
    else if f.tensors.any fun r => tensorBytes r.valueType r.elements ≠ r.byteCount || decide (r.fileOffset ≤ 0) then
      some .inconsistentAccounting
    else none

/-- What comes of opening a file. -/
inductive Outcome
  | error (e : OpenError)
  | outOfBounds
  | opened (f : WhisperFile)

/-- `whisper_file_open`, from the bytes of the file on. -/
def openFile (file : Bytes) : Outcome :=
  match readHeader file with
  | .error e => .error e
  | .ok (header, rest) =>
    match scanRecords file.length rest with
    | .error e => .error e
    | .ok records =>
      match fillFilters header.filterValues header.filterMel header.filterFft with
      | none => .outOfBounds
      | some filters =>
        let f : WhisperFile := ⟨header.hparams, header.filterMel, header.filterFft, filters, header.vocab,
          records, file.length⟩
        match f.validate with
        | some e => .error e
        | none => .opened f

end Whisper

end FortAI
