import FortAI.Machine.Scanner
import FortAI.Machine.Character
import FortAI.Status

/-!
# GGUF files

`gguf_file_open` reads metadata and an index of tensors, and then the payload of each tensor, from a
mapping of the file or into memory of its own.

Not every status of a read is looked at, but at the end of the file all reads behind a failed one
fail as well; the error is that of the status that is looked at next.

* `readString`, `readValue`, `readMetadata` : the metadata.
* `readInfo`, `readIndex` : the index of the tensors.
* `loadPayload`, `openFile` : the payloads and the whole.
-/

namespace FortAI

namespace Gguf

open Binary Scanner
open CString (ascii)
open Character (same)

/-! ### Outcomes -/

inductive OpenError
  | malformedHeader | negativeCounts | unreadableMetadata | invalidRank | unreadableIndex
  | narrowQ8 | narrowMixed | unsupportedQuantization | unreadableData
  deriving DecidableEq

def OpenError.fault : OpenError → Fault
  | unreadableMetadata | unreadableIndex | unreadableData => .ioError
  | unsupportedQuantization => .unsupported
  | _ => .invalid

def OpenError.message : OpenError → String
  | malformedHeader => "unsupported or malformed GGUF header"
  | negativeCounts => "GGUF counts cannot be negative"
  | unreadableMetadata => "could not read GGUF metadata"
  | invalidRank => "invalid GGUF tensor rank"
  | unreadableIndex => "could not read GGUF tensor index"
  | narrowQ8 => "Q8_0 tensor width is not a multiple of 32"
  | narrowMixed => "mixed-quant tensor width is not block aligned"
  | unsupportedQuantization => "GGUF tensor quantization is not supported"
  | unreadableData => "could not read GGUF tensor data"

/-- An `allocate`: so many elements of `metadata`, a character value, and so on. -/
inductive Request
  | metadata (n : ℕ) | text (n : ℕ) | integers (n : ℕ) | strings (n : ℕ) | tensors (n : ℕ)
  | payload (n : ℕ)
  deriving DecidableEq

/-- What reads a GGUF file. -/
abbrev Reader := Scanner Request OpenError

/-! ### Strings -/

/-- A string with the length that stands in front of it in the file; there is no value where it was
not allocated. -/
structure Text where
  declared : ℕ
  value : Option Bytes
  deriving DecidableEq

/-- `read_string`, with the error that is reported behind it where the string does not end. -/
def readString (e : OpenError) : Reader Text := do
  let s ← next 8 e
  let length := signed .int64 (unsigned s)
  if length < 0 then pure ⟨unsigned s, none⟩
  else do
    ask (.text length.toNat)
    let value ← next length.toNat e
    pure ⟨unsigned s, some value⟩

/-! ### Metadata -/

/-- The values of metadata.  An array comes with the count that stands in the file; of the elements
of some types there is only their number. -/
inductive Value
  | integer (x : ℤ)
  | real (bits : Bytes)
  | logical (b : Bool)
  | string (text : Text)
  | integers (declared : ℕ) (elementType : ℤ) (xs : List ℤ)
  | strings (declared : ℕ) (xs : List Text)
  | skipped (declared : ℕ) (elementType : ℤ) (n : ℕ)

/-- `gguf_meta_t` -/
structure Meta where
  key : Text
  valueType : ℤ
  value : Value

/-- An entry that nothing was read into. -/
def Meta.unread : Meta := ⟨⟨0, none⟩, -1, .integer 0⟩

/-- The number of bytes that `skip_metadata_value` reads for a value that is no string. -/
def skipSize (valueType : ℤ) : Option ℕ :=
  if valueType ∈ [0, 1, 7] then some 1
  else if valueType ∈ [2, 3] then some 2
  else if valueType ∈ [4, 5, 6] then some 4
  else if valueType ∈ [10, 11, 12] then some 8
  else none

/-- `skip_metadata_value` -/
def skipValue (valueType : ℤ) : Reader Unit :=
  if valueType = 8 then do
    let _ ← readString .unreadableMetadata
    pure ()
  else
    match skipSize valueType with
    | none => fail .unreadableMetadata
    | some n => do
      let _ ← next n .unreadableMetadata
      pure ()

/-- The branch of `read_metadata_value` for arrays. -/
def readArray : Reader Value := do
  let elementType ← nextInt .int32 .unreadableMetadata
  let s ← next 8 .unreadableMetadata
  let declared := unsigned s
  -- an array of a negative size is empty, and a loop to a negative count is not entered
  let n := (signed .int64 declared).toNat
  if elementType ∈ [4, 5, 10, 11] then do
    ask (.integers n)
    let w := if elementType ∈ [4, 5] then Width.int32 else Width.int64
    let xs ← times n (nextInt w .unreadableMetadata)
    pure (.integers declared elementType xs)
  else if elementType = 8 then do
    ask (.strings n)
    let xs ← times n (readString .unreadableMetadata)
    pure (.strings declared xs)
  else do
    let xs ← times n (skipValue elementType)
    pure (.skipped declared elementType xs.length)

/-- A value of metadata that is an integer. -/
def readInteger (w : Width) (f : ℤ → ℤ) : Reader Value := do
  let x ← nextInt w .unreadableMetadata
  pure (.integer (f x))

/-- A value of metadata that is a real number. -/
def readReal (n : ℕ) : Reader Value := do
  let bits ← next n .unreadableMetadata
  pure (.real bits)

/-- `read_metadata_value` -/
def readValue (valueType : ℤ) : Reader Value :=
  if valueType = 0 then readInteger .int8 (· % 256)
  else if valueType = 1 then readInteger .int8 id
  else if valueType = 2 then readInteger .int16 (· % 65536)
  else if valueType = 3 then readInteger .int16 id
  else if valueType = 5 then readInteger .int32 id
  else if valueType = 4 then readInteger .int32 (· % 4294967296)
  else if valueType = 10 ∨ valueType = 11 then readInteger .int64 id
  else if valueType = 6 then readReal 4
  else if valueType = 12 then readReal 8
  else if valueType = 7 then do
    let x ← nextInt .int8 .unreadableMetadata
    pure (.logical (x != 0))
  else if valueType = 8 then do
    let text ← readString .unreadableMetadata
    pure (.string text)
  else if valueType = 9 then readArray
  else fail .unreadableMetadata

/-- The body of the loop over the metadata. -/
def readMeta : Reader Meta := do
  let key ← readString .unreadableMetadata
  let valueType ← nextInt .int32 .unreadableMetadata
  let value ← readValue valueType
  pure ⟨key, valueType, value⟩

/-- `gguf_file_meta_int` -/
def metaInt (metadata : List Meta) (key : Bytes) (fallback : ℤ) : ℤ :=
  match metadata.find? fun entry => same (entry.key.value.getD []) key with
  | some ⟨_, _, .integer x⟩ => x
  | _ => fallback

/-! ### The index of tensors -/

/-- `quant_layout`: the width and the size of a block. -/
def quantLayout (valueType : ℤ) : ℤ × ℤ :=
  if valueType = 11 then (256, 110)
  else if valueType = 12 then (256, 144)
  else if valueType = 13 then (256, 176)
  else if valueType = 14 then (256, 210)
  else if valueType = 20 then (32, 18)
  else if valueType = 21 then (256, 110)
  else if valueType = 23 then (256, 136)
  else (0, 0)

/-- `tensor_elements` -/
def tensorElements (shape : List ℤ) : ℤ := product .int64 shape

/-- The size of a tensor whose rows are whole blocks. -/
def blockBytes (shape : List ℤ) (elements width size : ℤ) (e : OpenError) : Except OpenError ℤ :=
  let first := shape.headD 0
  if first ≤ 0 ∨ first.tmod width ≠ 0 then .error e
  else .ok (wrap .int64 (wrap .int64 (elements.tdiv first * first.tdiv width) * size))

/-- `tensor_bytes` -/
def tensorBytes (valueType : ℤ) (shape : List ℤ) (elements : ℤ) : Except OpenError ℤ :=
  if valueType = 0 then .ok (wrap .int64 (4 * elements))
  else if valueType = 1 then .ok (wrap .int64 (2 * elements))
  else if valueType = 8 then blockBytes shape elements 32 34 .narrowQ8
  else if valueType ∈ [11, 12, 13, 14, 20, 21, 23] then
    blockBytes shape elements (quantLayout valueType).1 (quantLayout valueType).2 .narrowMixed
  else .error .unsupportedQuantization

/-- A part of `gguf_tensor_t`: what the index says of a tensor. -/
structure Info where
  name : Text
  shape : List ℤ
  valueType : ℤ
  fileOffset : ℤ
  byteCount : ℤ

/-- An entry that nothing was read into. -/
def Info.unread : Info := ⟨⟨0, none⟩, [], -1, 0, 0⟩

/-- The body of the loop over the index. -/
def readInfo : Reader Info := do
  let name ← readString .invalidRank
  let rank ← nextInt .int32 .invalidRank
  if rank ≤ 0 ∨ 4 < rank then fail .invalidRank
  else do
    let shape ← times rank.toNat (nextInt .int64 .unreadableIndex)
    let valueType ← nextInt .int32 .unreadableIndex
    let fileOffset ← nextInt .int64 .unreadableIndex
    match tensorBytes valueType shape (tensorElements shape) with
    | .error e => fail e
    | .ok byteCount => pure ⟨name, shape, valueType, fileOffset, byteCount⟩

/-- `align_up` -/
def alignUp (value alignment : ℤ) : ℤ :=
  wrap .int64 ((wrap .int64 (wrap .int64 (value + alignment) - 1)).tdiv alignment * alignment)

/-- A part of `gguf_file_t`: all but the payloads; `position` is where the index ends. -/
structure Index where
  metadataCount : ℤ
  tensorCount : ℤ
  metadata : List Meta
  alignment : ℤ
  infos : List Info
  position : ℤ
  dataStart : ℤ

/-- The number of iterations of `do i = 1, int(count)`: `int` keeps the lowest 32 bits. -/
def iterations (count : ℤ) : ℕ := (wrap .int32 count).toNat

/-- An array of this size, of which the loop has read the elements that it reaches. -/
def padded {α : Type} (count : ℤ) (unread : α) (xs : List α) : List α :=
  xs ++ List.replicate (count.toNat - iterations count) unread

/-- The alignment of the data. -/
def alignment (metadata : List Meta) : ℤ :=
  let given := metaInt metadata (ascii "general.alignment") 32
  if given ≤ 0 then 32 else given

/-- The part of `gguf_file_open` behind the header of a file of this size. -/
def readEntries (size : ℕ) (tensorCount metadataCount : ℤ) : Reader Index := do
  ask (.metadata metadataCount.toNat)
  let entries ← times (iterations metadataCount) readMeta
  let metadata := padded metadataCount .unread entries
  ask (.tensors tensorCount.toNat)
  let infos ← times (iterations tensorCount) readInfo
  let rest ← left
  pure {
    metadataCount, tensorCount, metadata
    alignment := alignment metadata
    infos := padded tensorCount .unread infos
    position := size - rest
    dataStart := alignUp (size - rest) (alignment metadata) }

def magic : Bytes := ascii "GGUF"

/-- The part of `gguf_file_open` in front of the payloads. -/
def readIndex (size : ℕ) : Reader Index := do
  let word ← next 4 .malformedHeader
  let version ← nextInt .int32 .malformedHeader
  let tensorCount ← nextInt .int64 .malformedHeader
  let metadataCount ← nextInt .int64 .malformedHeader
  if word ≠ magic ∨ version ≠ 3 then fail .malformedHeader
  else if tensorCount < 0 ∨ metadataCount < 0 then fail .negativeCounts
  else readEntries size tensorCount metadataCount

/-! ### Payloads -/

/-- A number in two's complement as a `size_t`. -/
def sizeT (x : ℤ) : ℕ := (x % 18446744073709551616).toNat

/-- `fortai_gguf_mmap_slice` -/
def mmapSlice (file : Bytes) (offset size : ℕ) : Option Bytes :=
  if size = 0 ∨ file.length < offset ∨ file.length - offset < size then none
  else some ((file.drop offset).take size)

/-- `read (unit, pos=position)` of so many bytes. -/
def readAt (file : Bytes) (position : ℤ) (n : ℕ) : Option Bytes :=
  -- `pos=` has to be positive
  if position ≤ 0 then none else (Binary.read n (file.drop (position - 1).toNat)).map Prod.fst

/-- The payload of a tensor, from the mapping of the file or read into memory. -/
def loadPayload (mapped : Bool) (file : Bytes) (dataStart : ℤ) (info : Info) : Reader Bytes :=
  let offset := wrap .int64 (dataStart + info.fileOffset)
  let slice := if mapped && decide (info.byteCount ≤ 2147483647) then
    mmapSlice file (sizeT offset) (sizeT info.byteCount) else none
  match slice with
  | some bytes => pure bytes
  | none => do
    ask (.payload info.byteCount.toNat)
    match readAt file (wrap .int64 (offset + 1)) info.byteCount.toNat with
    | none => fail .unreadableData
    | some bytes => pure bytes

/-- `gguf_file_t` -/
structure GgufFile where
  index : Index
  payloads : List Bytes

/-- The body of `gguf_file_open`; `mapped` says whether the file was mapped. -/
def readFile (mapped : Bool) (file : Bytes) : Reader GgufFile := do
  let index ← readIndex file.length
  let payloads ← each (loadPayload mapped file index.dataStart)
    (index.infos.take (iterations index.tensorCount))
  pure ⟨index, payloads⟩

/-- Whether there is room for all these allocations. -/
abbrev Memory := List Request → Bool

/-- How opening a file ends.  An `allocate` without room terminates the program. -/
inductive Outcome
  | reported (e : OpenError)
  | terminated
  | opened (f : GgufFile)

/-- `gguf_file_open`, from the bytes of the file on. -/
def openFile (room : Memory) (mapped : Bool) (file : Bytes) : Outcome :=
  let run := (readFile mapped file).run file
  if room run.1 = false then .terminated
  else
    match run.2 with
    | .error e => .reported e
    | .ok (f, _) => .opened f

end Gguf

end FortAI
