import FortAI.Machine.Multipart

/-!
# Uploads to the Whisper service

What `fortai_whisper_http_handle` reads from the body of a request: the audio, and the options, each as a
member of a JSON object anywhere in the body, then as a field of a multipart body.  Positions are offsets,
and what is read from one on is the list of the bytes behind it.

* `extractAudio`, `formValue` : `whisper_extract_audio`, `whisper_form_value`.
* `resolve` : the options of a request, or the message of the reply.
-/

namespace FortAI

namespace Whisper

namespace Upload

open CString Multipart

/-! ### The boundary -/

/-- The boundary at the end of a content type, behind `boundary=`. -/
def unquote : Bytes → Bytes
  | 34 :: value => if value.getLast? = some 34 then value.dropLast else value
  | value => value

/-- The content type is that of a form. -/
def isMultipart (contentType : Bytes) : Bool := find (ascii "multipart/form-data") (contentType.map lower) = some 0

/-- The text behind `boundary=`, without trailing blanks, and without the quotes around it. -/
def boundaryValue (contentType : Bytes) : Option Bytes :=
  match find (ascii "boundary=") (contentType.map lower) with
  | none => none
  | some position =>
    some (unquote ((trimEnd (· = space) contentType).drop (position + (ascii "boundary=").length)))

/-- What stands in front of a part. -/
def markerOf (boundary : Bytes) : Bytes := 45 :: (45 :: boundary)

/-! ### The audio -/

inductive AudioError
  | endpoint
  | missingBoundary
  | emptyBoundary
  | truncated
  deriving DecidableEq

def AudioError.message : AudioError → String
  | endpoint => "audio endpoint is invalid"
  | missingBoundary => "multipart audio is missing its boundary"
  | emptyBoundary => "multipart audio boundary is empty"
  | truncated => "audio payload is empty or truncated"

/-- `file_part`, of the text from a delimiter to the empty line, in lower case. -/
def filePart (partHeader : Bytes) : Bool :=
  (find (ascii "filename=") partHeader).isSome || (find (ascii "name=\"file\"") partHeader).isSome ||
    (find (ascii "name=\"audio\"") partHeader).isSome || (find (ascii "content-type: audio/") partHeader).isSome

/-- The loop over the parts: the payload of the first file, empty without one. -/
def scanParts (marker rest : Bytes) : Bytes :=
  match find marker rest with
  | none => []
  | some position =>
    if _hpart : rest.drop position = [] then []
    else
      match find emptyLine (rest.drop position) with
      | none => []
      | some headerEnd =>
        let payload := (rest.drop position).drop (headerEnd + 4)
        match find (crlf ++ marker) payload with
        | none => []
        | some payloadEnd =>
          if filePart (((rest.drop position).take (headerEnd + 4)).map lower) then payload.take payloadEnd
          else scanParts marker (payload.drop (payloadEnd + 1))
termination_by rest.length
decreasing_by
  have := List.length_pos_iff.mpr _hpart
  simp only [List.length_drop] at this ⊢
  omega

/-- `whisper_extract_audio`; a part that is missing is reported as truncated in the end. -/
def extractAudio (rawBody contentType : Bytes) (isAudio : Bool) : Except AudioError Bytes :=
  let check (audio : Bytes) : Except AudioError Bytes := if audio.length < 12 then .error .truncated else .ok audio
  if !isAudio then .error .endpoint
  else if isMultipart contentType then
    match boundaryValue contentType with
    | none => .error .missingBoundary
    | some boundary =>
      if boundary = [] then .error .emptyBoundary else check (scanParts (markerOf boundary) rawBody)
  else check rawBody

/-! ### The fields of a form -/

/-- The name of a field in quotes. -/
def quotedName (field : Bytes) : Bytes := ascii "name=\"" ++ field ++ [34]

/-- The same without quotes. -/
def plainName (field : Bytes) : Bytes := ascii "name=" ++ field

/-- Where the name of a field stands: in quotes anywhere, else without quotes. -/
def namePosition (rawBody field : Bytes) : Option ℕ :=
  match find (quotedName field) rawBody with
  | some position => some position
  | none => find (plainName field) rawBody

/-- The last marker in a text, looking for each one behind the one before. -/
def lastMarker (marker : Bytes) : ℕ → Bytes → Option ℕ
  | 0, _ => none
  | fuel + 1, s =>
    match find marker s with
    | none => none
    | some position =>
      match lastMarker marker fuel (s.drop (position + marker.length)) with
      | none => some position
      | some later => some (position + marker.length + later)

/-- The payload behind the header that a marker begins. -/
def payloadAt (marker rawBody : Bytes) (markerPosition : ℕ) : Option Bytes :=
  match find emptyLine (rawBody.drop markerPosition) with
  | none => none
  | some headerEnd =>
    let payload := (rawBody.drop markerPosition).drop (headerEnd + 4)
    match find (crlf ++ marker) payload with
    | none => none
    | some payloadEnd => if payloadEnd = 0 then none else some (trimEnd (· = space) (payload.take payloadEnd))

/-- `whisper_form_value` -/
def formValue (rawBody contentType field : Bytes) : Option Bytes :=
  if !isMultipart contentType then none
  else
    match boundaryValue contentType with
    | none => none
    | some boundary =>
      if boundary = [] then none
      else
        match namePosition rawBody field with
        | none => none
        | some position =>
          let front := rawBody.take (position + 1)
          (lastMarker (markerOf boundary) front.length front).bind (payloadAt (markerOf boundary) rawBody)

/-! ### Members of a JSON object -/

/-- What stands behind the first colon behind the first such name, in either case. -/
def jsonValue (text key : Bytes) : Option Bytes :=
  match find (34 :: (key.map lower ++ [34])) (text.map lower) with
  | none => none
  | some position =>
    let behind := text.drop (position + key.length + 2)
    (find [colon] behind).map fun colonPosition => behind.drop (colonPosition + 1)

/-- `whisper_json_int`, `whisper_json_int64` and `whisper_json_real`: the bytes of a number, as `read` takes
them. -/
def jsonNumber {N : Type} (digits : Bytes) (read : Bytes → Option N) (text key : Bytes) : Option N :=
  match jsonValue text key with
  | none => none
  | some value =>
    let number := (value.dropWhile isBlank).takeWhile (· ∈ digits)
    if number = [] then none else read number

/-- The byte that an escape stands for. -/
def unescape (b : Byte) : Byte :=
  if b = 98 then 8 else if b = 102 then 12 else if b = 110 then 10 else if b = 114 then 13 else if b = 116 then 9
  else b

/-- The text up to the closing quote. -/
def quotedText : Bytes → Option Bytes
  | [] => none
  | 92 :: b :: s => (quotedText s).map (unescape b :: ·)
  | [92] => none
  | 34 :: _ => some []
  | b :: s => (quotedText s).map (b :: ·)

/-- `whisper_json_string` -/
def jsonString (text key : Bytes) : Option Bytes :=
  match jsonValue text key with
  | none => none
  | some value =>
    match value.dropWhile (· ∈ [space, tab, 10, 13]) with
    | 34 :: s => quotedText s
    | _ => none

/-! ### The options -/

/-- What the runtime makes of a text that is read list-directed, and of a temperature. -/
structure Runtime (R : Type) where
  readInt32 : Bytes → Option ℤ
  readInt64 : Bytes → Option ℤ
  readReal : Bytes → Option R
  zero : R
  /-- Finite and not negative. -/
  allowed : R → Bool

/-- The options of a transcription. -/
structure Options (R : Type) where
  maxTokens : ℤ
  temperature : R
  seed : ℤ
  language : Bytes
  task : Bytes
  deriving DecidableEq

/-- A number: the field of a form goes before the member of an object. -/
def number {N : Type} (read : Bytes → Option N) (field : Option Bytes) (member : Option N) (fallback : N) : N :=
  (match field with
    | some value => read value
    | none => member).getD fallback

variable {R : Type} (runtime : Runtime R)

/-- The part of `fortai_whisper_http_handle` that reads the options; the error is the message of a reply
with the status 400. -/
def resolve (body contentType : Bytes) (isTranslation : Bool) : Except String (Options R) :=
  let integer := ascii "0123456789-"
  let field (name : String) := if isMultipart contentType then formValue body contentType (ascii name) else none
  let maxTokens := number runtime.readInt32 (field "max_tokens")
    (jsonNumber integer runtime.readInt32 body (ascii "max_tokens")) 256
  let temperature := number runtime.readReal (field "temperature")
    (jsonNumber (ascii "0123456789+-.eE") runtime.readReal body (ascii "temperature")) runtime.zero
  let seed := number runtime.readInt64 (field "seed") (jsonNumber integer runtime.readInt64 body (ascii "seed")) 0
  let word (name fallback : String) :=
    ((field name).orElse fun _ => jsonString body (ascii name)).getD (ascii fallback)
  if maxTokens ≤ 0 ∨ maxTokens > 4096 then .error "max_tokens must be between 1 and 4096"
  else if !runtime.allowed temperature then .error "temperature must be finite and non-negative"
  else
    .ok ⟨maxTokens, temperature, seed, word "language" "en",
      if isTranslation then ascii "translate" else word "task" "transcribe"⟩

end Upload

end Whisper

end FortAI
