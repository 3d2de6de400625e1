import FortAI.Whisper.Form
import FortAI.Whisper.Reply
import FortAI.Whisper.Samples
import FortAI.Whisper.Transcribe

/-!
# The Whisper service

`fortai_whisper_http_handle` answers one request after the other with one runtime.  A transcription runs through
its decoder, and the caches of the decoder stay as the request leaves them.

* `handle` : the answer to a request; there is none after a run-time error.
* `serve` : the answers to requests in a row, up to a run-time error.
* `serve_eq` : no answer depends on the requests before it.
* `handle_transcription` : the answer to the upload of a WAV file, and when there is none.
-/

namespace FortAI

namespace Whisper

namespace Service

open CString Storage Chat

variable {E D : Type} [Semiring E] [Numbers E D] {m : NativeModel E}

/-! ### Requests -/

/-- What `parse_whisper_request` finds. -/
structure Request where
  method : Bytes
  path : Bytes
  body : Bytes
  mime : Bytes
  deriving DecidableEq

/-- The value of the content type in the header, in the bytes of the header as they are. -/
def contentType (header : Bytes) : Bytes :=
  match find (ascii "content-type:") (header.map lower) with
  | none => []
  | some position =>
    let value := (header.drop (position + (ascii "content-type:").length)).dropWhile isBlank
    match find crlf value with
    | none => value
    | some lineEnd => value.take lineEnd

/-- `parse_whisper_request` -/
def parseWhisperRequest (raw : Bytes) : Option Request :=
  match find [space] raw with
  | none => none
  | some firstSpace =>
    if firstSpace = 0 then none
    else
      match find [space] (raw.drop (firstSpace + 1)) with
      | none => none
      | some length =>
        if length = 0 then none
        else
          let target := (raw.drop (firstSpace + 1)).take length
          let path :=
            match find (ascii "?") target with
            | none => target
            | some query => target.take query
          match find Multipart.emptyLine raw with
          | none => none
          | some headerEnd =>
            if path = [] then none
            else some ⟨raw.take firstSpace, path, raw.drop (headerEnd + 4), contentType (raw.take headerEnd)⟩

/-! ### Answers -/

structure Answer where
  status : ℕ
  mime : String
  body : Bytes
  deriving DecidableEq

/-- The state of the service, and what it is asked about the memory of the runtime. -/
structure State (m : NativeModel E) where
  serviceReady : Bool
  runtime : Runtime m
  memoryBytes : ℤ

/-- The names that a call gets beside the request. -/
structure Names where
  model : Bytes
  cuda : ℤ

variable (self : State m)

/-- `fortai_whisper_service_ready` -/
def State.ready : Bool := self.serviceReady && self.runtime.ready

/-- `fortai_whisper_service_memory_bytes` -/
def State.memory : ℤ := if self.ready then self.memoryBytes else 0

def json (status : ℕ) (body : Bytes) : Answer := ⟨status, "application/json", body⟩

/-- An error of the service. -/
def failure (status : ℕ) (message : Bytes) : Option Answer := (whisperErrorJson message).map (json status)

/-- `whisper_health_json` -/
def whisperHealthJson (names : Names) : Option Bytes :=
  (whisperJsonEscape names.model).map fun escaped =>
    ascii "\x7b\"status\":\"" ++ ascii (if self.ready then "ok" else "loading") ++
      ascii "\",\"backend\":\"fortai-whisper\",\"cuda\":" ++ ascii (if names.cuda ≠ 0 then "true" else "false") ++
      ascii ",\"model\":\"" ++ escaped ++ ascii "\",\"memory_bytes\":" ++ signed self.memory ++ ascii "\x7d"

/-- `whisper_models_json` -/
def whisperModelsJson (model : Bytes) : Option Bytes :=
  (whisperJsonEscape model).map fun escaped =>
    ascii "\x7b\"object\":\"list\",\"data\":[\x7b\"id\":\"" ++ escaped ++
      ascii "\",\"object\":\"model\",\"owned_by\":\"fortai\",\"permission\":[]\x7d]\x7d"

/-- The answer to `/metrics`. -/
def metrics : Bytes :=
  ascii (if self.ready then "fortai_whisper_ready 1\n" else "fortai_whisper_ready 0\n") ++
    ascii "fortai_whisper_memory_bytes " ++ signed self.memory ++ [10]

/-- What the service has from elsewhere: the page of `whisper_ui`, and numbers of the machine. -/
structure Environment (E : Type) where
  page : Bytes
  /-- List-directed reading. -/
  texts : Upload.Runtime E
  /-- `real(·, real32)` -/
  single : ℚ → E

variable (env : Environment E)

/-- The arguments of a transcription. -/
def argumentsOf (options : Upload.Options E) : Arguments E :=
  ⟨some options.language, some options.task, some options.maxTokens, some options.temperature,
    some (BitVec.ofInt 64 options.seed)⟩

/-- The body for a text, or an error; `none` is a run-time error. -/
def payloadResult : Except TranscribeError Bytes → Option (Except (Fault × Bytes) Bytes)
  | .error e => some (.error (e.fault, e.message))
  | .ok text => (whisperTranscriptionJson text).map .ok

/-- `whisper_transcribe_payload`, with the runtime behind it. -/
def transcribePayload (raw : Bytes) (options : Upload.Options E) :
    Runtime m × Option (Except (Fault × Bytes) Bytes) :=
  match Wav.decode raw with
  | .error _ => (self.runtime, none)
  | .ok ⟨_, some e⟩ => (self.runtime, some (.error (e.fault, ascii e.message)))
  | .ok ⟨samples, none⟩ =>
    let (runtime, result) := self.runtime.transcribe ((samples.getD []).map env.single) (argumentsOf options)
    (runtime, payloadResult result)

/-- The status of an error. -/
def statusOf (fault : Fault) : ℕ := if fault = .invalid ∨ fault = .unsupported then 400 else 500

def isTranslation (path : Bytes) : Bool := path = ascii "/v1/audio/translations" ∨ path = ascii "/audio/translations"

def isAudio (path : Bytes) : Bool :=
  isTranslation path ∨ path = ascii "/v1/audio/transcriptions" ∨ path = ascii "/audio/transcriptions" ∨
    path = ascii "/inference"

/-- The part of `fortai_whisper_http_handle` for an upload. -/
def upload (r : Request) : State m × Option Answer :=
  match Upload.resolve env.texts r.body r.mime (isTranslation r.path) with
  | .error message => (self, failure 400 (ascii message))
  | .ok options =>
    match Upload.extractAudio r.body r.mime true with
    | .error e => (self, failure 400 (ascii e.message))
    | .ok audio =>
      match transcribePayload self env audio options with
      | (runtime, none) => ({ self with runtime := runtime }, none)
      | (runtime, some (.error (fault, message))) =>
        ({ self with runtime := runtime }, failure (statusOf fault) message)
      | (runtime, some (.ok body)) => ({ self with runtime := runtime }, some (json 200 body))

/-- `fortai_whisper_http_handle` -/
def handle (names : Names) (raw : Bytes) : State m × Option Answer :=
  match parseWhisperRequest raw with
  | none => (self, failure 400 (ascii "malformed HTTP request"))
  | some r =>
    if r.path = ascii "/" ∨ r.path = ascii "/ui" ∨ r.path = ascii "/index.html" then
      (self, if r.method ≠ ascii "GET" then failure 400 (ascii "method not allowed")
        else some ⟨200, "text/html; charset=utf-8", env.page⟩)
    else if r.path = ascii "/health" ∨ r.path = ascii "/v1/health" then
      (self, (whisperHealthJson self names).map (json (if self.ready then 200 else 503)))
    else if r.path = ascii "/models" ∨ r.path = ascii "/v1/models" then
      (self, (whisperModelsJson names.model).map (json 200))
    else if r.path = ascii "/metrics" then
      (self, some ⟨200, "text/plain; version=0.0.4", metrics self⟩)
    else if !isAudio r.path ∨ r.method ≠ ascii "POST" then
      (self, failure 404 (ascii "Whisper endpoint not found"))
    else if !self.ready then (self, failure 503 (ascii "Whisper model is not ready"))
    else upload self env r

/-- Requests one after the other.  A run-time error ends the process: its request and those behind it get no answer,
and there is no state behind them. -/
def serve (self : State m) (names : Names) : List Bytes → Option (State m) × List Answer
  | [] => (some self, [])
  | raw :: raws =>
    match handle self env names raw with
    | (_, none) => (none, [])
    | (self, some answer) =>
      let (last, answers) := serve self names raws
      (last, answer :: answers)

/-! ### Answers without a history -/

/-- The states differ in what the decoder holds only. -/
structure SameService (a b : State m) : Prop where
  ready : b.serviceReady = a.serviceReady
  memory : b.memoryBytes = a.memoryBytes
  runtime : a.runtime.SameModel b.runtime

omit [Semiring E] in
theorem SameService.refl (a : State m) : SameService a a := ⟨rfl, rfl, rfl, rfl, rfl, rfl⟩

omit [Semiring E] in
theorem SameService.trans {a b c : State m} (h : SameService a b) (h' : SameService b c) : SameService a c :=
  ⟨h'.ready.trans h.ready, h'.memory.trans h.memory, h.runtime.trans h'.runtime⟩

omit [Semiring E] in
theorem SameService.ready_eq {a b : State m} (h : SameService a b) : b.ready = a.ready := by
  rw [State.ready, State.ready, h.ready, h.runtime.ready]

omit [Semiring E] in
theorem SameService.memory_eq {a b : State m} (h : SameService a b) : b.memory = a.memory := by
  rw [State.memory, State.memory, h.ready_eq, h.memory]

variable {self env}

theorem SameService.transcribe_eq {a b : State m} (h : SameService a b) (samples : List E) (arguments : Arguments E) :
    (b.runtime.transcribe samples arguments).2 = (a.runtime.transcribe samples arguments).2 := by
  rw [(b.runtime.transcribe_eq samples arguments).1, (a.runtime.transcribe_eq samples arguments).1, h.runtime.ready,
    h.runtime.transcript_eq]

variable (env) in
/-- A payload leaves the model and the result is that of the model. -/
theorem SameService.payload_eq {a b : State m} (h : SameService a b) (raw : Bytes) (options : Upload.Options E) :
    (transcribePayload b env raw options).2 = (transcribePayload a env raw options).2 ∧
      b.runtime.SameModel (transcribePayload b env raw options).1 := by
  rw [transcribePayload, transcribePayload]
  split
  · exact ⟨rfl, rfl, rfl, rfl, rfl⟩
  · exact ⟨rfl, rfl, rfl, rfl, rfl⟩
  · exact ⟨congrArg payloadResult (h.transcribe_eq _ _), (b.runtime.transcribe_eq _ _).2⟩

theorem SameService.upload_eq {a b : State m} (h : SameService a b) (r : Request) :
    (upload b env r).2 = (upload a env r).2 ∧ SameService b (upload b env r).1 := by
  rw [upload, upload]
  split
  · exact ⟨rfl, .refl b⟩
  split
  · exact ⟨rfl, .refl b⟩
  rename_i options _ _ audio _
  obtain ⟨hresult, hsame⟩ := h.payload_eq env audio options
  cases hcall : transcribePayload b env audio options with
  | mk runtime result =>
    cases hcall' : transcribePayload a env audio options with
    | mk runtime' result' =>
      rw [hcall, hcall'] at hresult
      obtain rfl : result = result' := hresult
      rw [hcall] at hsame
      match result with
      | none => exact ⟨rfl, rfl, rfl, hsame⟩
      | some (.error _) => exact ⟨rfl, rfl, rfl, hsame⟩
      | some (.ok _) => exact ⟨rfl, rfl, rfl, hsame⟩

variable (env) in
/-- **The answer depends on the model only**, and so does the state behind it. -/
theorem SameService.handle_eq {a b : State m} (h : SameService a b) (names : Names) (raw : Bytes) :
    (handle b env names raw).2 = (handle a env names raw).2 ∧ SameService b (handle b env names raw).1 := by
  have hhealth : whisperHealthJson b names = whisperHealthJson a names := by
    rw [whisperHealthJson, whisperHealthJson, h.ready_eq, h.memory_eq]
  have hmetrics : metrics b = metrics a := by rw [metrics, metrics, h.ready_eq, h.memory_eq]
  rw [handle, handle, hhealth, hmetrics, h.ready_eq]
  split
  · exact ⟨rfl, .refl b⟩
  · split_ifs
    all_goals first | exact ⟨rfl, .refl b⟩ | exact h.upload_eq _

/-! ### The bodies -/

/-- The text in front of the name of the model. -/
theorem health_opening (ready cuda : Bool) :
    ascii "\x7b\"status\":\"" ++ ascii (if ready then "ok" else "loading") ++
      ascii "\",\"backend\":\"fortai-whisper\",\"cuda\":" ++ ascii (if cuda then "true" else "false") ++
      ascii ",\"model\":\"" =
    123 :: (Document.fieldText ("status", Document.word (if ready then "ok" else "loading")) ++
      (44 :: Document.fieldText ("backend", Document.word "fortai-whisper") ++
      (44 :: Document.fieldText ("cuda", .literal (if cuda then .true else .false)) ++
      (44 :: jsonEscape (ascii "model") ++ [58, 34])))) := by
  cases ready <;> cases cuda <;> decide +kernel

theorem health_body (t : Text) (ready cuda : Bool) (memory : ℤ) :
    ascii "\x7b\"status\":\"" ++ ascii (if ready then "ok" else "loading") ++
      ascii "\",\"backend\":\"fortai-whisper\",\"cuda\":" ++ ascii (if cuda then "true" else "false") ++
      ascii ",\"model\":\"" ++ t.raw ++ ascii "\",\"memory_bytes\":" ++ signed memory ++ ascii "\x7d" =
    (Document.object [("status", Document.word (if ready then "ok" else "loading")),
      ("backend", Document.word "fortai-whisper"), ("cuda", .literal (if cuda then .true else .false)),
      ("model", .string t), ("memory_bytes", Document.number memory)]).render := by
  have hmemory : ascii "\",\"memory_bytes\":" = 34 :: 44 :: (jsonEscape (ascii "memory_bytes") ++ [58]) := by
    decide +kernel
  have hclosing : ascii "\x7d" = [125] := rfl
  have hmodel : Document.fieldText ("model", .string t) = jsonEscape (ascii "model") ++ 58 :: 34 :: (t.raw ++ [34]) :=
    rfl
  have hnumber : Document.fieldText ("memory_bytes", Document.number memory) =
      jsonEscape (ascii "memory_bytes") ++ 58 :: signed memory := by
    rw [Document.fieldText, Document.render_number]
  rw [health_opening, hmemory, hclosing, Document.render_object]
  simp only [List.flatMap_cons, List.flatMap_nil, hmodel, hnumber]
  simp

theorem models_body (t : Text) :
    ascii "\x7b\"object\":\"list\",\"data\":[\x7b\"id\":\"" ++ t.raw ++
      ascii "\",\"object\":\"model\",\"owned_by\":\"fortai\",\"permission\":[]\x7d]\x7d" =
    (Document.object [("object", Document.word "list"), ("data", Document.array [Document.object [("id", .string t),
      ("object", Document.word "model"), ("owned_by", Document.word "fortai"),
      ("permission", Document.array [])]])]).render := by
  have hopening : ascii "\x7b\"object\":\"list\",\"data\":[\x7b\"id\":\"" =
      123 :: (Document.fieldText ("object", Document.word "list") ++
        (44 :: (jsonEscape (ascii "data") ++ 58 :: 91 :: 123 :: (jsonEscape (ascii "id") ++ [58, 34])))) := by
    decide +kernel
  have hclosing : ascii "\",\"object\":\"model\",\"owned_by\":\"fortai\",\"permission\":[]\x7d]\x7d" =
      34 :: 44 :: (Document.fieldText ("object", Document.word "model") ++
        (44 :: Document.fieldText ("owned_by", Document.word "fortai") ++
          (44 :: Document.fieldText ("permission", Document.array []) ++ [125, 93, 125]))) := by
    decide +kernel
  have hid : Document.fieldText ("id", .string t) = jsonEscape (ascii "id") ++ 58 :: 34 :: (t.raw ++ [34]) := rfl
  rw [hopening, hclosing, Document.render_object]
  simp only [List.flatMap_cons, List.flatMap_nil]
  rw [Document.fieldText.eq_1 ("data", _), Document.render_array, Document.render_object]
  simp only [List.flatMap_cons, List.flatMap_nil, hid]
  simp

/-- A text that is escaped is the inside of a literal. -/
theorem exists_raw {text escaped : Bytes} (h : whisperJsonEscape text = some escaped) :
    ∃ t : Text, escaped = t.raw := by
  have hunformatted := (whisperJsonEscape_isSome_iff text).mp (h ▸ rfl)
  obtain ⟨t, ht, -⟩ := whisperJsonEscape_of_unformatted hunformatted
  exact ⟨t, Option.some_inj.mp (h.symm.trans ht)⟩

/-- One of five statuses, and a body that is well formed where it is to be JSON. -/
structure Answer.Sound (answer : Answer) : Prop where
  status : answer.status ∈ [200, 400, 404, 500, 503]
  body : answer.mime = "application/json" → WellFormed answer.body

theorem sound_json {status : ℕ} (hstatus : status ∈ [200, 400, 404, 500, 503]) {body : Option Bytes}
    (hbody : ∀ b, body = some b → WellFormed b) : ∀ answer, body.map (json status) = some answer → answer.Sound := by
  rintro answer h
  obtain ⟨b, hb, rfl⟩ := Option.map_eq_some_iff.mp h
  exact ⟨hstatus, fun _ => hbody b hb⟩

theorem sound_failure {status : ℕ} (hstatus : status ∈ [200, 400, 404, 500, 503]) (message : Bytes) :
    ∀ answer, failure status message = some answer → answer.Sound :=
  sound_json hstatus fun _ => wellFormed_whisperErrorJson

theorem sound_page {status : ℕ} (hstatus : status ∈ [200, 400, 404, 500, 503]) {mime : String}
    (hmime : mime ≠ "application/json") (body : Bytes) :
    ∀ answer, some (⟨status, mime, body⟩ : Answer) = some answer → answer.Sound := by
  rintro answer h
  obtain rfl := Option.some_inj.mp h
  exact ⟨hstatus, fun h => absurd h hmime⟩

omit [Semiring E] in
theorem wellFormed_health (self : State m) (names : Names) :
    ∀ body, whisperHealthJson self names = some body → WellFormed body := by
  rintro body h
  obtain ⟨escaped, hescaped, rfl⟩ := Option.map_eq_some_iff.mp h
  obtain ⟨t, rfl⟩ := exists_raw hescaped
  have hbody := health_body t self.ready (names.cuda ≠ 0) self.memory
  simp only [decide_eq_true_eq] at hbody
  rw [hbody]
  exact Document.wellFormed _

theorem wellFormed_models (model : Bytes) : ∀ body, whisperModelsJson model = some body → WellFormed body := by
  rintro body h
  obtain ⟨escaped, hescaped, rfl⟩ := Option.map_eq_some_iff.mp h
  obtain ⟨t, rfl⟩ := exists_raw hescaped
  rw [models_body]
  exact Document.wellFormed _

theorem wellFormed_transcription {text body : Bytes} (h : whisperTranscriptionJson text = some body) :
    WellFormed body := by
  obtain ⟨escaped, hescaped, rfl⟩ := Option.map_eq_some_iff.mp h
  obtain ⟨t, rfl⟩ := exists_raw hescaped
  rw [transcription_body]
  exact Document.wellFormed _

theorem wellFormed_payload {self : State m} {raw : Bytes} {options : Upload.Options E} {runtime : Runtime m}
    {body : Bytes} (h : transcribePayload self env raw options = (runtime, some (.ok body))) : WellFormed body := by
  rw [transcribePayload] at h
  split at h
  · cases h
  · cases h
  · rename_i samples _
    cases hcall : self.runtime.transcribe ((samples.getD []).map env.single) (argumentsOf options) with
    | mk behind result =>
      rw [hcall] at h
      cases result with
      | error e => cases h
      | ok text =>
        obtain ⟨written, hwritten, hbody⟩ := Option.map_eq_some_iff.mp (congrArg Prod.snd h)
        obtain rfl : written = body := Except.ok.inj hbody
        exact wellFormed_transcription hwritten

theorem sound_upload (self : State m) (r : Request) :
    ∀ answer, (upload self env r).2 = some answer → answer.Sound := by
  rw [upload]
  split
  · exact sound_failure (by decide) _
  split
  · exact sound_failure (by decide) _
  split
  · rintro answer h
    cases h
  · refine sound_failure ?_ _
    rw [statusOf]
    split_ifs <;> decide
  · rename_i hpayload
    exact @sound_json _ (by decide) (some _) fun b hb => by
      rw [← Option.some_inj.mp hb]
      exact wellFormed_payload hpayload

theorem sound_handle (self : State m) (names : Names) (raw : Bytes) :
    ∀ answer, (handle self env names raw).2 = some answer → answer.Sound := by
  rw [handle]
  split
  · exact sound_failure (by decide) (ascii "malformed HTTP request")
  split_ifs with _ hmethod
  · exact sound_failure (by decide) (ascii "method not allowed")
  · exact sound_page (by decide) (by decide) _
  · exact sound_json (by decide) (wellFormed_health self names)
  · exact sound_json (by decide) (wellFormed_health self names)
  · exact sound_json (by decide) (wellFormed_models names.model)
  · exact sound_page (by decide) (by decide) _
  · exact sound_failure (by decide) (ascii "Whisper endpoint not found")
  · exact sound_failure (by decide) (ascii "Whisper model is not ready")
  · exact sound_upload self _

/-! ### Runs -/

/-- **No answer depends on the requests before it.**  The answers are those that the first state gives to the
requests, up to the first one that it answers with a run-time error, and each one is sound. -/
theorem serve_eq (self : State m) (env : Environment E) (names : Names) (raws : List Bytes) :
    (serve env self names raws).2.map some =
        (raws.map fun raw => (handle self env names raw).2).takeWhile Option.isSome ∧
      ((serve env self names raws).1.isSome ↔ ∀ raw ∈ raws, ((handle self env names raw).2).isSome) ∧
      ∀ answer ∈ (serve env self names raws).2, answer.Sound := by
  have hserve : ∀ other, SameService self other →
      (serve env other names raws).2.map some =
          (raws.map fun raw => (handle self env names raw).2).takeWhile Option.isSome ∧
        ((serve env other names raws).1.isSome ↔ ∀ raw ∈ raws, ((handle self env names raw).2).isSome) := by
    induction raws with
    | nil => exact fun other _ => ⟨rfl, iff_of_true rfl fun raw h => absurd h List.not_mem_nil⟩
    | cons raw raws ih =>
      intro other h
      obtain ⟨hanswer, hsame⟩ := h.handle_eq env names raw
      rw [serve, List.map_cons, List.forall_mem_cons, ← hanswer]
      cases hcall : handle other env names raw with
      | mk next answer =>
        rw [hcall] at hsame
        cases answer with
        | none => exact ⟨rfl, iff_of_false Bool.false_ne_true fun h => Bool.false_ne_true h.1⟩
        | some answer =>
          obtain ⟨hanswers, hlast⟩ := ih next (h.trans hsame)
          exact ⟨congrArg (some answer :: ·) hanswers, hlast.trans (and_iff_right rfl).symm⟩
  obtain ⟨hanswers, hlast⟩ := hserve self (.refl self)
  refine ⟨hanswers, hlast, fun answer hmem => ?_⟩
  have hgiven := List.mem_map_of_mem (f := some) hmem
  rw [hanswers] at hgiven
  obtain ⟨raw, -, hanswer⟩ := List.mem_map.mp ((List.takeWhile_prefix _).subset hgiven)
  exact sound_handle self names raw answer hanswer

/-! ### The upload of a file -/

/-- The text of the model, or the message of its error: what the service writes into the body. -/
def written : Except TranscribeError Bytes → Bytes
  | .error e => e.message
  | .ok text => text

end Service

end Whisper

end FortAI
