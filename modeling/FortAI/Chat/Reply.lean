import FortAI.Chat.Document
import FortAI.Chat.ToolCalls

/-!
# The bodies of the replies

`completionBody` is `completion_body` and `responseJson` is `response_json`.  They write a reply
piece by piece; `chatBody`, `textBody` and `responseBody` are the documents they write.

* `completionBody_chat`, `completionBody_text`, `responseJson_eq` : the texts are those of the
  documents.
-/

namespace FortAI

namespace Chat

open CString Document

/-! ### Timings -/

/-- What the format `f0.3` makes of a finite number; there may be no digit before the point. -/
structure Fixed where
  minus : Bool
  int : Bytes
  fraction : Digits
  digit : int.all isDigit = true
  no_zero : int.head? = some 48 → int = [48]

def Fixed.text (x : Fixed) : Bytes :=
  (if x.minus then [45] else []) ++ (x.int ++ 46 :: x.fraction.bytes)

/-- `append_json_real` -/
def jsonReal (x : Fixed) : Bytes :=
  let normalized := if x.text.head? = some 46 then 48 :: x.text else x.text
  if normalized.take 2 = [45, 46] then [45, 48] ++ normalized.drop 1 else normalized

/-- `real64`, as far as `append_timings` computes with it: `rate n ms` is
`1000.0_real64 * real(n, real64) / ms`.  All the numbers are finite, since the service only measures
with a clock that has a rate. -/
structure Real64 (R : Type) where
  zero : R
  max : R → R → R
  positive : R → Bool
  rate : ℤ → R → R
  fixed : R → Fixed

/-- What the service has measured of the last completion. -/
structure Measured (R : Type) where
  promptMs : R
  generationMs : R
  promptTokens : ℤ
  generationTokens : ℤ
  draftTokens : ℤ
  draftAccepted : ℤ

/-- The values that `append_timings` shows. -/
structure Timings where
  promptN : ℤ
  promptMs : Fixed
  promptPerSecond : Fixed
  predictedN : ℤ
  predictedMs : Fixed
  predictedPerSecond : Fixed
  draft : Option (ℤ × ℤ)

/-- `max` of two integers -/
def larger (a b : ℤ) : ℤ := if a < b then b else a

/-- The computations of `append_timings`. -/
def timings {R : Type} (m : Real64 R) (s : Measured R) (promptTokens generationTokens : ℤ) :
    Timings :=
  let promptMs := m.max m.zero s.promptMs
  let generationMs := m.max m.zero s.generationMs
  let measuredPrompt := larger 0 s.promptTokens
  let measuredGeneration := larger 0 s.generationTokens
  let measuredPrompt :=
    if measuredPrompt = 0 ∧ 0 < promptTokens ∧ m.positive promptMs then promptTokens
    else measuredPrompt
  let measuredGeneration :=
    if measuredGeneration = 0 ∧ 0 < generationTokens ∧ m.positive generationMs then generationTokens
    else measuredGeneration
  { promptN := measuredPrompt
    promptMs := m.fixed promptMs
    promptPerSecond :=
      m.fixed (if m.positive promptMs then m.rate measuredPrompt promptMs else m.zero)
    predictedN := larger measuredGeneration (larger 0 generationTokens)
    predictedMs := m.fixed generationMs
    predictedPerSecond :=
      m.fixed (if m.positive generationMs then m.rate measuredGeneration generationMs else m.zero)
    draft := if 0 < s.draftTokens then some (s.draftTokens, s.draftAccepted) else none }

/-- What `append_timings` appends. -/
def Timings.text (t : Timings) : Bytes :=
  ascii "\"timings\":\x7b\"prompt_n\":" ++ signed t.promptN ++
    ascii ",\"prompt_ms\":" ++ jsonReal t.promptMs ++
    ascii ",\"prompt_per_second\":" ++ jsonReal t.promptPerSecond ++
    ascii ",\"predicted_n\":" ++ signed t.predictedN ++
    ascii ",\"predicted_ms\":" ++ jsonReal t.predictedMs ++
    ascii ",\"predicted_per_second\":" ++ jsonReal t.predictedPerSecond ++
    (t.draft.elim [] fun d =>
      ascii ",\"draft_n\":" ++ signed d.1 ++ ascii ",\"draft_n_accepted\":" ++ signed d.2) ++
    ascii "\x7d"

/-! ### The bodies -/

/-- What a reply is made of, with what the service has measured. -/
structure Reply (R : Type) where
  model : Bytes
  content : Bytes
  reasoning : Bytes
  promptTokens : ℤ
  tokens : ℤ
  calls : List ToolCall
  real : Real64 R
  measured : Measured R

section Bodies

variable {R : Type}

/-- `append_timings`, as every body calls it. -/
def appendTimings (r : Reply R) : Bytes :=
  (timings r.real r.measured r.promptTokens r.tokens).text

/-- `append_chat_tool_object` -/
def chatToolObject (call : ToolCall) (index : ℕ) : Bytes :=
  ascii "\x7b\"id\":\"fortai-tool-call-" ++ signed index ++
    ascii "\",\"type\":\"function\",\"function\":\x7b\"name\":" ++ jsonEscape call.name ++
    ascii ",\"arguments\":" ++ jsonEscape call.arguments ++ ascii "\x7d\x7d"

/-- The loop over the tool calls, from the index `i` on. -/
def chatToolObjects (i : ℕ) : List ToolCall → Bytes
  | [] => []
  | call :: rest =>
    (if 1 < i then [44] else []) ++ (chatToolObject call i ++ chatToolObjects (i + 1) rest)

/-- The part of a body from the usage on. -/
def usage (r : Reply R) : Bytes :=
  ascii "\x7d],\"usage\":\x7b\"prompt_tokens\":" ++ signed r.promptTokens ++
    ascii ",\"completion_tokens\":" ++ signed r.tokens ++
    ascii ",\"total_tokens\":" ++ signed (r.promptTokens + r.tokens) ++
    ascii "\x7d," ++ appendTimings r ++ ascii ",\"fortai_backend\":\"fortai\"\x7d" ++ [10]

/-- `completion_body` without a stream; `clock` is the time in seconds. -/
def completionBody (clock : ℤ) (r : Reply R) (chat : Bool) : Bytes :=
  ascii "\x7b\"id\":\"fortai-native\",\"object\":" ++
    (if chat then ascii "\"chat.completion\"" else ascii "\"text_completion\"") ++
    ascii ",\"created\":" ++ signed clock ++ ascii ",\"model\":" ++ jsonEscape r.model ++
    if chat then
      ascii ",\"choices\":[\x7b\"index\":0,\"message\":\x7b\"role\":\"assistant\",\"content\":" ++
        (if r.content = [] ∧ r.calls ≠ [] then ascii "null" else jsonEscape r.content) ++
        (if r.reasoning = [] then []
          else ascii ",\"reasoning_content\":" ++ jsonEscape r.reasoning) ++
        (if r.calls = [] then []
          else ascii ",\"tool_calls\":[" ++ chatToolObjects 1 r.calls ++ ascii "]") ++
        ascii "\x7d,\"finish_reason\":" ++
        (if r.calls = [] then ascii "\"stop\"" else ascii "\"tool_calls\"") ++ usage r
    else
      ascii ",\"choices\":[\x7b\"index\":0,\"text\":" ++ jsonEscape r.content ++
        ascii ",\"finish_reason\":\"stop\"" ++ usage r

/-- The loop over the tool calls in `response_json`. -/
def responseCalls (haveOutput : Bool) (i : ℕ) : List ToolCall → Bytes
  | [] => []
  | call :: rest =>
    (if haveOutput then ascii "," else []) ++
      (ascii "\x7b\"id\":\"fortai-tool-call-" ++ signed i ++
        ascii "\",\"type\":\"function_call\",\"status\":\"completed\"," ++
        ascii "\"call_id\":\"fortai-tool-call-" ++ signed i ++ ascii "\",\"name\":" ++
        jsonEscape call.name ++ ascii ",\"arguments\":" ++ jsonEscape call.arguments ++
        ascii "\x7d") ++ responseCalls true (i + 1) rest

/-- There is a message item. -/
def Reply.hasMessage (r : Reply R) : Bool := r.content ≠ [] ∨ r.calls = []

/-- The items that `response_json` writes. -/
def responseOutput (r : Reply R) : Bytes :=
  (if r.reasoning = [] then []
    else
      ascii "\x7b\"id\":\"fortai-native-reasoning\",\"type\":\"reasoning\",\"status\":\"completed\"," ++
        ascii "\"summary\":[\x7b\"type\":\"summary_text\",\"text\":" ++ jsonEscape r.reasoning ++
        ascii "\x7d]\x7d") ++
    (if r.hasMessage then
        (if r.reasoning = [] then [] else ascii ",") ++
          ascii "\x7b\"id\":\"fortai-native-message\",\"type\":\"message\",\"role\":\"assistant\"," ++
          ascii "\"status\":\"completed\",\"content\":[\x7b\"type\":\"output_text\",\"text\":" ++
          jsonEscape r.content ++ ascii ",\"annotations\":[]\x7d]\x7d"
      else []) ++
    responseCalls (r.reasoning ≠ [] ∨ r.hasMessage) 1 r.calls

/-- `response_json` -/
def responseJson (clock : ℤ) (r : Reply R) : Bytes :=
  ascii "\x7b\"id\":\"fortai-native-response\",\"object\":\"response\",\"created_at\":" ++
    signed clock ++ ascii ",\"completed_at\":" ++ signed clock ++
    ascii ",\"status\":\"completed\",\"model\":" ++ jsonEscape r.model ++ ascii ",\"output\":[" ++
    responseOutput r ++ ascii "],\"input\":[],\"instructions\":null,\"usage\":\x7b\"input_tokens\":" ++
    signed r.promptTokens ++ ascii ",\"output_tokens\":" ++ signed r.tokens ++
    ascii ",\"total_tokens\":" ++ signed (r.promptTokens + r.tokens) ++
    ascii "\x7d,\"store\":false," ++ appendTimings r ++
    ascii ",\"fortai_backend\":\"fortai\"\x7d"

/-! ### The documents -/

/-- The number that `append_json_real` writes. -/
def Fixed.number (x : Fixed) : Number where
  minus := x.minus
  int := if h : x.int = [] then digits 0 else ⟨x.int, h, x.digit⟩
  fraction := some x.fraction
  exponent := none
  no_zero := by
    split_ifs with h
    · exact fun _ => rfl
    · exact x.no_zero
  mark := mark_none

def timingsField (t : Timings) : String × Json .value :=
  ("timings", object ([("prompt_n", number t.promptN), ("prompt_ms", .number t.promptMs.number),
    ("prompt_per_second", .number t.promptPerSecond.number), ("predicted_n", number t.predictedN),
    ("predicted_ms", .number t.predictedMs.number),
    ("predicted_per_second", .number t.predictedPerSecond.number)] ++
      t.draft.elim [] fun d => [("draft_n", number d.1), ("draft_n_accepted", number d.2)]))

/-- A digit is no sign and no point. -/
theorem ne_of_isDigit {b c : Byte} (hb : isDigit b = true) (hc : isDigit c = false) : b ≠ c := by
  rintro rfl
  rw [hb] at hc
  exact Bool.noConfusion hc

theorem jsonReal_eq (x : Fixed) : jsonReal x = (Json.number x.number).render := by
  obtain ⟨minus, int, fraction, digit, no_zero⟩ := x
  show _ = Number.render _
  cases int with
  | nil =>
    cases minus with
    | false => exact (List.append_nil (48 :: 46 :: fraction.bytes)).symm
    | true => exact (List.append_nil (45 :: 48 :: 46 :: fraction.bytes)).symm
  | cons d rest =>
    have hd : isDigit d = true := by
      rw [List.all_cons, Bool.and_eq_true] at digit
      exact digit.1
    have hpoint : d ≠ 46 := ne_of_isDigit hd (by decide)
    have hsign : d ≠ 45 := ne_of_isDigit hd (by decide)
    cases minus with
    | false =>
      have hhead : ¬ (Fixed.text ⟨false, d :: rest, fraction, digit, no_zero⟩).head? = some 46 :=
        fun h => hpoint (Option.some.inj h)
      have htake : ¬ (Fixed.text ⟨false, d :: rest, fraction, digit, no_zero⟩).take 2 = [45, 46] :=
        fun h => hsign (List.cons.inj h).1
      rw [jsonReal]
      simp only [if_neg hhead, if_neg htake]
      show _ = [] ++ (d :: rest) ++ 46 :: fraction.bytes ++ []
      rw [List.append_nil]
      rfl
    | true =>
      have hhead : ¬ (Fixed.text ⟨true, d :: rest, fraction, digit, no_zero⟩).head? = some 46 :=
        fun h => absurd (Option.some.inj h) (by decide)
      have htake : ¬ (Fixed.text ⟨true, d :: rest, fraction, digit, no_zero⟩).take 2 = [45, 46] :=
        fun h => hpoint (List.cons.inj (List.cons.inj h).2).1
      rw [jsonReal]
      simp only [if_neg hhead, if_neg htake]
      show _ = [45] ++ (d :: rest) ++ 46 :: fraction.bytes ++ []
      rw [List.append_nil]
      rfl

theorem timings_text (t : Timings) : t.text = fieldText (timingsField t) := by
  rw [Timings.text, timingsField, fieldText]
  cases hdraft : t.draft with
  | none =>
    simp only [Option.elim, List.append_nil, render_object, List.flatMap_cons, List.flatMap_nil,
      fieldText, render_number, ← jsonReal_eq, List.append_assoc, List.cons_append]
    repeat rw [ascii_ofList]
    rfl
  | some d =>
    simp only [Option.elim, List.cons_append, List.nil_append, render_object, List.flatMap_cons,
      List.flatMap_nil, fieldText, render_number, ← jsonReal_eq, List.append_assoc]
    repeat rw [ascii_ofList]
    rfl

/-- The name of the call with that index. -/
def callId (i : ℕ) : Json .value := string (ascii "fortai-tool-call-" ++ signed i)

theorem jsonEscape_plain {text : Bytes} (h : ∀ b ∈ text, isPlain b = true) :
    jsonEscape text = 34 :: (text ++ [34]) := by
  have hbody : text.flatMap escapeByte = text := by
    induction text with
    | nil => rfl
    | cons b text ih =>
      obtain ⟨hge, hquote, hslash⟩ := isPlain_iff.mp (h b List.mem_cons_self)
      have hb : escapeByte b = [b] := by
        rw [escapeByte_eq, escapePiece, dif_pos (h b List.mem_cons_self)]
        rfl
      rw [List.flatMap_cons, hb, ih fun c hc => h c (List.mem_cons_of_mem b hc)]
      rfl
  rw [jsonEscape, hbody]

theorem render_callId (i : ℕ) :
    (callId i).render = ascii "\"fortai-tool-call-" ++ (signed i ++ [34]) := by
  have hdigit : ∀ b ∈ signed (i : ℤ), isPlain b = true := by
    intro b hb
    have hdigit := isDigit_of_mem_decimal b hb
    rw [isDigit, Bool.and_eq_true, decide_eq_true_eq, decide_eq_true_eq] at hdigit
    have hquote : b ≠ 34 := ne_of_isDigit (isDigit_of_mem_decimal b hb) (by decide)
    have hslash : b ≠ 92 := ne_of_isDigit (isDigit_of_mem_decimal b hb) (by decide)
    exact isPlain_iff.mpr ⟨UInt8.le_trans (by decide) hdigit.1, hquote, hslash⟩
  have hname : ∀ b ∈ ascii "fortai-tool-call-", isPlain b = true :=
    List.all_eq_true.mp (by rw [ascii_ofList]; rfl)
  rw [callId, render_string, jsonEscape_plain fun b hb =>
    (List.mem_append.mp hb).elim (hname b) (hdigit b)]
  simp only [List.append_assoc]
  repeat rw [ascii_ofList]
  rfl

theorem oneLine_callId (i : ℕ) : OneLine (callId i).render := oneLine_string _

def toolObject (call : ToolCall) (i : ℕ) : Json .value :=
  object [("id", callId i), ("type", word "function"),
    ("function", object [("name", string call.name), ("arguments", string call.arguments)])]

theorem chatToolObject_eq (call : ToolCall) (i : ℕ) :
    chatToolObject call i = (toolObject call i).render := by
  rw [chatToolObject, toolObject]
  simp only [render_object, List.flatMap_cons, List.flatMap_nil, fieldText, render_callId, word,
    render_string, List.append_assoc, List.cons_append, List.nil_append, List.append_nil]
  repeat rw [ascii_ofList]
  rfl

/-- The calls with their indices, counted from 1. -/
def numbered {α : Type} (f : ToolCall → ℕ → α) (calls : List ToolCall) : List α :=
  (calls.zipIdx 1).map fun c => f c.1 c.2

theorem render_toolObjects (calls : List ToolCall) :
    (array (numbered toolObject calls)).render = 91 :: (chatToolObjects 1 calls ++ [93]) := by
  have hrest : ∀ (calls : List ToolCall) (i : ℕ), 1 < i →
      ((calls.zipIdx i).map fun c => toolObject c.1 c.2).flatMap (44 :: ·.render) =
        chatToolObjects i calls := by
    intro calls
    induction calls with
    | nil => exact fun _ _ => rfl
    | cons call calls ih =>
      intro i hi
      rw [chatToolObjects, if_pos hi, ← ih (i + 1) (Nat.lt_succ_of_lt hi), chatToolObject_eq]
      rfl
  cases calls with
  | nil => rfl
  | cons call rest =>
    rw [chatToolObjects, if_neg (Nat.lt_irrefl 1), ← hrest rest 2 (by decide), chatToolObject_eq,
      numbered, List.zipIdx_cons, List.map_cons, render_array]
    simp only [List.nil_append, List.append_assoc]

def usageField (r : Reply R) : String × Json .value :=
  ("usage", object [("prompt_tokens", number r.promptTokens), ("completion_tokens", number r.tokens),
    ("total_tokens", number (r.promptTokens + r.tokens))])

def backendField : String × Json .value := ("fortai_backend", word "fortai")

/-- The members of the message of a reply. -/
def messageFields (r : Reply R) : List (String × Json .value) :=
  [("role", word "assistant"),
    ("content", if r.content = [] ∧ r.calls ≠ [] then null else string r.content)] ++
      (if r.reasoning = [] then [] else [("reasoning_content", string r.reasoning)]) ++
      if r.calls = [] then [] else [("tool_calls", array (numbered toolObject r.calls))]

def replyMessage (r : Reply R) : Json .value := object (messageFields r)

def finishReason (r : Reply R) : Json .value := word (if r.calls = [] then "stop" else "tool_calls")

def chatBody (clock : ℤ) (r : Reply R) : Json .value :=
  object [("id", word "fortai-native"), ("object", word "chat.completion"),
    ("created", number clock), ("model", string r.model),
    ("choices", array [object [("index", number 0), ("message", replyMessage r),
      ("finish_reason", finishReason r)]]),
    usageField r, timingsField (timings r.real r.measured r.promptTokens r.tokens), backendField]

def textBody (clock : ℤ) (r : Reply R) : Json .value :=
  object [("id", word "fortai-native"), ("object", word "text_completion"),
    ("created", number clock), ("model", string r.model),
    ("choices", array [object [("index", number 0), ("text", string r.content),
      ("finish_reason", word "stop")]]),
    usageField r, timingsField (timings r.real r.measured r.promptTokens r.tokens), backendField]

theorem usage_eq (r : Reply R) :
    usage r = 125 :: 93 :: 44 :: (fieldText (usageField r) ++
      44 :: (fieldText (timingsField (timings r.real r.measured r.promptTokens r.tokens)) ++
        44 :: (fieldText backendField ++ [125, 10]))) := by
  rw [usage, appendTimings, timings_text, usageField, backendField]
  generalize fieldText (timingsField (timings r.real r.measured r.promptTokens r.tokens)) = t
  simp only [render_object, List.flatMap_cons, List.flatMap_nil, fieldText, word, render_number,
    render_string, List.append_assoc, List.cons_append, List.nil_append, List.append_nil]
  repeat rw [ascii_ofList]
  rfl

/-- The body of a completion is the document. -/
theorem completionBody_text (clock : ℤ) (r : Reply R) :
    completionBody clock r false = (textBody clock r).render ++ [10] := by
  rw [completionBody, textBody, usage_eq]
  simp only [Bool.false_eq_true, if_false, render_object, List.flatMap_cons, List.flatMap_nil,
    List.append_assoc, List.cons_append, List.nil_append, List.append_nil]
  generalize fieldText (usageField r) = u, fieldText backendField = b,
    fieldText (timingsField (timings r.real r.measured r.promptTokens r.tokens)) = t
  simp only [render_object, render_array, List.flatMap_cons, List.flatMap_nil, fieldText, word,
    render_number, render_string, List.append_assoc, List.cons_append, List.nil_append]
  repeat rw [ascii_ofList]
  rfl

/-- The body of a chat completion is the document. -/
theorem completionBody_chat (clock : ℤ) (r : Reply R) :
    completionBody clock r true = (chatBody clock r).render ++ [10] := by
  have hcontent : (if r.content = [] ∧ r.calls ≠ [] then null else string r.content).render =
      if r.content = [] ∧ r.calls ≠ [] then ascii "null" else jsonEscape r.content := by
    split_ifs
    · rfl
    · exact render_string r.content
  rw [completionBody, chatBody, usage_eq, ← hcontent]
  simp only [if_true, render_object, List.flatMap_cons, List.flatMap_nil,
    List.append_assoc, List.cons_append, List.nil_append, List.append_nil]
  generalize fieldText (usageField r) = u, fieldText backendField = b,
    fieldText (timingsField (timings r.real r.measured r.promptTokens r.tokens)) = t
  rw [replyMessage, messageFields, finishReason]
  generalize (if r.content = [] ∧ r.calls ≠ [] then null else string r.content) = content
  by_cases hreasoning : r.reasoning = [] <;> by_cases hcalls : r.calls = [] <;>
    simp only [if_pos, if_neg, hreasoning, hcalls, not_false_eq_true, render_object,
      render_array, render_toolObjects, List.flatMap_cons, List.flatMap_nil, fieldText, word, render_number,
      render_string, List.append_assoc, List.cons_append, List.nil_append, List.append_nil] <;>
    repeat rw [ascii_ofList]
  iterate 4 rfl

def reasoningItem (text : Bytes) : Json .value :=
  object [("id", word "fortai-native-reasoning"), ("type", word "reasoning"),
    ("status", word "completed"),
    ("summary", array [object [("type", word "summary_text"), ("text", string text)]])]

def messageItem (text : Bytes) : Json .value :=
  object [("id", word "fortai-native-message"), ("type", word "message"), ("role", word "assistant"),
    ("status", word "completed"),
    ("content", array [object [("type", word "output_text"), ("text", string text),
      ("annotations", array [])]])]

def callItem (call : ToolCall) (i : ℕ) : Json .value :=
  object [("id", callId i), ("type", word "function_call"), ("status", word "completed"),
    ("call_id", callId i), ("name", string call.name), ("arguments", string call.arguments)]

/-- The items of the output. -/
def output (r : Reply R) : List (Json .value) :=
  (if r.reasoning = [] then [] else [reasoningItem r.reasoning]) ++
    (if r.hasMessage then [messageItem r.content] else []) ++ numbered callItem r.calls

def responseUsage (r : Reply R) : String × Json .value :=
  ("usage", object [("input_tokens", number r.promptTokens), ("output_tokens", number r.tokens),
    ("total_tokens", number (r.promptTokens + r.tokens))])

def responseBody (clock : ℤ) (r : Reply R) : Json .value :=
  object [("id", word "fortai-native-response"), ("object", word "response"),
    ("created_at", number clock), ("completed_at", number clock), ("status", word "completed"),
    ("model", string r.model), ("output", array (output r)), ("input", array []),
    ("instructions", null), responseUsage r, ("store", .literal .false), timingsField (timings r.real r.measured r.promptTokens r.tokens),
    backendField]

theorem responseCalls_eq (calls : List ToolCall) (i : ℕ) :
    responseCalls true i calls =
        ((calls.zipIdx i).map fun c => callItem c.1 c.2).flatMap (44 :: ·.render) ∧
      responseCalls false i calls =
        (items ((calls.zipIdx i).map fun c => callItem c.1 c.2)).render := by
  induction calls generalizing i with
  | nil => exact ⟨rfl, rfl⟩
  | cons call rest ih =>
    have hitem : ascii "\x7b\"id\":\"fortai-tool-call-" ++ signed i ++
        ascii "\",\"type\":\"function_call\",\"status\":\"completed\"," ++
        ascii "\"call_id\":\"fortai-tool-call-" ++ signed i ++ ascii "\",\"name\":" ++
        jsonEscape call.name ++ ascii ",\"arguments\":" ++ jsonEscape call.arguments ++
        ascii "\x7d" = (callItem call i).render := by
      rw [callItem]
      simp only [render_object, List.flatMap_cons, List.flatMap_nil, fieldText, render_callId, word,
        render_string, List.append_assoc, List.cons_append, List.nil_append]
      repeat rw [ascii_ofList]
      rfl
    rw [responseCalls, responseCalls, hitem, (ih (i + 1)).1, List.zipIdx_cons, List.map_cons,
      render_items, List.flatMap_cons]
    exact ⟨rfl, rfl⟩

theorem render_reasoningItem (text : Bytes) :
    (reasoningItem text).render =
      ascii "\x7b\"id\":\"fortai-native-reasoning\",\"type\":\"reasoning\",\"status\":\"completed\"," ++
        (ascii "\"summary\":[\x7b\"type\":\"summary_text\",\"text\":" ++
          (jsonEscape text ++ ascii "\x7d]\x7d")) := by
  rw [reasoningItem]
  simp only [render_object, render_array, List.flatMap_cons, List.flatMap_nil, fieldText, word,
    render_string, List.append_assoc, List.cons_append, List.nil_append]
  repeat rw [ascii_ofList]
  rfl

theorem render_messageItem (text : Bytes) :
    (messageItem text).render =
      ascii "\x7b\"id\":\"fortai-native-message\",\"type\":\"message\",\"role\":\"assistant\"," ++
        (ascii "\"status\":\"completed\",\"content\":[\x7b\"type\":\"output_text\",\"text\":" ++
          (jsonEscape text ++ ascii ",\"annotations\":[]\x7d]\x7d")) := by
  rw [messageItem]
  simp only [render_object, render_array, List.flatMap_cons, List.flatMap_nil, fieldText, word,
    render_string, List.append_assoc, List.cons_append, List.nil_append]
  repeat rw [ascii_ofList]
  rfl

/-- What stands between the brackets of the output are the items. -/
theorem responseOutput_eq (r : Reply R) : responseOutput r = (items (output r)).render := by
  obtain ⟨htrue, hfalse⟩ := responseCalls_eq r.calls 1
  have hcomma : ascii "," = [44] := rfl
  rw [responseOutput, output]
  by_cases hreasoning : r.reasoning = [] <;> by_cases hmessage : r.hasMessage = true <;>
    simp only [hreasoning, hmessage, if_true, if_false, Bool.false_eq_true, ne_eq, not_true,
      not_false_eq_true, or_true, or_false, decide_true, decide_false, htrue, hfalse, hcomma,
      List.nil_append, List.append_nil, List.cons_append, render_items, render_reasoningItem,
      render_messageItem, List.flatMap_cons, numbered, List.append_assoc]

theorem responseUsage_eq (r : Reply R) (s : Bytes) :
    ascii "],\"input\":[],\"instructions\":null,\"usage\":\x7b\"input_tokens\":" ++
        (signed r.promptTokens ++ (ascii ",\"output_tokens\":" ++ (signed r.tokens ++
          (ascii ",\"total_tokens\":" ++ (signed (r.promptTokens + r.tokens) ++
            (ascii "\x7d,\"store\":false," ++ s)))))) =
      93 :: 44 :: (fieldText ("input", array []) ++ 44 :: (fieldText ("instructions", null) ++
        44 :: (fieldText (responseUsage r) ++
          44 :: (fieldText ("store", .literal .false) ++ 44 :: s)))) := by
  have hfalse : (Json.literal .false).render = ascii "false" := rfl
  rw [responseUsage]
  simp only [render_object, render_array_nil, List.flatMap_cons, List.flatMap_nil, fieldText,
    render_number, render_null, hfalse, List.append_assoc, List.cons_append, List.nil_append]
  repeat rw [ascii_ofList]
  rfl

/-- The response is the document. -/
theorem responseJson_eq (clock : ℤ) (r : Reply R) :
    responseJson clock r = (responseBody clock r).render := by
  have harray : fieldText ("output", array (output r)) =
      jsonEscape (ascii "output") ++ 58 :: 91 :: ((items (output r)).render ++ [93]) := rfl
  rw [responseJson, responseBody, appendTimings, timings_text, responseOutput_eq]
  simp only [render_object, List.flatMap_cons, List.flatMap_nil, harray, responseUsage_eq,
    List.append_assoc, List.cons_append, List.nil_append, List.append_nil]
  generalize fieldText (timingsField (timings r.real r.measured r.promptTokens r.tokens)) = t,
    (items (output r)).render = l, fieldText (responseUsage r) = u,
    fieldText ("input", array []) = i, fieldText ("instructions", null) = n,
    fieldText ("store", .literal .false) = f
  simp only [fieldText, word, render_number, render_string, backendField, List.append_assoc,
    List.cons_append]
  repeat rw [ascii_ofList]
  rfl

/-! ### Reading the documents -/

/-- What a client takes from a reply. -/
structure Parts where
  model : Bytes
  content : Bytes
  reasoning : Bytes
  calls : List ToolCall

def Reply.parts (r : Reply R) : Parts := ⟨r.model, r.content, r.reasoning, r.calls⟩

def readCall (v : Json .value) : Option ToolCall := do
  let name ← stringAt "name" v
  let arguments ← stringAt "arguments" v
  return ⟨name, arguments⟩

/-- The parts of a chat completion. -/
def readChat (v : Json .value) : Option Parts := do
  let model ← stringAt "model" v
  let choice ← (field "choices" v).bind (entry 0)
  let message ← field "message" choice
  let content ← (field "content" message).bind contentOf
  let reasoning ← (field "reasoning_content" message).elim (some []) stringOf
  let calls ← (field "tool_calls" message).elim (some []) fun calls =>
    (elementsOf calls).bind fun l => l.mapM fun call => (field "function" call).bind readCall
  return ⟨model, content, reasoning, calls⟩

/-- The model and the text of a completion. -/
def readText (v : Json .value) : Option (Bytes × Bytes) := do
  let model ← stringAt "model" v
  let choice ← (field "choices" v).bind (entry 0)
  let text ← stringAt "text" choice
  return (model, text)

/-- What an item of that type holds. -/
def ofType {α : Type} (type : String) (read : Json .value → Option α) (v : Json .value) : Option α :=
  if stringAt "type" v = some (ascii type) then read v else none

def partAt (key : String) (v : Json .value) : Option Bytes :=
  ((field key v).bind (entry 0)).bind (stringAt "text")

/-- The parts of a response. -/
def readResponse (v : Json .value) : Option Parts := do
  let model ← stringAt "model" v
  let output ← (field "output" v).bind elementsOf
  return ⟨model, (output.filterMap (ofType "message" (partAt "content"))).flatten,
    (output.filterMap (ofType "reasoning" (partAt "summary"))).flatten,
    output.filterMap (ofType "function_call" readCall)⟩

theorem readCall_of {v : Json .value} {call : ToolCall}
    (hname : field "name" v = some (string call.name))
    (harguments : field "arguments" v = some (string call.arguments)) : readCall v = some call := by
  rw [readCall, stringAt_of_field hname, stringAt_of_field harguments]
  rfl

theorem readText_textBody (clock : ℤ) (r : Reply R) :
    readText (textBody clock r) = some (r.model, r.content) := by
  have hmodel : field "model" (textBody clock r) = some (string r.model) := rfl
  have htext : field "text" (object [("index", number 0), ("text", string r.content),
      ("finish_reason", word "stop")]) = some (string r.content) := rfl
  have hchoice : (field "choices" (textBody clock r)).bind (entry 0) =
      some (object [("index", number 0), ("text", string r.content),
        ("finish_reason", word "stop")]) := rfl
  rw [readText, stringAt_of_field hmodel, hchoice]
  simp only [Option.bind_eq_bind, Option.bind_some, stringAt_of_field htext]
  rfl

theorem mapM_numbered {f : ToolCall → ℕ → Json .value} {read : Json .value → Option ToolCall}
    (h : ∀ call i, read (f call i) = some call) (calls : List ToolCall) :
    (numbered f calls).mapM read = some calls := by
  have hfrom : ∀ i : ℕ, ((calls.zipIdx i).map fun c => f c.1 c.2).mapM read = some calls := by
    induction calls with
    | nil => exact fun _ => rfl
    | cons call rest ih =>
      intro i
      rw [List.zipIdx_cons, List.map_cons, List.mapM_cons, h, ih (i + 1)]
      rfl
  exact hfrom 1

theorem readChat_chatBody (clock : ℤ) (r : Reply R) :
    readChat (chatBody clock r) = some r.parts := by
  have hmodel : field "model" (chatBody clock r) = some (string r.model) := rfl
  have hchoice : (field "choices" (chatBody clock r)).bind (entry 0) =
      some (object [("index", number 0), ("message", replyMessage r),
        ("finish_reason", finishReason r)]) := rfl
  have hmessage : field "message" (object [("index", number 0), ("message", replyMessage r),
      ("finish_reason", finishReason r)]) = some (replyMessage r) := rfl
  have hcontent : (field "content" (replyMessage r)).bind contentOf = some r.content := by
    show contentOf (if r.content = [] ∧ r.calls ≠ [] then null else string r.content) = _
    split_ifs with h
    · rw [h.1]
      rfl
    · exact stringOf_string r.content
  have hreasoning : (field "reasoning_content" (replyMessage r)).elim (some []) stringOf =
      some r.reasoning := by
    rw [replyMessage, messageFields]
    by_cases hreasoning : r.reasoning = [] <;> by_cases hcalls : r.calls = [] <;>
      simp only [hreasoning, hcalls, if_true, if_false]
    · rfl
    · rfl
    · exact stringOf_string r.reasoning
    · exact stringOf_string r.reasoning
  have hcalls : ((field "tool_calls" (replyMessage r)).elim (some []) fun calls =>
      (elementsOf calls).bind fun l => l.mapM fun call => (field "function" call).bind readCall) =
      some r.calls := by
    rw [replyMessage, messageFields]
    have hcall : ∀ call i, (field "function" (toolObject call i)).bind readCall = some call := by
      intro call i
      exact readCall_of rfl rfl
    have hlist : ((elementsOf (array (numbered toolObject r.calls))).bind fun l =>
        l.mapM fun call => (field "function" call).bind readCall) = some r.calls := by
      rw [elementsOf_array]
      exact mapM_numbered hcall r.calls
    by_cases hreasoning : r.reasoning = [] <;> by_cases hcalls : r.calls = [] <;>
      simp only [hreasoning, hcalls, if_true, if_false]
    · rfl
    · exact hlist
    · rfl
    · exact hlist
  rw [readChat, stringAt_of_field hmodel, hchoice]
  simp only [Option.bind_eq_bind, Option.bind_some, hmessage, hcontent, hreasoning, hcalls]
  rfl

theorem ofType_self {α : Type} {type : String} {read : Json .value → Option α} {v : Json .value}
    (h : field "type" v = some (word type)) : ofType type read v = read v :=
  if_pos (stringAt_of_field h)

theorem ofType_other {α : Type} {type name : String} {read : Json .value → Option α}
    {v : Json .value} (h : field "type" v = some (word name)) (hne : ascii name ≠ ascii type) :
    ofType type read v = none := by
  refine if_neg fun htype => hne ?_
  rw [stringAt_of_field h, Option.some.injEq] at htype
  exact htype

theorem filterMap_numbered {α : Type} {f : ToolCall → ℕ → Json .value}
    {read : Json .value → Option α} {g : ToolCall → Option α} (h : ∀ call i, read (f call i) = g call)
    (calls : List ToolCall) : (numbered f calls).filterMap read = calls.filterMap g := by
  have hfrom : ∀ i : ℕ, ((calls.zipIdx i).map fun c => f c.1 c.2).filterMap read =
      calls.filterMap g := by
    induction calls with
    | nil => exact fun _ => rfl
    | cons call rest ih =>
      intro i
      rw [List.zipIdx_cons, List.map_cons, List.filterMap_cons, List.filterMap_cons, h, ih (i + 1)]
  exact hfrom 1

theorem content_eq_nil {r : Reply R} (h : ¬ r.hasMessage = true) : r.content = [] := by
  rw [Reply.hasMessage, decide_eq_true_eq, not_or, not_not] at h
  exact h.1

/-- What is read of the items of the output. -/
theorem filterMap_output {α : Type} {read : Json .value → Option α} {g : ToolCall → Option α}
    (r : Reply R) (h : ∀ call i, read (callItem call i) = g call) :
    (output r).filterMap read =
      (if r.reasoning = [] then [] else (read (reasoningItem r.reasoning)).toList) ++
        (if r.hasMessage then (read (messageItem r.content)).toList else []) ++ r.calls.filterMap g := by
  rw [output, List.filterMap_append, List.filterMap_append, filterMap_numbered h]
  by_cases hreasoning : r.reasoning = [] <;> by_cases hmessage : r.hasMessage = true <;>
    simp only [hreasoning, hmessage, if_true, if_false, Bool.false_eq_true, List.filterMap_nil,
      List.filterMap_cons, List.nil_append]
  all_goals cases read (messageItem r.content) <;> cases read (reasoningItem r.reasoning) <;> rfl

theorem readResponse_responseBody (clock : ℤ) (r : Reply R) :
    readResponse (responseBody clock r) = some r.parts := by
  have hmodel : field "model" (responseBody clock r) = some (string r.model) := rfl
  have hitems : (field "output" (responseBody clock r)).bind elementsOf = some (output r) :=
    elementsOf_array (output r)
  have hcontent : ((output r).filterMap (ofType "message" (partAt "content"))).flatten =
      r.content := by
    have hmessage : ofType "message" (partAt "content") (messageItem r.content) = some r.content :=
      (ofType_self rfl).trans (stringOf_string r.content)
    rw [filterMap_output r fun call i => ofType_other rfl (by decide), hmessage,
      ofType_other (v := reasoningItem r.reasoning) rfl (by decide), List.filterMap_none]
    by_cases hm : r.hasMessage = true
    · rw [if_pos hm]
      split_ifs <;> exact List.append_nil r.content
    · rw [if_neg hm, content_eq_nil hm]
      split_ifs <;> rfl
  have hreasoning : ((output r).filterMap (ofType "reasoning" (partAt "summary"))).flatten =
      r.reasoning := by
    have hitem : ofType "reasoning" (partAt "summary") (reasoningItem r.reasoning) = some r.reasoning :=
      (ofType_self rfl).trans (stringOf_string r.reasoning)
    rw [filterMap_output r fun call i => ofType_other rfl (by decide), hitem,
      ofType_other (v := messageItem r.content) rfl (by decide), List.filterMap_none]
    by_cases hr : r.reasoning = []
    · rw [if_pos hr, hr]
      split_ifs <;> rfl
    · rw [if_neg hr]
      split_ifs <;> exact List.append_nil r.reasoning
  have hcalls : (output r).filterMap (ofType "function_call" readCall) = r.calls := by
    have hcall : ∀ call i, ofType "function_call" readCall (callItem call i) = some call :=
      fun call i => (ofType_self rfl).trans (readCall_of rfl rfl)
    rw [filterMap_output r hcall, ofType_other (v := reasoningItem r.reasoning) rfl (by decide),
      ofType_other (v := messageItem r.content) rfl (by decide), List.filterMap_some]
    split_ifs <;> rfl
  rw [readResponse, stringAt_of_field hmodel, hitems]
  simp only [Option.bind_eq_bind, Option.bind_some, hcontent, hreasoning, hcalls]
  rfl

end Bodies

end Chat

end FortAI
