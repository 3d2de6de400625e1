import FortAI.Chat.Reply

/-!
# The stream of a chat completion

`completionStream` is `completion_body` with a stream.  A client reads a stream line by line
(`dataLines`) and puts the deltas of a channel one behind the other (`channel`).

* `dataLines_completionStream` : every data line but the last is a document.
* `chatChannels` : the channels carry the parts of the reply.
-/

namespace FortAI

namespace Chat

open CString Document

variable {R : Type}

/-! ### The stream -/

/-- How every chunk begins. -/
def chunkStart (clock : ℤ) (r : Reply R) : Bytes :=
  ascii "data: \x7b\"id\":\"fortai-native\",\"object\":\"chat.completion.chunk\",\"created\":" ++
    signed clock ++ ascii ",\"model\":" ++ jsonEscape r.model

/-- The chunks of the tool calls, from the index `i` on. -/
def callChunks (clock : ℤ) (r : Reply R) (i : ℕ) : List ToolCall → Bytes
  | [] => []
  | call :: rest =>
    chunkStart clock r ++ ascii ",\"choices\":[\x7b\"index\":0,\"delta\":\x7b\"tool_calls\":[\x7b\"index\":" ++
      signed ((i : ℤ) - 1) ++ ascii ",\"id\":\"fortai-tool-call-" ++ signed i ++
      ascii "\",\"type\":\"function\",\"function\":\x7b\"name\":" ++ jsonEscape call.name ++
      ascii ",\"arguments\":" ++ jsonEscape call.arguments ++
      ascii "\x7d\x7d]\x7d,\"finish_reason\":null\x7d],\"fortai_backend\":\"fortai\"\x7d" ++ [10] ++ [10] ++
      callChunks clock r (i + 1) rest

/-- `completion_body` with a stream. -/
def completionStream (clock : ℤ) (r : Reply R) : Bytes :=
  (if r.reasoning = [] then []
    else
      chunkStart clock r ++
        ascii ",\"choices\":[\x7b\"index\":0,\"delta\":\x7b\"role\":\"assistant\",\"reasoning_content\":" ++
        jsonEscape r.reasoning ++
        ascii "\x7d,\"finish_reason\":null\x7d],\"fortai_backend\":\"fortai\"\x7d" ++ [10] ++ [10]) ++
    (if r.hasMessage then
        chunkStart clock r ++
          (if r.reasoning = [] then
            ascii ",\"choices\":[\x7b\"index\":0,\"delta\":\x7b\"role\":\"assistant\",\"content\":"
          else ascii ",\"choices\":[\x7b\"index\":0,\"delta\":\x7b\"content\":") ++
          jsonEscape r.content ++
          ascii "\x7d,\"finish_reason\":null\x7d],\"fortai_backend\":\"fortai\"\x7d" ++ [10] ++ [10]
      else []) ++
    callChunks clock r 1 r.calls ++
    (chunkStart clock r ++ ascii ",\"choices\":[\x7b\"index\":0,\"delta\":\x7b\x7d,\"finish_reason\":" ++
      (if r.calls = [] then ascii "\"stop\"" else ascii "\"tool_calls\"") ++ ascii "\x7d]," ++
      appendTimings r ++ ascii ",\"fortai_backend\":\"fortai\"\x7d" ++ [10] ++ [10]) ++
    (ascii "data: [DONE]" ++ [10] ++ [10])

/-! ### Lines -/

/-- What the data lines of a stream hold. -/
def dataLines (stream : Bytes) : List Bytes :=
  (stream.splitOn 10).filterMap fun line =>
    if ascii "data: " <+: line then some (line.drop 6) else none

/-- The texts that are selected from a stream, one behind the other. -/
def joined (select : Json .value → Option Bytes) (events : List (Json .value)) : Bytes :=
  events.flatMap fun v => (select v).getD []

theorem dataLines_line {line : Bytes} (h : 10 ∉ line) (s : Bytes) :
    dataLines (line ++ 10 :: s) =
      (if ascii "data: " <+: line then [line.drop 6] else []) ++ dataLines s := by
  rw [dataLines, List.splitOn_append_cons_self_of_not_mem h, List.filterMap_cons, dataLines]
  split_ifs <;> rfl

theorem dataLines_nil : dataLines [] = [] := by
  rw [dataLines, List.splitOn_nil]
  rfl

theorem dataLines_data {payload : Bytes} (h : 10 ∉ payload) (s : Bytes) :
    dataLines (ascii "data: " ++ (payload ++ 10 :: 10 :: s)) = payload :: dataLines s := by
  have hline : 10 ∉ ascii "data: " ++ payload := by
    rw [List.mem_append, not_or]
    exact ⟨by decide, h⟩
  have hempty : dataLines (10 :: s) = dataLines s :=
    (dataLines_line (List.not_mem_nil : 10 ∉ ([] : Bytes)) s).trans (congrArg (· ++ dataLines s)
      (if_neg (by decide)))
  have hshape : ascii "data: " ++ (payload ++ 10 :: 10 :: s) =
      (ascii "data: " ++ payload) ++ 10 :: (10 :: s) := by
    simp only [List.append_assoc]
  rw [hshape, dataLines_line hline, if_pos (List.prefix_append _ _), hempty]
  exact congrArg (· :: dataLines s) (List.drop_left' rfl)

/-! ### The chunks of a chat completion -/

def chunk (clock : ℤ) (r : Reply R) (delta finish : Json .value)
    (extra : List (String × Json .value)) : Json .value :=
  object ([("id", word "fortai-native"), ("object", word "chat.completion.chunk"),
    ("created", number clock), ("model", string r.model),
    ("choices", array [object [("index", number 0), ("delta", delta), ("finish_reason", finish)]])] ++
      extra ++ [backendField])

theorem chunk_text (clock : ℤ) (r : Reply R) (delta finish : Json .value)
    (extra : List (String × Json .value)) :
    ascii "data: " ++ (chunk clock r delta finish extra).render =
      chunkStart clock r ++ (ascii ",\"choices\":[\x7b\"index\":0,\"delta\":" ++ (delta.render ++
        (ascii ",\"finish_reason\":" ++ (finish.render ++ (ascii "\x7d]" ++
          (extra.flatMap (44 :: fieldText ·) ++ ascii ",\"fortai_backend\":\"fortai\"\x7d")))))) := by
  rw [chunk, chunkStart]
  simp only [List.cons_append, List.nil_append, render_object, render_array, List.flatMap_append,
    List.flatMap_cons, List.flatMap_nil, fieldText, word, render_number, render_string, backendField,
    List.append_assoc]
  repeat rw [ascii_ofList]
  rfl

def callDelta (call : ToolCall) (i : ℕ) : Json .value :=
  object [("tool_calls", array [object [("index", number ((i : ℤ) - 1)), ("id", callId i),
    ("type", word "function"),
    ("function", object [("name", string call.name), ("arguments", string call.arguments)])]])]

def contentDelta (r : Reply R) : Json .value :=
  object ((if r.reasoning = [] then [("role", word "assistant")] else []) ++
    [("content", string r.content)])

/-- The chunks of a reply. -/
def chunks (clock : ℤ) (r : Reply R) : List (Json .value) :=
  (if r.reasoning = [] then []
    else [chunk clock r (object [("role", word "assistant"), ("reasoning_content", string r.reasoning)])
      null []]) ++
    (if r.hasMessage then [chunk clock r (contentDelta r) null []] else []) ++
    numbered (fun call i => chunk clock r (callDelta call i) null []) r.calls ++
    [chunk clock r (object []) (finishReason r)
      [timingsField (timings r.real r.measured r.promptTokens r.tokens)]]

/-- A document in the stream. -/
def dataEvent (payload : Bytes) : Bytes := ascii "data: " ++ (payload ++ [10, 10])

theorem dataEvent_chunk (clock : ℤ) (r : Reply R) (delta finish : Json .value)
    (extra : List (String × Json .value)) :
    dataEvent (chunk clock r delta finish extra).render =
      chunkStart clock r ++ (ascii ",\"choices\":[\x7b\"index\":0,\"delta\":" ++ (delta.render ++
        (ascii ",\"finish_reason\":" ++ (finish.render ++ (ascii "\x7d]" ++
          (extra.flatMap (44 :: fieldText ·) ++
            (ascii ",\"fortai_backend\":\"fortai\"\x7d" ++ [10, 10]))))))) := by
  rw [dataEvent, ← List.append_assoc, chunk_text]
  simp only [List.append_assoc]

theorem callChunks_eq (clock : ℤ) (r : Reply R) (i : ℕ) (calls : List ToolCall) :
    callChunks clock r i calls =
      ((calls.zipIdx i).map fun c => chunk clock r (callDelta c.1 c.2) null []).flatMap
        fun c => dataEvent c.render := by
  induction calls generalizing i with
  | nil => rfl
  | cons call rest ih =>
    rw [callChunks, ih (i + 1), List.zipIdx_cons, List.map_cons, List.flatMap_cons, dataEvent_chunk,
      callDelta]
    generalize chunkStart clock r = start
    simp only [render_object, render_array, render_null, render_callId, render_string, render_number,
      List.flatMap_cons, List.flatMap_nil, fieldText, word, List.append_assoc, List.cons_append,
      List.nil_append]
    repeat rw [ascii_ofList]
    rfl

/-- The stream is that of the documents. -/
theorem completionStream_eq (clock : ℤ) (r : Reply R) :
    completionStream clock r =
      (chunks clock r).flatMap (fun c => dataEvent c.render) ++ dataEvent (ascii "[DONE]") := by
  have hfinal : chunkStart clock r ++
      ascii ",\"choices\":[\x7b\"index\":0,\"delta\":\x7b\x7d,\"finish_reason\":" ++
      (if r.calls = [] then ascii "\"stop\"" else ascii "\"tool_calls\"") ++ ascii "\x7d]," ++
      appendTimings r ++ ascii ",\"fortai_backend\":\"fortai\"\x7d" ++ [10] ++ [10] =
      dataEvent (chunk clock r (object []) (finishReason r)
        [timingsField (timings r.real r.measured r.promptTokens r.tokens)]).render := by
    have hfinish : (finishReason r).render =
        if r.calls = [] then ascii "\"stop\"" else ascii "\"tool_calls\"" := by
      rw [finishReason, word, render_string]
      split_ifs <;> rfl
    rw [dataEvent_chunk, hfinish, appendTimings, timings_text]
    generalize chunkStart clock r = start, (if r.calls = [] then _ else _) = finish,
      timingsField (timings r.real r.measured r.promptTokens r.tokens) = t
    simp only [render_object_nil, List.flatMap_cons, List.flatMap_nil, List.append_assoc,
      List.cons_append, List.nil_append]
    repeat rw [ascii_ofList]
    rfl
  have hcontent : chunkStart clock r ++ (if r.reasoning = [] then
        ascii ",\"choices\":[\x7b\"index\":0,\"delta\":\x7b\"role\":\"assistant\",\"content\":"
      else ascii ",\"choices\":[\x7b\"index\":0,\"delta\":\x7b\"content\":") ++ jsonEscape r.content ++
      ascii "\x7d,\"finish_reason\":null\x7d],\"fortai_backend\":\"fortai\"\x7d" ++ [10] ++ [10] =
      dataEvent (chunk clock r (contentDelta r) null []).render := by
    rw [dataEvent_chunk, contentDelta]
    generalize chunkStart clock r = start
    by_cases hreasoning : r.reasoning = [] <;>
      simp only [hreasoning, if_true, if_false, render_object, render_null, render_string,
        List.flatMap_cons, List.flatMap_nil, fieldText, word, List.append_assoc, List.cons_append,
        List.nil_append] <;>
      repeat rw [ascii_ofList]
    iterate 2 rfl
  have hreasoning : chunkStart clock r ++
      ascii ",\"choices\":[\x7b\"index\":0,\"delta\":\x7b\"role\":\"assistant\",\"reasoning_content\":" ++
      jsonEscape r.reasoning ++
      ascii "\x7d,\"finish_reason\":null\x7d],\"fortai_backend\":\"fortai\"\x7d" ++ [10] ++ [10] =
      dataEvent (chunk clock r (object [("role", word "assistant"),
        ("reasoning_content", string r.reasoning)]) null []).render := by
    rw [dataEvent_chunk]
    generalize chunkStart clock r = start
    simp only [render_object, render_null, render_string, List.flatMap_cons, List.flatMap_nil,
      fieldText, word, List.append_assoc, List.cons_append, List.nil_append]
    repeat rw [ascii_ofList]
    rfl
  have hdone : ascii "data: [DONE]" ++ [10] ++ [10] = dataEvent (ascii "[DONE]") := by
    rw [dataEvent]
    repeat rw [ascii_ofList]
    rfl
  rw [completionStream, hfinal, hcontent, hreasoning, hdone, callChunks_eq, chunks]
  simp only [List.flatMap_append]
  by_cases hreason : r.reasoning = [] <;> by_cases hmessage : r.hasMessage = true <;>
    simp only [hreason, hmessage, if_true, if_false, Bool.false_eq_true, List.flatMap_cons,
      List.flatMap_nil, List.append_nil, numbered]

theorem oneLine_timings (t : Timings) : OneLine (timingsField t).2.render := by
  rw [timingsField]
  cases t.draft <;> simp [oneLine_object, oneLine_number, oneLine_numeral]

theorem oneLine_chunk (clock : ℤ) (r : Reply R) {delta finish : Json .value}
    {extra : List (String × Json .value)} (hdelta : OneLine delta.render)
    (hfinish : OneLine finish.render) (hextra : ∀ f ∈ extra, OneLine f.2.render) :
    OneLine (chunk clock r delta finish extra).render := by
  refine oneLine_object fun f hf => ?_
  simp only [List.mem_append, List.mem_cons, List.not_mem_nil, or_false] at hf
  rcases hf with ((rfl | rfl | rfl | rfl | rfl) | hf) | rfl
  · exact oneLine_string _
  · exact oneLine_string _
  · exact oneLine_number clock
  · exact oneLine_string _
  · simp [oneLine_array, oneLine_object, oneLine_number, hdelta, hfinish]
  · exact hextra f hf
  · exact oneLine_string _

theorem oneLine_chunks (clock : ℤ) (r : Reply R) : ∀ c ∈ chunks clock r, OneLine c.render := by
  have hnull : OneLine null.render := oneLine_literal .null
  intro c hc
  simp only [chunks, List.mem_append, List.mem_singleton] at hc
  rcases hc with ((hc | hc) | hc) | rfl
  · split_ifs at hc with hreasoning
    · cases hc
    · rw [List.mem_singleton.mp hc]
      refine oneLine_chunk clock r ?_ hnull (fun f hf => by cases hf)
      simp [oneLine_object, oneLine_string, word]
  · split_ifs at hc with hmessage
    · rw [List.mem_singleton.mp hc]
      refine oneLine_chunk clock r ?_ hnull (fun f hf => by cases hf)
      rw [contentDelta]
      split_ifs <;> simp [oneLine_object, oneLine_string, word]
    · cases hc
  · obtain ⟨call, -, rfl⟩ := List.mem_map.mp hc
    refine oneLine_chunk clock r ?_ hnull (fun f hf => by cases hf)
    have hfunction : OneLine (object [("name", string call.1.name),
        ("arguments", string call.1.arguments)]).render := by
      simp [oneLine_object, oneLine_string]
    have hentry : OneLine (object [("index", number ((call.2 : ℤ) - 1)), ("id", callId call.2),
        ("type", word "function"), ("function", object [("name", string call.1.name),
          ("arguments", string call.1.arguments)])]).render := by
      simp [oneLine_object, oneLine_string, oneLine_number, hfunction, callId, word]
    simp [callDelta, oneLine_object, oneLine_array, hentry]
  · refine oneLine_chunk clock r ?_ ?_ ?_
    · exact oneLine_object fun f hf => by cases hf
    · exact oneLine_string _
    · simp [oneLine_timings]

/-- The data lines of a chat stream. -/
theorem dataLines_completionStream (clock : ℤ) (r : Reply R) :
    dataLines (completionStream clock r) =
      (chunks clock r).map (·.render) ++ [ascii "[DONE]"] := by
  have hlines : ∀ (l : List (Json .value)) (s : Bytes), (∀ c ∈ l, OneLine c.render) →
      dataLines (l.flatMap (fun c => dataEvent c.render) ++ s) = l.map (·.render) ++ dataLines s := by
    intro l s h
    induction l with
    | nil => rfl
    | cons c rest ih =>
      have hc := (h c List.mem_cons_self).not_newline
      rw [List.flatMap_cons, List.append_assoc, dataEvent, List.append_assoc, List.append_assoc,
        List.cons_append, List.cons_append, List.nil_append, dataLines_data hc,
        ih fun d hd => h d (List.mem_cons_of_mem c hd)]
      rfl
  have hmark : 10 ∉ ascii "[DONE]" := by decide
  have hdone := dataLines_data hmark []
  rw [dataLines_nil] at hdone
  rw [completionStream_eq, hlines _ _ (oneLine_chunks clock r), dataEvent, hdone]

/-! ### Reading a chat stream -/

def deltaOf (v : Json .value) : Option (Json .value) :=
  ((field "choices" v).bind (entry 0)).bind (field "delta")

/-- What a delta adds to the call at that index, counted from 0. -/
def callPart (i : ℕ) (key : String) (delta : Json .value) : Option Bytes := do
  let call ← (field "tool_calls" delta).bind (entry 0)
  let index ← (field "index" call).bind integerOf
  if index = i then (field "function" call).bind (stringAt key) else none

/-- The texts that are taken of the deltas of the chunks. -/
def channel (read : Json .value → Option Bytes) (events : List (Json .value)) : Bytes :=
  joined (fun v => (deltaOf v).bind read) events

/-- Every channel of the stream carries its part of the reply. -/
structure ChatChannels (events : List (Json .value)) (r : Reply R) : Prop where
  model : ∀ v ∈ events, stringAt "model" v = some r.model
  content : channel (stringAt "content") events = r.content
  reasoning : channel (stringAt "reasoning_content") events = r.reasoning
  name : ∀ i, channel (callPart i "name") events = ((r.calls[i]?).map (·.name)).getD []
  arguments : ∀ i, channel (callPart i "arguments") events =
    ((r.calls[i]?).map (·.arguments)).getD []

/-- Of numbered values only the one with that number is taken. -/
theorem flatMap_zipIdx {α : Type} (l : List α) (g : α → Bytes) (n k : ℕ) :
    ((l.zipIdx n).flatMap fun c => if c.2 = k then g c.1 else []) =
      if n ≤ k then ((l[k - n]?).map g).getD [] else [] := by
  induction l generalizing n with
  | nil =>
    split_ifs <;> rfl
  | cons a l ih =>
    rw [List.zipIdx_cons, List.flatMap_cons, ih (n + 1)]
    rcases Nat.lt_trichotomy n k with h | rfl | h
    · have hk : k - n = (k - (n + 1)) + 1 := by omega
      rw [if_neg (Nat.ne_of_lt h), if_pos (Nat.succ_le_of_lt h), if_pos (Nat.le_of_lt h), hk, List.getElem?_cons_succ]
      rfl
    · rw [if_pos rfl, if_neg (Nat.not_succ_le_self n), if_pos (Nat.le_refl n), Nat.sub_self]
      exact List.append_nil (g a)
    · rw [if_neg (Nat.ne_of_gt h), if_neg (by omega), if_neg (by omega)]
      rfl

section Channels

variable {f : Json .value → Option Bytes}

/-- What is read of the deltas of the chunks. -/
theorem channel_chunks (clock : ℤ) (r : Reply R) :
    channel f (chunks clock r) =
      (if r.reasoning = [] then []
        else (f (object [("role", word "assistant"),
          ("reasoning_content", string r.reasoning)])).getD []) ++
      (if r.hasMessage then (f (contentDelta r)).getD [] else []) ++
      ((r.calls.zipIdx 1).flatMap fun c => (f (callDelta c.1 c.2)).getD []) ++
      (f (object [])).getD [] := by
  have hdelta (delta finish : Json .value) (extra : List (String × Json .value)) :
      (deltaOf (chunk clock r delta finish extra)).bind f = f delta := rfl
  rw [channel, joined, chunks]
  simp only [List.flatMap_append, numbered, List.flatMap_map, hdelta, List.flatMap_cons,
    List.flatMap_nil, List.append_nil]
  split_ifs <;> simp only [List.flatMap_cons, List.flatMap_nil, hdelta, List.append_nil]

/-- A channel that only the calls use. -/
theorem channel_calls {clock : ℤ} {r : Reply R} {g : ToolCall → Bytes} (i : ℕ)
    (hcontent : f (contentDelta r) = none) (hfinal : f (object []) = none)
    (hreasoning : f (object [("role", word "assistant"),
      ("reasoning_content", string r.reasoning)]) = none)
    (hcall : ∀ call n, f (callDelta call n) = if n = i + 1 then some (g call) else none) :
    channel f (chunks clock r) = ((r.calls[i]?).map g).getD [] := by
  have hvalue (call : ToolCall) (n : ℕ) : (f (callDelta call n)).getD [] =
      if n = i + 1 then g call else [] := by
    rw [hcall]
    split_ifs <;> rfl
  rw [channel_chunks, hcontent, hfinal, hreasoning]
  simp only [hvalue, flatMap_zipIdx, Option.getD_none, ite_self, List.nil_append, List.append_nil]
  rw [if_pos (Nat.le_add_left 1 i), Nat.add_sub_cancel]

/-- A channel that the calls do not use. -/
theorem channel_texts {clock : ℤ} {r : Reply R} (hfinal : f (object []) = none)
    (hcall : ∀ call n, f (callDelta call n) = none) :
    channel f (chunks clock r) =
      (if r.reasoning = [] then []
        else (f (object [("role", word "assistant"),
          ("reasoning_content", string r.reasoning)])).getD []) ++
      if r.hasMessage then (f (contentDelta r)).getD [] else [] := by
  rw [channel_chunks, hfinal]
  simp only [hcall, Option.getD_none, List.append_nil]
  rw [List.flatMap_eq_nil_iff.mpr fun c _ => rfl, List.append_nil]

end Channels

theorem chatChannels (clock : ℤ) (r : Reply R) : ChatChannels (chunks clock r) r := by
  have hpart {key : String} {g : ToolCall → Bytes} (i : ℕ)
      (hkey : ∀ call : ToolCall, field key (object [("name", string call.name),
        ("arguments", string call.arguments)]) = some (string (g call))) (call : ToolCall) (n : ℕ) :
      callPart i key (callDelta call n) = if n = i + 1 then some (g call) else none := by
    have hcall : (field "tool_calls" (callDelta call n)).bind (entry 0) =
        some (object [("index", number ((n : ℤ) - 1)), ("id", callId n), ("type", word "function"),
          ("function", object [("name", string call.name),
            ("arguments", string call.arguments)])]) := rfl
    have hindex : (field "index" (object [("index", number ((n : ℤ) - 1)), ("id", callId n),
        ("type", word "function"), ("function", object [("name", string call.name),
          ("arguments", string call.arguments)])])).bind integerOf = some ((n : ℤ) - 1) :=
      integerOf_number _
    have hfunction : (field "function" (object [("index", number ((n : ℤ) - 1)), ("id", callId n),
        ("type", word "function"), ("function", object [("name", string call.name),
          ("arguments", string call.arguments)])])).bind (stringAt key) = some (g call) :=
      stringAt_of_field (hkey call)
    have hnumber : (n : ℤ) - 1 = i ↔ n = i + 1 := by omega
    rw [callPart, hcall]
    simp only [Option.bind_eq_bind, Option.bind_some, hindex, hfunction, hnumber]
  refine ⟨?_, ?_, ?_, fun i => ?_, fun i => ?_⟩
  · intro v hv
    have hchunk (delta finish : Json .value) (extra : List (String × Json .value)) :
        stringAt "model" (chunk clock r delta finish extra) = some r.model :=
      stringAt_of_field rfl
    simp only [chunks, numbered, List.mem_append, List.mem_singleton, List.mem_map] at hv
    rcases hv with ((hv | hv) | ⟨c, -, rfl⟩) | rfl
    · split_ifs at hv with h
      · cases hv
      · rw [List.mem_singleton.mp hv]
        exact hchunk _ _ _
    · split_ifs at hv with h
      · rw [List.mem_singleton.mp hv]
        exact hchunk _ _ _
      · cases hv
    · exact hchunk _ _ _
    · exact hchunk _ _ _
  · have hcontent : stringAt "content" (contentDelta r) = some r.content := by
      rw [contentDelta]
      split_ifs <;> exact stringAt_of_field rfl
    have hreasoning : stringAt "content" (object [("role", word "assistant"),
        ("reasoning_content", string r.reasoning)]) = none := rfl
    rw [channel_texts rfl fun _ _ => rfl, hcontent, hreasoning]
    by_cases h : r.hasMessage = true
    · rw [if_pos h]
      split_ifs <;> rfl
    · rw [if_neg h, content_eq_nil h]
      split_ifs <;> rfl
  · have hcontent : stringAt "reasoning_content" (contentDelta r) = none := by
      rw [contentDelta]
      split_ifs <;> rfl
    have hreasoning : stringAt "reasoning_content" (object [("role", word "assistant"),
        ("reasoning_content", string r.reasoning)]) = some r.reasoning := stringAt_of_field rfl
    rw [channel_texts rfl fun _ _ => rfl, hcontent, hreasoning]
    by_cases h : r.reasoning = []
    · rw [if_pos h, h]
      split_ifs <;> rfl
    · rw [if_neg h]
      split_ifs <;> exact List.append_nil r.reasoning
  · exact channel_calls i (by rw [contentDelta]; split_ifs <;> rfl) rfl rfl (hpart i fun _ => rfl)
  · exact channel_calls i (by rw [contentDelta]; split_ifs <;> rfl) rfl rfl (hpart i fun _ => rfl)

end Chat

end FortAI
