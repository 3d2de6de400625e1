import FortAI.Chat.Stream

/-!
# The events of a response

`responseStream` is `response_stream_json`.  Every item of the output is announced, filled and closed
under its index (`Item.events`).

* `responseStream_eq` : the stream is made of the events of the items.
* `responseChannels` : the indices count the items, and what the events say of an item is what the
  final response says of it.
-/

namespace FortAI

namespace Chat

open CString Character Document

variable {R : Type}

/-! ### The stream -/

/-- `append_sse_event` -/
def sseEvent (name : String) (payload : Bytes) : Bytes :=
  ascii "event: " ++ trim (ascii name) ++ [10] ++ ascii "data: " ++ payload ++ [10] ++ [10]

/-- The first events of a response. -/
def createdEvents (clock : ℤ) (r : Reply R) : Bytes :=
  sseEvent "response.created"
      (ascii "\x7b\"type\":\"response.created\",\"response\":\x7b\"id\":\"fortai-native-response\"," ++
        ascii "\"object\":\"response\",\"created_at\":" ++ signed clock ++
        ascii ",\"status\":\"in_progress\",\"completed_at\":null,\"model\":" ++ jsonEscape r.model ++
        ascii ",\"output\":[],\"usage\":null\x7d\x7d") ++
    sseEvent "response.in_progress"
      (ascii "\x7b\"type\":\"response.in_progress\",\"response\":\x7b\"id\":\"fortai-native-response\"," ++
        ascii "\"object\":\"response\",\"created_at\":" ++ signed clock ++
        ascii ",\"status\":\"in_progress\",\"completed_at\":null,\"model\":" ++ jsonEscape r.model ++
        ascii ",\"output\":[],\"usage\":null\x7d\x7d")

def reasoningEvents (r : Reply R) : Bytes :=
  sseEvent "response.output_item.added"
      (ascii "\x7b\"type\":\"response.output_item.added\",\"output_index\":0,\"item\":" ++
        ascii "\x7b\"id\":\"fortai-native-reasoning\",\"type\":\"reasoning\",\"status\":\"in_progress\"," ++
        ascii "\"summary\":[]\x7d\x7d") ++
    (sseEvent "response.reasoning_summary_text.delta"
      (ascii "\x7b\"type\":\"response.reasoning_summary_text.delta\",\"item_id\":\"fortai-native-reasoning\"," ++
        ascii "\"output_index\":0,\"summary_index\":0,\"delta\":" ++ jsonEscape r.reasoning ++
        ascii "\x7d") ++
    (sseEvent "response.reasoning_summary_part.done"
      (ascii "\x7b\"type\":\"response.reasoning_summary_part.done\",\"item_id\":\"fortai-native-reasoning\"," ++
        ascii "\"output_index\":0,\"summary_index\":0,\"part\":\x7b\"type\":\"summary_text\",\"text\":" ++
        jsonEscape r.reasoning ++ ascii "\x7d\x7d") ++
    sseEvent "response.output_item.done"
      (ascii "\x7b\"type\":\"response.output_item.done\",\"output_index\":0,\"item\":" ++
        ascii "\x7b\"id\":\"fortai-native-reasoning\",\"type\":\"reasoning\",\"status\":\"completed\"," ++
        ascii "\"summary\":[\x7b\"type\":\"summary_text\",\"text\":" ++ jsonEscape r.reasoning ++
        ascii "\x7d]\x7d\x7d")))

def messageEvents (textIndex : ℕ) (r : Reply R) : Bytes :=
  sseEvent "response.output_item.added"
      (ascii "\x7b\"type\":\"response.output_item.added\",\"output_index\":" ++ signed textIndex ++
        ascii ",\"item\":\x7b\"id\":\"fortai-native-message\",\"type\":\"message\"," ++
        ascii "\"role\":\"assistant\",\"status\":\"in_progress\",\"content\":[]\x7d\x7d") ++
    (sseEvent "response.content_part.added"
      (ascii "\x7b\"type\":\"response.content_part.added\",\"item_id\":\"fortai-native-message\"," ++
        ascii "\"output_index\":" ++ signed textIndex ++
        ascii ",\"content_index\":0,\"part\":\x7b\"type\":\"output_text\",\"text\":\"\",\"annotations\":[]\x7d\x7d") ++
    (sseEvent "response.output_text.delta"
      (ascii "\x7b\"type\":\"response.output_text.delta\",\"item_id\":\"fortai-native-message\"," ++
        ascii "\"output_index\":" ++ signed textIndex ++ ascii ",\"content_index\":0,\"delta\":" ++
        jsonEscape r.content ++ ascii "\x7d") ++
    (sseEvent "response.output_text.done"
      (ascii "\x7b\"type\":\"response.output_text.done\",\"item_id\":\"fortai-native-message\"," ++
        ascii "\"output_index\":" ++ signed textIndex ++ ascii ",\"content_index\":0,\"text\":" ++
        jsonEscape r.content ++ ascii "\x7d") ++
    (sseEvent "response.content_part.done"
      (ascii "\x7b\"type\":\"response.content_part.done\",\"item_id\":\"fortai-native-message\"," ++
        ascii "\"output_index\":" ++ signed textIndex ++
        ascii ",\"content_index\":0,\"part\":\x7b\"type\":\"output_text\",\"text\":" ++
        jsonEscape r.content ++ ascii ",\"annotations\":[]\x7d\x7d") ++
    sseEvent "response.output_item.done"
      (ascii "\x7b\"type\":\"response.output_item.done\",\"output_index\":" ++ signed textIndex ++
        ascii ",\"item\":\x7b\"id\":\"fortai-native-message\",\"type\":\"message\"," ++
        ascii "\"role\":\"assistant\",\"status\":\"completed\",\"content\":[\x7b\"type\":\"output_text\"," ++
        ascii "\"text\":" ++ jsonEscape r.content ++ ascii ",\"annotations\":[]\x7d]\x7d\x7d")))))

/-- The events of a tool call. -/
def callEvents (toolIndex i : ℕ) (call : ToolCall) : Bytes :=
  sseEvent "response.output_item.added"
      (ascii "\x7b\"type\":\"response.output_item.added\",\"output_index\":" ++ signed toolIndex ++
        ascii ",\"item\":\x7b\"id\":\"fortai-tool-call-" ++ signed i ++
        ascii "\",\"type\":\"function_call\",\"status\":\"in_progress\"," ++
        ascii "\"call_id\":\"fortai-tool-call-" ++ signed i ++ ascii "\",\"name\":" ++
        jsonEscape call.name ++ ascii ",\"arguments\":\"\"\x7d\x7d") ++
    (sseEvent "response.function_call_arguments.delta"
      (ascii "\x7b\"type\":\"response.function_call_arguments.delta\",\"item_id\":\"fortai-tool-call-" ++
        signed i ++ ascii "\",\"output_index\":" ++ signed toolIndex ++ ascii ",\"delta\":" ++
        jsonEscape call.arguments ++ ascii "\x7d") ++
    (sseEvent "response.function_call_arguments.done"
      (ascii "\x7b\"type\":\"response.function_call_arguments.done\",\"item_id\":\"fortai-tool-call-" ++
        signed i ++ ascii "\",\"output_index\":" ++ signed toolIndex ++ ascii ",\"arguments\":" ++
        jsonEscape call.arguments ++ ascii "\x7d") ++
    sseEvent "response.output_item.done"
      (ascii "\x7b\"type\":\"response.output_item.done\",\"output_index\":" ++ signed toolIndex ++
        ascii ",\"item\":\x7b\"id\":\"fortai-tool-call-" ++ signed i ++
        ascii "\",\"type\":\"function_call\",\"status\":\"completed\"," ++
        ascii "\"call_id\":\"fortai-tool-call-" ++ signed i ++ ascii "\",\"name\":" ++
        jsonEscape call.name ++ ascii ",\"arguments\":" ++ jsonEscape call.arguments ++
        ascii "\x7d\x7d")))

/-- The loop over the tool calls. -/
def callsEvents (toolIndex i : ℕ) : List ToolCall → Bytes
  | [] => []
  | call :: rest => callEvents toolIndex i call ++ callsEvents (toolIndex + 1) (i + 1) rest

/-- `response_stream_json`; `later` is the clock when `response_json` reads it. -/
def responseStream (clock later : ℤ) (r : Reply R) : Bytes :=
  let textIndex := if r.reasoning = [] then 0 else 1
  let toolIndex := if r.hasMessage then textIndex + 1 else textIndex
  createdEvents clock r ++ (if r.reasoning = [] then [] else reasoningEvents r) ++
    (if r.hasMessage then messageEvents textIndex r else []) ++ callsEvents toolIndex 1 r.calls ++
    sseEvent "response.completed"
      (ascii "\x7b\"type\":\"response.completed\",\"response\":" ++ responseJson later r ++
        ascii "\x7d")

theorem dataLines_sseEvent {name : String} {payload : Bytes} (hname : 10 ∉ ascii name)
    (h : 10 ∉ payload) (s : Bytes) :
    dataLines (sseEvent name payload ++ s) = payload :: dataLines s := by
  have hevent : 10 ∉ ascii "event: " ++ trim (ascii name) := by
    rw [List.mem_append, not_or]
    exact ⟨by decide, fun hmem => hname ((List.rdropWhile_prefix _ _).subset hmem)⟩
  have hshape : sseEvent name payload ++ s = (ascii "event: " ++ trim (ascii name)) ++
      10 :: (ascii "data: " ++ (payload ++ 10 :: 10 :: s)) := by
    simp only [sseEvent, List.append_assoc, List.cons_append, List.nil_append]
  have hdata : ¬ ascii "data: " <+: ascii "event: " ++ trim (ascii name) :=
    fun hdata => absurd (List.cons_prefix_cons.mp hdata).1 (by decide)
  rw [hshape, dataLines_line hevent, if_neg hdata, List.nil_append, dataLines_data h]

/-! ### Items -/

/-- An item of the output; a call has its index, counted from 1. -/
inductive Item where
  | reasoning (text : Bytes)
  | message (text : Bytes)
  | functionCall (call : ToolCall) (i : ℕ)

/-- An event: its type and its other members. -/
abbrev Event := String × List (String × Json .value)

def Event.tree (e : Event) : Json .value := object (("type", word e.1) :: e.2)

namespace Item

/-- The text of an item. -/
def text : Item → Bytes
  | reasoning text => text
  | message text => text
  | functionCall call _ => call.arguments

/-- The item as it stands in the output. -/
def tree : Item → Json .value
  | reasoning text => reasoningItem text
  | message text => messageItem text
  | functionCall call i => callItem call i

/-- The item as it is announced. -/
def announced : Item → Json .value
  | reasoning _ => object [("id", word "fortai-native-reasoning"), ("type", word "reasoning"),
      ("status", word "in_progress"), ("summary", array [])]
  | message _ => object [("id", word "fortai-native-message"), ("type", word "message"),
      ("role", word "assistant"), ("status", word "in_progress"), ("content", array [])]
  | functionCall call i => object [("id", callId i), ("type", word "function_call"),
      ("status", word "in_progress"), ("call_id", callId i), ("name", string call.name),
      ("arguments", string [])]

/-- The events between the first and the last one of an item. -/
def updates (k : ℕ) : Item → List Event
  | reasoning text =>
    [("response.reasoning_summary_text.delta", [("item_id", word "fortai-native-reasoning"),
        ("output_index", number k), ("summary_index", number 0), ("delta", string text)]),
      ("response.reasoning_summary_part.done", [("item_id", word "fortai-native-reasoning"),
        ("output_index", number k), ("summary_index", number 0),
        ("part", object [("type", word "summary_text"), ("text", string text)])])]
  | message text =>
    [("response.content_part.added", [("item_id", word "fortai-native-message"),
        ("output_index", number k), ("content_index", number 0),
        ("part", object [("type", word "output_text"), ("text", string []),
          ("annotations", array [])])]),
      ("response.output_text.delta", [("item_id", word "fortai-native-message"),
        ("output_index", number k), ("content_index", number 0), ("delta", string text)]),
      ("response.output_text.done", [("item_id", word "fortai-native-message"),
        ("output_index", number k), ("content_index", number 0), ("text", string text)]),
      ("response.content_part.done", [("item_id", word "fortai-native-message"),
        ("output_index", number k), ("content_index", number 0),
        ("part", object [("type", word "output_text"), ("text", string text),
          ("annotations", array [])])])]
  | functionCall call i =>
    [("response.function_call_arguments.delta", [("item_id", callId i), ("output_index", number k),
        ("delta", string call.arguments)]),
      ("response.function_call_arguments.done", [("item_id", callId i), ("output_index", number k),
        ("arguments", string call.arguments)])]

/-- The events of the item at the index `k`. -/
def events (item : Item) (k : ℕ) : List Event :=
  ("response.output_item.added", [("output_index", number k), ("item", item.announced)]) ::
    (item.updates k ++
      [("response.output_item.done", [("output_index", number k), ("item", item.tree)])])

end Item

/-- The items of a reply. -/
def outputItems (r : Reply R) : List Item :=
  (if r.reasoning = [] then [] else [.reasoning r.reasoning]) ++
    (if r.hasMessage then [.message r.content] else []) ++
    (r.calls.zipIdx 1).map fun c => .functionCall c.1 c.2

theorem output_eq (r : Reply R) : output r = (outputItems r).map Item.tree := by
  rw [output, outputItems, List.map_append, List.map_append, List.map_map]
  split_ifs <;> rfl

/-! ### Events -/

/-- The text of a list of events. -/
def sseEvents (l : List Event) : Bytes := l.flatMap fun e => sseEvent e.1 e.tree.render

theorem sseEvents_cons {name : String} {payload tail : Bytes} {fields : List (String × Json .value)}
    {l : List Event} (h : payload = (object (("type", word name) :: fields)).render)
    (htail : tail = sseEvents l) : sseEvent name payload ++ tail = sseEvents ((name, fields) :: l) := by
  rw [h, htail]
  rfl

theorem sseEvents_single {name : String} {payload : Bytes} {fields : List (String × Json .value)}
    (h : payload = (object (("type", word name) :: fields)).render) :
    sseEvent name payload = sseEvents [(name, fields)] := by
  rw [h]
  exact (List.append_nil _).symm

theorem sseEvents_append (l m : List Event) : sseEvents (l ++ m) = sseEvents l ++ sseEvents m :=
  List.flatMap_append

theorem reasoningEvents_eq (r : Reply R) :
    reasoningEvents r = sseEvents ((Item.reasoning r.reasoning).events 0) := by
  refine sseEvents_cons ?_ (sseEvents_cons ?_ (sseEvents_cons ?_ (sseEvents_single ?_)))
  all_goals
    simp only [Item.announced, Item.tree, reasoningItem, render_object, render_array,
      render_array_nil, render_string, render_number, List.flatMap_cons, List.flatMap_nil, fieldText,
      word, List.append_assoc, List.cons_append, List.nil_append]
    repeat rw [ascii_ofList]
    rfl

theorem messageEvents_eq (k : ℕ) (r : Reply R) :
    messageEvents k r = sseEvents ((Item.message r.content).events k) := by
  refine sseEvents_cons ?_ (sseEvents_cons ?_ (sseEvents_cons ?_ (sseEvents_cons ?_
    (sseEvents_cons ?_ (sseEvents_single ?_)))))
  all_goals
    simp only [Item.announced, Item.tree, messageItem, render_object, render_array,
      render_array_nil, render_string, render_number, List.flatMap_cons, List.flatMap_nil, fieldText,
      word, List.append_assoc, List.cons_append, List.nil_append]
    repeat rw [ascii_ofList]
    rfl

theorem callEvents_eq (k i : ℕ) (call : ToolCall) :
    callEvents k i call = sseEvents ((Item.functionCall call i).events k) := by
  refine sseEvents_cons ?_ (sseEvents_cons ?_ (sseEvents_cons ?_ (sseEvents_single ?_)))
  all_goals
    simp only [Item.announced, Item.tree, callItem, render_object, render_callId, render_string,
      render_number, List.flatMap_cons, List.flatMap_nil, fieldText, word, List.append_assoc,
      List.cons_append, List.nil_append]
    repeat rw [ascii_ofList]
    rfl

/-- A response before its output. -/
def inProgress (clock : ℤ) (r : Reply R) : Json .value :=
  object [("id", word "fortai-native-response"), ("object", word "response"),
    ("created_at", number clock), ("status", word "in_progress"), ("completed_at", null),
    ("model", string r.model), ("output", array []), ("usage", null)]

/-- The events of the items, each under its index. -/
def itemEvents (items : List Item) (k : ℕ) : List Event :=
  (items.zipIdx k).flatMap fun c => c.1.events c.2

def responseEvents (clock later : ℤ) (r : Reply R) : List Event :=
  [("response.created", [("response", inProgress clock r)]),
    ("response.in_progress", [("response", inProgress clock r)])] ++
      (itemEvents (outputItems r) 0 ++ [("response.completed", [("response", responseBody later r)])])

theorem createdEvents_eq (clock : ℤ) (r : Reply R) :
    createdEvents clock r = sseEvents [("response.created", [("response", inProgress clock r)]),
      ("response.in_progress", [("response", inProgress clock r)])] := by
  refine sseEvents_cons ?_ (sseEvents_single ?_)
  all_goals
    simp only [inProgress, render_object, render_array_nil, render_null, render_string,
      render_number, List.flatMap_cons, List.flatMap_nil, fieldText, word, List.append_assoc,
      List.cons_append, List.nil_append]
    repeat rw [ascii_ofList]
    rfl

theorem callsEvents_eq (calls : List ToolCall) (k i : ℕ) :
    callsEvents k i calls =
      sseEvents (itemEvents ((calls.zipIdx i).map fun c => .functionCall c.1 c.2) k) := by
  induction calls generalizing k i with
  | nil => rfl
  | cons call rest ih =>
    rw [callsEvents, ih (k + 1) (i + 1), callEvents_eq, ← sseEvents_append]
    rfl

/-- The stream is that of the events. -/
theorem responseStream_eq (clock later : ℤ) (r : Reply R) :
    responseStream clock later r = sseEvents (responseEvents clock later r) := by
  have hcompleted : sseEvent "response.completed"
      (ascii "\x7b\"type\":\"response.completed\",\"response\":" ++ responseJson later r ++
        ascii "\x7d") = sseEvents [("response.completed", [("response", responseBody later r)])] := by
    refine sseEvents_single ?_
    rw [responseJson_eq]
    generalize responseBody later r = body
    simp only [render_object, render_string, List.flatMap_cons, List.flatMap_nil, fieldText, word,
      List.append_assoc, List.cons_append, List.nil_append]
    repeat rw [ascii_ofList]
    rfl
  have hsplit (a b : List Item) (k : ℕ) : itemEvents (a ++ b) k =
      itemEvents a k ++ itemEvents b (k + a.length) := by
    rw [itemEvents, List.zipIdx_append, List.flatMap_append]
    rfl
  have hone (item : Item) (k : ℕ) : itemEvents [item] k = item.events k := List.append_nil _
  have hnil (k : ℕ) : sseEvents (itemEvents [] k) = [] := rfl
  rw [responseStream, hcompleted, createdEvents_eq, callsEvents_eq, responseEvents, sseEvents_append,
    sseEvents_append, outputItems, hsplit, hsplit, sseEvents_append, sseEvents_append]
  by_cases hreasoning : r.reasoning = [] <;> by_cases hmessage : r.hasMessage = true <;>
    simp only [hreasoning, hmessage, if_true, if_false, Bool.false_eq_true, hone, hnil,
      ← reasoningEvents_eq, messageEvents_eq, List.append_assoc, List.length_append,
      List.length_nil, List.length_cons, Nat.zero_add, Nat.add_zero]

/-! ### Lines -/

/-- An event that takes one line. -/
def Event.OneLine (e : Event) : Prop := 10 ∉ ascii e.1 ∧ ∀ f ∈ e.2, Document.OneLine f.2.render

theorem Event.OneLine.tree {e : Event} (h : e.OneLine) : Document.OneLine e.tree.render :=
  oneLine_object fun f hf => by
    rcases List.mem_cons.mp hf with rfl | hf
    · exact oneLine_word e.1
    · exact h.2 f hf

theorem dataLines_sseEvents {l : List Event} (h : ∀ e ∈ l, e.OneLine) :
    dataLines (sseEvents l) = l.map fun e => e.tree.render := by
  induction l with
  | nil => exact dataLines_nil
  | cons e rest ih =>
    have he := h e List.mem_cons_self
    rw [sseEvents, List.flatMap_cons, dataLines_sseEvent he.1 he.tree.not_newline]
    exact congrArg (e.tree.render :: ·) (ih fun d hd => h d (List.mem_cons_of_mem e hd))

theorem oneLine_summary (text : Bytes) : Document.OneLine (object [("type", word "summary_text"),
    ("text", string text)]).render := by
  simp [oneLine_object, oneLine_string, oneLine_word]

theorem oneLine_part (text : Bytes) : Document.OneLine (object [("type", word "output_text"),
    ("text", string text), ("annotations", array [])]).render := by
  simp [oneLine_object, oneLine_array, oneLine_string, oneLine_word]

theorem Item.oneLine_tree (item : Item) : Document.OneLine item.tree.render := by
  cases item with
  | reasoning text =>
    have hlist := oneLine_array (l := [object [("type", word "summary_text"), ("text", string text)]])
      fun v hv => by rw [List.mem_singleton.mp hv]; exact oneLine_summary text
    simp [Item.tree, reasoningItem, oneLine_object, oneLine_word, hlist]
  | message text =>
    have hlist := oneLine_array (l := [object [("type", word "output_text"), ("text", string text),
      ("annotations", array [])]])
      fun v hv => by rw [List.mem_singleton.mp hv]; exact oneLine_part text
    simp [Item.tree, messageItem, oneLine_object, oneLine_word, hlist]
  | functionCall call i =>
    simp [Item.tree, callItem, oneLine_object, oneLine_string, oneLine_word, oneLine_callId]

theorem Item.oneLine_announced (item : Item) : Document.OneLine item.announced.render := by
  cases item <;>
    simp [Item.announced, oneLine_object, oneLine_array, oneLine_string, oneLine_word,
      oneLine_callId]

theorem Item.oneLine_events (item : Item) (k : ℕ) : ∀ e ∈ item.events k, e.OneLine := by
  have hnames : ∀ e ∈ item.events k, 10 ∉ ascii e.1 := by
    cases item <;>
      simp only [Item.events, Item.updates, List.cons_append, List.nil_append, List.forall_mem_cons] <;>
      repeat rw [ascii_ofList]
    · decide
    · decide
    · decide
  have hfields : ∀ e ∈ item.events k, ∀ f ∈ e.2, Document.OneLine f.2.render := by
    have htree := item.oneLine_tree
    have hannounced := item.oneLine_announced
    cases item <;>
      simp only [Item.events, Item.updates, List.cons_append, List.nil_append, List.forall_mem_cons,
        List.not_mem_nil, false_implies, implies_true, htree, hannounced, oneLine_number,
        oneLine_string, oneLine_word, oneLine_callId, oneLine_summary, oneLine_part, and_self]
  exact fun e he => ⟨hnames e he, hfields e he⟩

theorem oneLine_responseEvents (clock later : ℤ) (r : Reply R) :
    ∀ e ∈ responseEvents clock later r, e.OneLine := by
  have hnull : Document.OneLine null.render := oneLine_literal .null
  have hprogress : Document.OneLine (inProgress clock r).render := by
    simp [inProgress, oneLine_object, oneLine_array, oneLine_string, oneLine_word, oneLine_number,
      hnull]
  have hbody : Document.OneLine (responseBody later r).render := by
    have houtput : Document.OneLine (array (output r)).render := oneLine_array fun v hv => by
      rw [output_eq] at hv
      obtain ⟨item, -, rfl⟩ := List.mem_map.mp hv
      exact item.oneLine_tree
    simp [responseBody, responseUsage, backendField, oneLine_object, oneLine_array, oneLine_string,
      oneLine_word, oneLine_number, hnull, houtput, oneLine_timings, oneLine_literal]
  intro e he
  simp only [responseEvents, List.mem_append, List.mem_cons, List.not_mem_nil, or_false] at he
  rcases he with (rfl | rfl) | he | rfl
  · exact ⟨by rw [ascii_ofList]; decide, by simp [hprogress]⟩
  · exact ⟨by rw [ascii_ofList]; decide, by simp [hprogress]⟩
  · obtain ⟨c, -, hc⟩ := List.mem_flatMap.mp he
    exact c.1.oneLine_events c.2 e hc
  · exact ⟨by rw [ascii_ofList]; decide, by simp [hbody]⟩

/-- The data lines of the stream of a response. -/
theorem dataLines_responseStream (clock later : ℤ) (r : Reply R) :
    dataLines (responseStream clock later r) =
      ((responseEvents clock later r).map Event.tree).map (·.render) := by
  rw [responseStream_eq, dataLines_sseEvents (oneLine_responseEvents clock later r), List.map_map]
  rfl

/-! ### Reading the events -/

/-- The index and the item of an event. -/
def indexedItem (v : Json .value) : Option (ℤ × Json .value) := do
  let index ← (field "output_index" v).bind integerOf
  let item ← field "item" v
  return (index, item)

/-- What names an item: its members `id`, `type` and `name`. -/
def itemName (v : Json .value) : Option Bytes × Option Bytes × Option Bytes :=
  (stringAt "id" v, stringAt "type" v, stringAt "name" v)

/-- The text of an item: its summary, its content or its arguments. -/
def itemText (v : Json .value) : Option Bytes :=
  ((ofType "reasoning" (partAt "summary") v).or (ofType "message" (partAt "content") v)).or
    (ofType "function_call" (stringAt "arguments") v)

/-- What an event adds to the text of the item at that index. -/
def deltaAt (k : ℕ) (v : Json .value) : Option Bytes :=
  if (field "output_index" v).bind integerOf = some (k : ℤ) then stringAt "delta" v else none

/-- The events announce and close the items of the output of the final response under the indices
0, 1, 2, and so on; the deltas of an item make its text. -/
structure ResponseChannels (events : List (Json .value)) (final : Json .value)
    (items : List (Json .value)) : Prop where
  completed : events.filterMap (ofType "response.completed" (field "response")) = [final]
  output : (field "output" final).bind elementsOf = some items
  index : (events.filterMap (ofType "response.output_item.added" indexedItem)).map Prod.fst =
    (List.range items.length).map Int.ofNat
  name : (events.filterMap (ofType "response.output_item.added" indexedItem)).map
    (fun c => itemName c.2) = items.map itemName
  item : events.filterMap (ofType "response.output_item.done" indexedItem) =
    items.zipIdx.map fun c => ((c.2 : ℤ), c.1)
  text : ∀ k, joined (deltaAt k) events = ((items[k]?).bind itemText).getD []

namespace Item

theorem field_index (item : Item) (k : ℕ) :
    ∀ e ∈ item.events k, field "output_index" e.tree = some (number k) := by
  intro e he
  cases item <;>
    simp only [events, updates, List.cons_append, List.nil_append, List.mem_cons, List.not_mem_nil,
      or_false] at he
  · rcases he with rfl | rfl | rfl | rfl <;> rfl
  · rcases he with rfl | rfl | rfl | rfl | rfl | rfl <;> rfl
  · rcases he with rfl | rfl | rfl | rfl <;> rfl

/-- The types that tell the items apart stand at the first and the last event only. -/
theorem updates_type (item : Item) (k : ℕ) : ∀ e ∈ item.updates k,
    ascii e.1 ≠ ascii "response.output_item.added" ∧ ascii e.1 ≠ ascii "response.output_item.done" ∧
      ascii e.1 ≠ ascii "response.completed" := by
  cases item <;>
    simp only [updates, List.forall_mem_cons, List.not_mem_nil, false_implies, implies_true,
      and_true] <;>
    repeat rw [ascii_ofList]
  · decide
  · decide
  · decide

theorem itemText_tree (item : Item) : itemText item.tree = some item.text := by
  cases item with
  | reasoning text =>
    have hreasoning : ofType "reasoning" (partAt "summary") (reasoningItem text) = some text :=
      (ofType_self rfl).trans (stringOf_string text)
    rw [tree, itemText, hreasoning]
    rfl
  | message text =>
    have hreasoning : ofType "reasoning" (partAt "summary") (messageItem text) = none :=
      ofType_other rfl (by decide)
    have hmessage : ofType "message" (partAt "content") (messageItem text) = some text :=
      (ofType_self rfl).trans (stringOf_string text)
    rw [tree, itemText, hreasoning, hmessage]
    rfl
  | functionCall call i =>
    have hreasoning : ofType "reasoning" (partAt "summary") (callItem call i) = none :=
      ofType_other rfl (by decide)
    have hmessage : ofType "message" (partAt "content") (callItem call i) = none :=
      ofType_other rfl (by decide)
    have hcall : ofType "function_call" (stringAt "arguments") (callItem call i) =
        some call.arguments := (ofType_self rfl).trans (stringOf_string call.arguments)
    rw [tree, itemText, hreasoning, hmessage, hcall]
    rfl

/-- What the members that name an item hold. -/
def naming : Item → Json .value × Json .value × Option (Json .value)
  | reasoning _ => (word "fortai-native-reasoning", word "reasoning", none)
  | message _ => (word "fortai-native-message", word "message", none)
  | functionCall call i => (callId i, word "function_call", some (string call.name))

theorem itemName_announced (item : Item) : itemName item.announced = itemName item.tree := by
  have hannounced : field "id" item.announced = some item.naming.1 ∧
      field "type" item.announced = some item.naming.2.1 ∧
        field "name" item.announced = item.naming.2.2 := by
    cases item <;> exact ⟨rfl, rfl, rfl⟩
  have htree : field "id" item.tree = some item.naming.1 ∧
      field "type" item.tree = some item.naming.2.1 ∧
        field "name" item.tree = item.naming.2.2 := by
    cases item <;> exact ⟨rfl, rfl, rfl⟩
  simp only [itemName, stringAt, hannounced, htree]

theorem joined_events (item : Item) (k j : ℕ) :
    joined (deltaAt j) ((item.events k).map Event.tree) = if k = j then item.text else [] := by
  have hdelta : ∀ e ∈ item.events k,
      deltaAt j e.tree = if k = j then stringAt "delta" e.tree else none := by
    intro e he
    rw [deltaAt, item.field_index k e he, Option.bind_some, integerOf_number]
    simp only [Option.some.injEq, Int.ofNat_inj]
  rw [joined, List.flatMap_map, List.flatMap_congr fun e he => by rw [hdelta e he]]
  by_cases hk : k = j
  · simp only [if_pos hk]
    have htext (t : Bytes) : (stringOf (string t)).getD [] = t := by
      rw [stringOf_string]
      rfl
    cases item with
    | reasoning text =>
      show [] ++ ((stringOf (string text)).getD [] ++ ([] ++ ([] ++ []))) = text
      rw [htext]
      simp only [List.append_nil, List.nil_append]
    | message text =>
      show [] ++ ([] ++ ((stringOf (string text)).getD [] ++ ([] ++ ([] ++ ([] ++ []))))) = text
      rw [htext]
      simp only [List.append_nil, List.nil_append]
    | functionCall call i =>
      show [] ++ ((stringOf (string call.arguments)).getD [] ++ ([] ++ ([] ++ []))) = call.arguments
      rw [htext]
      simp only [List.append_nil, List.nil_append]
  · simp only [if_neg hk, Option.getD_none]
    exact List.flatMap_eq_nil_iff.mpr fun _ _ => rfl

theorem indexedItem_of {v item : Json .value} {k : ℕ}
    (hindex : field "output_index" v = some (number k)) (hitem : field "item" v = some item) :
    indexedItem v = some ((k : ℤ), item) := by
  rw [indexedItem, hindex, hitem]
  simp only [Option.bind_eq_bind, Option.bind_some, integerOf_number]
  rfl

/-- The first event of an item announces it, the last one closes it. -/
theorem filterMap_events {α : Type} {type : String} {read : Json .value → Option α} (item : Item)
    (k : ℕ) (hupdates : ∀ e ∈ item.updates k, ascii e.1 ≠ ascii type) :
    ((item.events k).map Event.tree).filterMap (ofType type read) =
      (ofType type read (Event.tree ("response.output_item.added",
        [("output_index", number k), ("item", item.announced)]))).toList ++
      (ofType type read (Event.tree ("response.output_item.done",
        [("output_index", number k), ("item", item.tree)]))).toList := by
  have hnone : ((item.updates k).map Event.tree).filterMap (ofType type read) = [] := by
    rw [List.filterMap_map]
    exact List.filterMap_eq_nil_iff.mpr fun e he => ofType_other rfl (hupdates e he)
  rw [events, List.map_cons, List.map_append, List.filterMap_cons, List.filterMap_append, hnone,
    List.nil_append, List.map_singleton, List.filterMap_cons, List.filterMap_nil]
  cases ofType type read (Event.tree ("response.output_item.added",
    [("output_index", number k), ("item", item.announced)])) <;>
  cases ofType type read (Event.tree ("response.output_item.done",
    [("output_index", number k), ("item", item.tree)])) <;> rfl

end Item

/-- What is read of the events of a reply. -/
theorem filterMap_responseEvents {α : Type} {type : String} {read : Json .value → Option α}
    (clock later : ℤ) (r : Reply R) (hcreated : ascii "response.created" ≠ ascii type)
    (hprogress : ascii "response.in_progress" ≠ ascii type) {g : Item → ℕ → List α}
    (hitem : ∀ item k, ((Item.events item k).map Event.tree).filterMap (ofType type read) = g item k) :
    ((responseEvents clock later r).map Event.tree).filterMap (ofType type read) =
      ((outputItems r).zipIdx.flatMap fun c => g c.1 c.2) ++
        (ofType type read (Event.tree ("response.completed",
          [("response", responseBody later r)]))).toList := by
  have hfirst : ofType type read (Event.tree ("response.created",
      [("response", inProgress clock r)])) = none := ofType_other rfl hcreated
  have hsecond : ofType type read (Event.tree ("response.in_progress",
      [("response", inProgress clock r)])) = none := ofType_other rfl hprogress
  have hitems : ((itemEvents (outputItems r) 0).map Event.tree).filterMap (ofType type read) =
      (outputItems r).zipIdx.flatMap fun c => g c.1 c.2 := by
    rw [itemEvents, List.map_flatMap, List.filterMap_flatMap]
    exact List.flatMap_congr fun c _ => hitem c.1 c.2
  rw [responseEvents, List.map_append, List.map_append, List.filterMap_append,
    List.filterMap_append, hitems]
  simp only [List.map_cons, List.map_nil, List.filterMap_cons, List.filterMap_nil, hfirst, hsecond,
    List.nil_append]
  cases ofType type read (Event.tree ("response.completed",
    [("response", responseBody later r)])) <;> rfl

theorem joined_responseEvents (clock later : ℤ) (r : Reply R) (k : ℕ) :
    joined (deltaAt k) ((responseEvents clock later r).map Event.tree) =
      (((outputItems r)[k]?).map Item.text).getD [] := by
  have hother (type : String) (v : Json .value) :
      deltaAt k (Event.tree (type, [("response", v)])) = none := if_neg fun h => (by cases h)
  have hitems : joined (deltaAt k) ((itemEvents (outputItems r) 0).map Event.tree) =
      (((outputItems r)[k]?).map Item.text).getD [] := by
    rw [itemEvents, joined, List.map_flatMap, List.flatMap_assoc]
    have hevents (c : Item × ℕ) (_ : c ∈ (outputItems r).zipIdx) :
        ((c.1.events c.2).map Event.tree).flatMap (fun v => (deltaAt k v).getD []) =
          if c.2 = k then c.1.text else [] := c.1.joined_events c.2 k
    rw [List.flatMap_congr hevents, flatMap_zipIdx, if_pos (Nat.zero_le k), Nat.sub_zero]
  rw [joined] at hitems ⊢
  rw [responseEvents, List.map_append, List.map_append, List.flatMap_append, List.flatMap_append,
    hitems]
  simp only [List.map_cons, List.map_nil, List.flatMap_cons, List.flatMap_nil, hother,
    Option.getD_none, List.nil_append, List.append_nil]

/-- The events say of the items what the final response says. -/
theorem responseChannels (clock later : ℤ) (r : Reply R) :
    ResponseChannels ((responseEvents clock later r).map Event.tree) (responseBody later r)
      (output r) := by
  have htype (type : String) (l : List (String × Json .value)) :
      field "type" (Event.tree (type, l)) = some (word type) := rfl
  have hadded : ((responseEvents clock later r).map Event.tree).filterMap
      (ofType "response.output_item.added" indexedItem) =
      (outputItems r).zipIdx.map fun c => ((c.2 : ℤ), c.1.announced) := by
    rw [filterMap_responseEvents clock later r (by decide) (by decide) (g := fun item k =>
      [((k : ℤ), item.announced)]), ofType_other (htype "response.completed" _) (by decide),
      ← List.map_eq_flatMap]
    · exact List.append_nil _
    · intro item k
      rw [item.filterMap_events k fun e he => (item.updates_type k e he).1,
        ofType_self (htype _ _), ofType_other (htype "response.output_item.done" _) (by decide),
        Item.indexedItem_of rfl rfl]
      rfl
  have hdone : ((responseEvents clock later r).map Event.tree).filterMap
      (ofType "response.output_item.done" indexedItem) =
      (outputItems r).zipIdx.map fun c => ((c.2 : ℤ), c.1.tree) := by
    rw [filterMap_responseEvents clock later r (by decide) (by decide) (g := fun item k =>
      [((k : ℤ), item.tree)]), ofType_other (htype "response.completed" _) (by decide),
      ← List.map_eq_flatMap]
    · exact List.append_nil _
    · intro item k
      rw [item.filterMap_events k fun e he => (item.updates_type k e he).2.1,
        ofType_other (htype "response.output_item.added" _) (by decide), ofType_self (htype _ _),
        Item.indexedItem_of rfl rfl]
      rfl
  constructor
  · rw [filterMap_responseEvents clock later r (by decide) (by decide) (g := fun _ _ => []),
      ofType_self (htype _ _), List.flatMap_eq_nil_iff.mpr fun _ _ => rfl]
    · rfl
    · intro item k
      rw [item.filterMap_events k fun e he => (item.updates_type k e he).2.2,
        ofType_other (htype "response.output_item.added" _) (by decide),
        ofType_other (htype "response.output_item.done" _) (by decide)]
      rfl
  · exact elementsOf_array (output r)
  · have hindex := List.zipIdx_map_snd 0 (outputItems r)
    rw [hadded, output_eq, List.length_map, List.range_eq_range', ← hindex, List.map_map,
      List.map_map]
    rfl
  · have hitem := List.zipIdx_map_fst 0 (outputItems r)
    rw [hadded, output_eq, List.map_map, List.map_map]
    conv_rhs => rw [← hitem, List.map_map]
    exact List.map_congr_left fun c _ => c.1.itemName_announced
  · rw [hdone, output_eq, List.zipIdx_map, List.map_map]
    rfl
  · intro k
    rw [joined_responseEvents, output_eq, List.getElem?_map]
    cases (outputItems r)[k]? with
    | none => rfl
    | some item => exact (congrArg (Option.getD · []) item.itemText_tree).symm

/-! ### Replies -/

/-- A body is a JSON text, and `parts` is what is read of it. -/
structure BodyCarries {α : Type} (body : Bytes) (read : Json .value → Option α) (parts : α) :
    Prop where
  wellFormed : WellFormed body
  reads : ∃ (v : Json .value) (after : Gap), body = v.render ++ after.bytes ∧ read v = some parts

/-- The data lines of a stream are JSON texts of one line each, and perhaps others behind them. -/
structure StreamCarries (stream : Bytes) (events : List (Json .value)) (others : List Bytes) :
    Prop where
  lines : dataLines stream = events.map (·.render) ++ others
  wellFormed : ∀ line ∈ dataLines stream, line ∈ others ∨ WellFormed line
  oneLine : ∀ v ∈ events, OneLine v.render

theorem bodyCarries {α : Type} {body : Bytes} {read : Json .value → Option α} {parts : α}
    {v : Json .value} (after : Gap) (hbody : body = v.render ++ after.bytes)
    (hread : read v = some parts) : BodyCarries body read parts :=
  ⟨⟨default, v, after, hbody⟩, v, after, hbody, hread⟩

theorem streamCarries {stream : Bytes} {events : List (Json .value)} {others : List Bytes}
    (hlines : dataLines stream = events.map (·.render) ++ others)
    (hline : ∀ v ∈ events, OneLine v.render) : StreamCarries stream events others := by
  refine ⟨hlines, fun line hmem => ?_, hline⟩
  rw [hlines, List.mem_append] at hmem
  rcases hmem with hmem | hmem
  · obtain ⟨v, -, rfl⟩ := List.mem_map.mp hmem
    exact Or.inr (wellFormed v)
  · exact Or.inl hmem

/-- Every reply is well formed, and what is read of it is what the model has said. -/
theorem replies_wellFormed (clock later : ℤ) (r : Reply R) :
    BodyCarries (completionBody clock r true) readChat r.parts ∧
      BodyCarries (completionBody clock r false) readText (r.model, r.content) ∧
      BodyCarries (responseJson clock r) readResponse r.parts ∧
      (∃ events, StreamCarries (completionStream clock r) events [ascii "[DONE]"] ∧
        ChatChannels events r) ∧
      ∃ events final items, StreamCarries (responseStream clock later r) events [] ∧
        ResponseChannels events final items ∧ readResponse final = some r.parts := by
  have hchat := dataLines_completionStream clock r
  have hresponse := dataLines_responseStream clock later r
  rw [← List.append_nil (List.map _ _)] at hresponse
  have honeLine : ∀ v ∈ (responseEvents clock later r).map Event.tree, OneLine v.render := by
    intro v hv
    obtain ⟨e, he, rfl⟩ := List.mem_map.mp hv
    exact (oneLine_responseEvents clock later r e he).tree
  refine ⟨bodyCarries ⟨[10], rfl⟩ (completionBody_chat clock r) (readChat_chatBody clock r),
    bodyCarries ⟨[10], rfl⟩ (completionBody_text clock r) (readText_textBody clock r),
    bodyCarries default ?_ (readResponse_responseBody clock r),
    ⟨chunks clock r, streamCarries hchat (oneLine_chunks clock r), chatChannels clock r⟩,
    (responseEvents clock later r).map Event.tree, responseBody later r, output r,
    streamCarries hresponse honeLine, responseChannels clock later r,
    readResponse_responseBody later r⟩
  rw [responseJson_eq]
  exact (List.append_nil _).symm

end Chat

end FortAI
