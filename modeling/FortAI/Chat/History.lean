import FortAI.Chat.Arguments
import FortAI.Chat.Events
import FortAI.Chat.Turns

/-!
# Tool calls sent back

A client sends the tool calls of a reply back in the next request.  `append_chat_tool_object` writes
the arguments as a string, and `append_json_parameters` only reads objects, so the prompt names the
calls without their parameters.

* `toolCallLoop_items` : what the prompt gets of the calls of a reply.
* `formatChat_middle` : the turn of the message that carries them.
* `returned_iff` : the prompt shows the calls exactly when none of them has a parameter.
-/

namespace FortAI

namespace Chat

open CString Character Document

/-! ### Names in documents -/

theorem eq_of_quoted_suffix {key name : Bytes} (hname : ∀ b ∈ name, isPlain b = true)
    (h : quoted key <:+ quoted name) : key = name := by
  rcases List.suffix_cons_iff.mp h with h | h
  · exact List.append_cancel_right (List.cons.inj h).2
  · -- otherwise the opening quote of the key stands inside the name
    obtain ⟨t, ht⟩ := h
    have hend : (t ++ 34 :: key) ++ [34] = name ++ [34] := by
      rw [← ht, quoted, List.append_assoc, List.cons_append]
    have hcut : t ++ 34 :: key = name := List.append_cancel_right hend
    have hquote : isPlain 34 = true := hname 34 (hcut ▸ List.mem_append_right t List.mem_cons_self)
    exact absurd hquote (by decide)

/-- A name that is written as it is. -/
def PlainName (s : String) : Prop := ∀ b ∈ ascii s, isPlain b = true

theorem render_name {s : String} (h : PlainName s) : (escapeText (ascii s)).render = quoted (ascii s) := by
  rw [← jsonEscape_eq, jsonEscape_plain h]
  rfl

theorem mentions_fields {key : Bytes} {l : List (String × Json .value)}
    (h : ∀ f ∈ l, PlainName f.1) :
    Mentions key (fields l) ↔ ∃ f ∈ l, key = ascii f.1 ∨ Mentions key f.2 := by
  induction l with
  | nil => exact ⟨False.elim, fun ⟨_, hf, _⟩ => (by cases hf)⟩
  | cons f rest ih =>
    have hname : quoted key <:+ (escapeText (ascii f.1)).render ↔ key = ascii f.1 := by
      rw [render_name (h f List.mem_cons_self)]
      refine ⟨eq_of_quoted_suffix (h f List.mem_cons_self), ?_⟩
      rintro rfl
      exact List.suffix_refl _
    show quoted key <:+ (escapeText (ascii f.1)).render ∨ Mentions key f.2 ∨
      Mentions key (fields rest) ↔ _
    rw [hname, ih fun g hg => h g (List.mem_cons_of_mem f hg), List.exists_mem_cons_iff, or_assoc]

theorem mentions_items {key : Bytes} (l : List (Json .value)) :
    Mentions key (items l) ↔ ∃ v ∈ l, Mentions key v := by
  induction l with
  | nil => exact ⟨False.elim, fun ⟨_, hv, _⟩ => (by cases hv)⟩
  | cons v rest ih =>
    show Mentions key v ∨ Mentions key (items rest) ↔ _
    rw [ih, List.exists_mem_cons_iff]

theorem unshadowed_fields {key : Bytes} {l : List (String × Json .value)}
    (hplain : ∀ f ∈ l, PlainName f.1) (h : ∀ f ∈ l, ¬ Mentions key f.2) :
    Unshadowed key (fields l) := by
  induction l with
  | nil => trivial
  | cons f rest ih =>
    have hname := render_name (hplain f List.mem_cons_self)
    show if (escapeText (ascii f.1)).decode = key then quoted key <:+ (escapeText (ascii f.1)).render
      else ¬ quoted key <:+ (escapeText (ascii f.1)).render ∧ ¬ Mentions key f.2 ∧
        Unshadowed key (fields rest)
    rw [decode_escapeText, hname]
    split_ifs with hkey
    · rw [hkey]
    · exact ⟨fun hsuffix => hkey (eq_of_quoted_suffix (hplain f List.mem_cons_self) hsuffix).symm,
        h f List.mem_cons_self, ih (fun g hg => hplain g (List.mem_cons_of_mem f hg))
          fun g hg => h g (List.mem_cons_of_mem f hg)⟩

/-! ### Reading a call -/

theorem plainName_of {s : String} (h : (ascii s).all isPlain = true) : PlainName s :=
  List.all_eq_true.mp h

/-- Where a member of a document is found. -/
theorem jsonKey_fields {key : String} (hkey : IsName (ascii key)) {l : List (String × Json .value)}
    (hplain : ∀ f ∈ l, PlainName f.1) (hvalues : ∀ f ∈ l, ¬ Mentions (ascii key) f.2) :
    jsonKey (ascii key) (object l).render (object l).render.length =
      topLevel (ascii key) (fields l) [125] := by
  have hfound := jsonKey_object hkey default (fields l) []
  rw [List.append_nil] at hfound
  rw [object, hfound]
  exact (search_eq_topLevel (fields l) rfl _).mpr (unshadowed_fields hplain hvalues)

theorem not_mentions_string (key text : Bytes) : ¬ Mentions key (string text) := id

def functionFields (call : ToolCall) : List (String × Json .value) :=
  [("name", string call.name), ("arguments", string call.arguments)]

/-- The members of a tool call of a reply. -/
def toolFields (call : ToolCall) (i : ℕ) : List (String × Json .value) :=
  [("id", callId i), ("type", word "function"), ("function", object (functionFields call))]

theorem plainName_functionFields (call : ToolCall) : ∀ f ∈ functionFields call, PlainName f.1 := by
  have hname : PlainName "name" := plainName_of (by decide)
  have harguments : PlainName "arguments" := plainName_of (by decide)
  simp only [functionFields, List.forall_mem_cons, hname, harguments, List.not_mem_nil,
    false_implies, implies_true, and_self]

theorem plainName_toolFields (call : ToolCall) (i : ℕ) : ∀ f ∈ toolFields call i, PlainName f.1 := by
  have hid : PlainName "id" := plainName_of (by decide)
  have htype : PlainName "type" := plainName_of (by decide)
  have hfunction : PlainName "function" := plainName_of (by decide)
  simp only [toolFields, List.forall_mem_cons, hid, htype, hfunction, List.not_mem_nil,
    false_implies, implies_true, and_self]

theorem mentions_functionFields (call : ToolCall) {key : Bytes} :
    Mentions key (object (functionFields call)) ↔ key = ascii "name" ∨ key = ascii "arguments" := by
  show Mentions key (fields (functionFields call)) ↔ _
  rw [mentions_fields (plainName_functionFields call)]
  simp only [functionFields, List.exists_mem_cons_iff, not_mentions_string, or_false,
    List.not_mem_nil, false_and, exists_false]

theorem mentions_toolFields (call : ToolCall) (i : ℕ) {key : Bytes} :
    Mentions key (toolObject call i) ↔ key ∈ [ascii "id", ascii "type", ascii "function",
      ascii "name", ascii "arguments"] := by
  show Mentions key (fields (toolFields call i)) ↔ _
  rw [mentions_fields (plainName_toolFields call i)]
  simp only [toolFields, List.exists_mem_cons_iff, mentions_functionFields, callId, word,
    not_mentions_string, or_false, List.not_mem_nil, false_and, exists_false]
  simp only [List.mem_cons, List.not_mem_nil, or_false]

/-- `callOf` finds the name and the arguments of a call of a reply; the arguments are a string. -/
theorem callOf_toolObject (call : ToolCall) (i : ℕ) :
    callOf (toolObject call i).render =
      if call.name = [] then none else some (call.name, jsonEscape call.arguments) := by
  have hfunction : jsonKey (ascii "function") (toolObject call i).render
      (toolObject call i).render.length = some ((object (functionFields call)).render ++ [125]) := by
    refine (jsonKey_fields (by decide) (plainName_toolFields call i) ?_).trans rfl
    intro f hf
    simp only [toolFields, List.mem_cons, List.not_mem_nil, or_false] at hf
    rcases hf with rfl | rfl | rfl
    · exact not_mentions_string _ _
    · exact not_mentions_string _ _
    · rw [mentions_functionFields]
      decide
  have hkey {key : String} (hname : IsName (ascii key)) :
      jsonKey (ascii key) (object (functionFields call)).render
        (object (functionFields call)).render.length =
          topLevel (ascii key) (fields (functionFields call)) [125] := by
    refine jsonKey_fields hname (plainName_functionFields call) ?_
    intro f hf
    simp only [functionFields, List.mem_cons, List.not_mem_nil, or_false] at hf
    rcases hf with rfl | rfl <;> exact not_mentions_string _ _
  have hname : jsonKey (ascii "name") (object (functionFields call)).render
      (object (functionFields call)).render.length =
        some ((string call.name).render ++ 44 :: ((fields [("arguments", string call.arguments)]).render ++
          [125])) := (hkey (by decide)).trans rfl
  have harguments : jsonKey (ascii "arguments") (object (functionFields call)).render
      (object (functionFields call)).render.length =
        some ((string call.arguments).render ++ [125]) := (hkey (by decide)).trans rfl
  have hread (text s : Bytes) : jsonString ((string text).render ++ s) = some (text, s) := by
    rw [string, Json.render, jsonString_render, decode_escapeText]
  have hraw : jsonRawValue ((string call.arguments).render ++ [125]) =
      some (jsonEscape call.arguments, [125]) := by
    rw [jsonRawValue_render _ (ended_cons (by decide) []), render_string]
  have hvalue : jsonStringValue (object (functionFields call)).render (ascii "name") [] = call.name := by
    rw [jsonStringValue, hname]
    simp only [hread]
    rfl
  have hhead : ((object (functionFields call)).render ++ [125]).head? = some 123 := rfl
  have hmatch : matchingDelimiter ((object (functionFields call)).render ++ [125]) 123 125 =
      some (object (functionFields call)).render.length :=
    matchingDelimiter_object default (fields (functionFields call)) [125]
  rw [callOf, hfunction]
  simp only [hhead, if_true, hmatch, Option.map_some, List.take_left, Option.bind_eq_bind,
    Option.bind_some, hname, hvalue, harguments, hraw]

/-! ### The loop over the calls -/

/-- The blocks that the prompt gets of the calls of a reply: it ends at a call without a name. -/
def nameBlocks (separator : Bytes) : List ToolCall → Bytes
  | [] => []
  | call :: rest =>
    if call.name = [] then []
    else separator ++ (callBlock call.name [] ++ nameBlocks newline rest)

theorem toolCallLoop_call {limit n : ℕ} {separator s call name arguments parameters : Bytes}
    (hcall : skipSpace s = call) (hlimit : limit < call.length) (hhead : call.head? = some 123)
    (hn : matchingDelimiter call 123 125 = some n) (hend : ¬ call.length - n + 1 < limit)
    (hof : callOf (call.take n) = some (name, arguments))
    (hparameters : jsonParameters arguments = some parameters) :
    toolCallLoop limit separator s =
      let block := separator ++ callBlock name parameters
      let rest := skipSpace (call.drop n)
      if limit < rest.length ∧ rest.head? = some 44 then
        (toolCallLoop limit (ascii "\n") rest.tail).map (block ++ ·)
      else some block := by
  have hopen : ¬ (call.length ≤ limit ∨ call.head? ≠ some 123) := by
    rw [hhead]
    exact not_or.mpr ⟨Nat.not_le.mpr hlimit, fun h => h rfl⟩
  rw [toolCallLoop]
  simp only [hcall, if_neg hopen, hn, if_neg hend, hof, hparameters]
  rfl

theorem toolCallLoop_nameless {limit n : ℕ} {separator s call : Bytes}
    (hcall : skipSpace s = call) (hlimit : limit < call.length) (hhead : call.head? = some 123)
    (hn : matchingDelimiter call 123 125 = some n) (hend : ¬ call.length - n + 1 < limit)
    (hof : callOf (call.take n) = none) : toolCallLoop limit separator s = some [] := by
  have hopen : ¬ (call.length ≤ limit ∨ call.head? ≠ some 123) := by
    rw [hhead]
    exact not_or.mpr ⟨Nat.not_le.mpr hlimit, fun h => h rfl⟩
  rw [toolCallLoop]
  simp only [hcall, if_neg hopen, hn, if_neg hend, hof]

theorem jsonParameters_string (text : Bytes) : jsonParameters (jsonEscape text) = some [] := by
  refine if_pos (Or.inr fun h => ?_)
  exact absurd (Option.some.inj h) (by decide)

/-- What the loop writes for the calls of a reply. -/
theorem toolCallLoop_items (calls : List ToolCall) (separator : Bytes) (i : ℕ) :
    toolCallLoop 1 separator
        ((items ((calls.zipIdx i).map fun c => toolObject c.1 c.2)).render ++ [93]) =
      some (nameBlocks separator calls) := by
  induction calls generalizing separator i with
  | nil =>
    rw [toolCallLoop]
    exact if_pos (Or.inl (Nat.le_refl 1))
  | cons call rest ih =>
    have hrender : (items (((call :: rest).zipIdx i).map fun c => toolObject c.1 c.2)).render ++ [93] =
        (toolObject call i).render ++
          (((rest.zipIdx (i + 1)).map fun c => toolObject c.1 c.2).flatMap (44 :: ·.render) ++ [93]) := by
      rw [List.zipIdx_cons, List.map_cons, render_items, List.append_assoc]
    generalize hbehind : ((rest.zipIdx (i + 1)).map fun c => toolObject c.1 c.2).flatMap
      (44 :: ·.render) ++ [93] = behind at hrender
    have hskip : skipSpace ((toolObject call i).render ++ behind) =
        (toolObject call i).render ++ behind := rfl
    have hpos : 0 < behind.length := by
      rw [← hbehind, List.length_append]
      exact Nat.lt_of_lt_of_le Nat.one_pos (Nat.le_add_left _ _)
    have hobject := render_pos (toolObject call i)
    have hlimit : 1 < ((toolObject call i).render ++ behind).length := by
      rw [List.length_append]
      omega
    have hend : ¬ ((toolObject call i).render ++ behind).length -
        (toolObject call i).render.length + 1 < 1 := by omega
    have hn : matchingDelimiter ((toolObject call i).render ++ behind) 123 125 =
        some (toolObject call i).render.length :=
      matchingDelimiter_object default (fields (toolFields call i)) behind
    have htake : ((toolObject call i).render ++ behind).take (toolObject call i).render.length =
        (toolObject call i).render := List.take_left
    rw [hrender, nameBlocks]
    by_cases hname : call.name = []
    · have hof := callOf_toolObject call i
      rw [if_pos hname] at hof
      rw [if_pos hname]
      exact toolCallLoop_nameless hskip hlimit rfl hn hend (by rw [htake]; exact hof)
    · have hof := callOf_toolObject call i
      rw [if_neg hname] at hof
      rw [if_neg hname, toolCallLoop_call hskip hlimit rfl hn hend (by rw [htake]; exact hof)
        (jsonParameters_string call.arguments)]
      simp only [List.drop_left]
      cases rest with
      | nil =>
        rw [← hbehind]
        exact congrArg some (by rw [nameBlocks, List.append_nil])
      | cons next rest =>
        have hnext : behind = 44 :: ((items (((next :: rest).zipIdx (i + 1)).map
            fun c => toolObject c.1 c.2)).render ++ [93]) := by
          rw [← hbehind, List.zipIdx_cons, List.map_cons, render_items, List.flatMap_cons]
          rfl
        have hcomma : skipSpace behind = behind := by
          rw [hnext]
          rfl
        have hlong : 1 < behind.length ∧ behind.head? = some 44 := by
          rw [hnext, List.length_cons, List.length_append]
          exact ⟨by rw [List.length_singleton]; omega, rfl⟩
        rw [hcomma, if_pos hlong, hnext, List.tail_cons, ih, Option.map_some, List.append_assoc]
        rfl

/-- What the prompt gets of the calls of a reply. -/
theorem assistantToolCalls_reply (calls : List ToolCall) (hasContent : Bool) :
    assistantToolCalls (array (numbered toolObject calls)).render hasContent =
      some (nameBlocks (if hasContent then ascii "\n\n" else []) calls) := by
  have hlength : 2 ≤ (array (numbered toolObject calls)).render.length := by
    show 2 ≤ (91 :: ((items (numbered toolObject calls)).render ++ [93])).length
    rw [List.length_cons, List.length_append, List.length_singleton]
    omega
  have hopen : ¬ ((array (numbered toolObject calls)).render.length < 2 ∨
      (array (numbered toolObject calls)).render.head? ≠ some 91) :=
    not_or.mpr ⟨Nat.not_lt.mpr hlength, fun h => h rfl⟩
  have hmatch := matchingDelimiter_array default (items (numbered toolObject calls)) []
  rw [List.append_nil] at hmatch
  rw [assistantToolCalls, if_neg hopen]
  simp only [show matchingDelimiter (array (numbered toolObject calls)).render 91 93 = _ from hmatch]
  have hlimit : (array (numbered toolObject calls)).render.length -
      (Json.array default (items (numbered toolObject calls))).render.length + 1 = 1 := by
    show (array (numbered toolObject calls)).render.length -
      (array (numbered toolObject calls)).render.length + 1 = 1
    rw [Nat.sub_self]
  rw [hlimit]
  exact toolCallLoop_items calls _ 1

/-! ### The blocks of the calls -/

/-- A tool call whose arguments are a JSON object. -/
structure ObjectCall where
  name : Bytes
  before : Gap
  gap : Gap
  members : Json .members
  after : Gap

/-- The call as the reply carries it. -/
def ObjectCall.call (c : ObjectCall) : ToolCall :=
  ⟨c.name, c.before.bytes ++ ((Json.object c.gap c.members).render ++ c.after.bytes)⟩

/-- The value of a parameter: a string is decoded, anything else stands as it is written. -/
def parameterValue : Json .value → Bytes
  | .string text => text.decode
  | v => v.render

def parameterBlock (name : Text) (v : Json .value) : Bytes :=
  ascii "<parameter=" ++ name.decode ++ ascii ">\n" ++ parameterValue v ++ ascii "\n</parameter>\n"

/-- One block for every member of the arguments. -/
def ObjectCall.block (c : ObjectCall) : Bytes :=
  callBlock c.name (c.members.memberList.flatMap fun m => parameterBlock m.1 m.2)

/-- The blocks of all the calls, in order. -/
def callBlocks (separator : Bytes) : List ObjectCall → Bytes
  | [] => []
  | c :: rest => separator ++ (c.block ++ callBlocks newline rest)

theorem callBlock_length (name parameters : Bytes) :
    (callBlock name parameters).length = (callBlock name []).length + parameters.length := by
  simp only [callBlock, List.length_append, List.length_nil]
  omega

theorem callBlock_pos (name parameters : Bytes) : 0 < (callBlock name parameters).length := by
  have hopening : (ascii "<tool_call>\n<function=").length = 22 := by decide
  simp only [callBlock, List.length_append, hopening]
  omega

/-- The blocks are those of the names exactly when every call has a name and no parameter. -/
theorem nameBlocks_length (calls : List ObjectCall) (separator : Bytes) :
    (nameBlocks separator (calls.map ObjectCall.call)).length ≤ (callBlocks separator calls).length ∧
      ((nameBlocks separator (calls.map ObjectCall.call)).length = (callBlocks separator calls).length ↔
        ∀ c ∈ calls, c.name ≠ [] ∧ c.members.memberList = []) := by
  induction calls generalizing separator with
  | nil => exact ⟨Nat.le_refl 0, fun _ _ hc => (by cases hc), fun _ => rfl⟩
  | cons c rest ih =>
    obtain ⟨hle, hiff⟩ := ih newline
    have hpos := callBlock_pos c.name (c.members.memberList.flatMap fun m => parameterBlock m.1 m.2)
    have hlength := callBlock_length c.name
      (c.members.memberList.flatMap fun m => parameterBlock m.1 m.2)
    have hparameters : (c.members.memberList.flatMap fun m => parameterBlock m.1 m.2).length = 0 ↔
        c.members.memberList = [] := by
      rw [List.length_eq_zero_iff]
      cases c.members.memberList with
      | nil => exact ⟨fun _ => rfl, fun _ => rfl⟩
      | cons m rest => exact ⟨fun h => (by cases h), fun h => (by cases h)⟩
    have hcall : c.call.name = c.name := rfl
    rw [List.map_cons, nameBlocks, callBlocks, List.forall_mem_cons, ObjectCall.block, hcall]
    by_cases hname : c.name = []
    · rw [if_pos hname]
      simp only [List.length_append, List.length_nil]
      refine ⟨Nat.zero_le _, fun h => ?_, fun h => absurd hname h.1.1⟩
      omega
    · rw [if_neg hname]
      simp only [List.length_append, ← hiff, ← hparameters, ne_eq, hname, not_false_eq_true, true_and]
      omega

theorem callBlocks_eq (calls : List ObjectCall) (separator : Bytes)
    (h : ∀ c ∈ calls, c.name ≠ [] ∧ c.members.memberList = []) :
    nameBlocks separator (calls.map ObjectCall.call) = callBlocks separator calls := by
  induction calls generalizing separator with
  | nil => rfl
  | cons c rest ih =>
    obtain ⟨⟨hname, hmembers⟩, hrest⟩ := List.forall_mem_cons.mp h
    have hcall : c.call.name = c.name := rfl
    rw [List.map_cons, nameBlocks, callBlocks, ObjectCall.block, hcall, if_neg hname, hmembers,
      ih newline hrest]
    rfl

/-! ### The turn of the message -/

/-- The text of an assistant message in its turn. -/
def turnContent (m : Message) : Bytes :=
  trimmed (if m.reasoningContent = [] ∧ 0 < index m.content (ascii "</think>") then
    (splitReasoning m.content true (ascii "auto")).1 else m.content)

theorem messageTurn_of_nil {m : Message} (h : m.toolCalls = []) (afterLastUser preserveThinking : Bool) :
    ∃ turn, messageTurn m afterLastUser preserveThinking = some turn := by
  by_cases hassistant : isRole "assistant" m = true
  · simp only [messageTurn, hassistant, if_true, assistantTurn, h]
    exact ⟨_, rfl⟩
  · simp only [messageTurn, hassistant]
    exact ⟨_, rfl⟩

theorem messageLoop_of_nil {last : ℕ} {preserveThinking : Bool} {messages : List Message}
    (h : ∀ t ∈ messages, t.toolCalls = []) (i : ℕ) (toolGroupOpen : Bool) :
    ∃ turns, messageLoop last preserveThinking i toolGroupOpen messages = some turns := by
  induction messages generalizing i toolGroupOpen with
  | nil => exact ⟨_, rfl⟩
  | cons m rest ih =>
    obtain ⟨hm, hrest⟩ := List.forall_mem_cons.mp h
    by_cases hsystem : isRole "system" m = true
    · obtain ⟨turns, hturns⟩ := ih hrest (i + 1) toolGroupOpen
      exact ⟨turns, by rw [messageLoop, if_pos hsystem, hturns]⟩
    by_cases htool : isRole "tool" m = true
    · obtain ⟨opened, hopened⟩ := ih hrest (i + 1) true
      obtain ⟨closed, hclosed⟩ := ih hrest (i + 1) false
      rw [messageLoop, if_neg hsystem, if_pos htool, hopened, hclosed]
      split_ifs <;> exact ⟨_, rfl⟩
    · obtain ⟨turn, hturn⟩ := messageTurn_of_nil hm (last < i) preserveThinking
      obtain ⟨turns, hturns⟩ := ih hrest (i + 1) toolGroupOpen
      rw [messageLoop, if_neg hsystem, if_neg htool, hturn, hturns]
      exact ⟨_, rfl⟩

/-- What the turn of an assistant message shows before its calls. -/
def turnText (m : Message) (afterLastUser preserveThinking : Bool) : Bytes :=
  let split := m.reasoningContent = [] ∧ 0 < index m.content (ascii "</think>")
  let reasoning :=
    if split then (splitReasoning m.content true (ascii "auto")).2 else m.reasoningContent
  let thinks :=
    (preserveThinking ∨ afterLastUser) ∧ (preserveThinking ∨ hasNonblankText reasoning)
  (if thinks then ascii "<think>\n" ++ trimmed reasoning ++ ascii "\n</think>\n\n" else []) ++
    turnContent m

theorem assistantTurn_calls (m : Message) (afterLastUser preserveThinking : Bool) (toolCalls : Bytes) :
    assistantTurn { m with toolCalls := toolCalls } afterLastUser preserveThinking =
      (if toolCalls = [] then some []
        else assistantToolCalls toolCalls (turnContent m ≠ [])).map
          (turnText m afterLastUser preserveThinking ++ ·) := by
  rw [assistantTurn]
  by_cases h : toolCalls = []
  · simp only [if_pos h, Option.map_some, List.append_nil]
    rfl
  · simp only [if_neg h]
    rfl

/-- The loop over the messages with one that carries tool calls among others without. -/
theorem messageLoop_middle {last : ℕ} {preserveThinking : Bool} {m : Message}
    (hassistant : isRole "assistant" m = true) {later : List Message}
    (hlater : ∀ t ∈ later, t.toolCalls = []) {earlier : List Message}
    (hearlier : ∀ t ∈ earlier, t.toolCalls = []) (i : ℕ) (toolGroupOpen : Bool) :
    ∃ before after : Bytes, ∀ toolCalls, messageLoop last preserveThinking i toolGroupOpen
        (earlier ++ { m with toolCalls := toolCalls } :: later) =
      (if toolCalls = [] then some []
        else assistantToolCalls toolCalls (turnContent m ≠ [])).map fun calls =>
          before ++ (calls ++ (imEnd ++ newline ++ after)) := by
  induction earlier generalizing i toolGroupOpen with
  | nil =>
    obtain ⟨turns, hturns⟩ : ∃ turns, messageLoop last preserveThinking (i + 1) toolGroupOpen later =
      some turns := messageLoop_of_nil hlater (i + 1) toolGroupOpen
    refine ⟨imStart ++ m.role ++ newline ++ turnText m (last < i) preserveThinking, turns, fun toolCalls => ?_⟩
    have hsystem : isRole "system" { m with toolCalls := toolCalls } = false :=
      isRole_ne (by decide) hassistant
    have htool : isRole "tool" { m with toolCalls := toolCalls } = false :=
      isRole_ne (by decide) hassistant
    have hturn : messageTurn { m with toolCalls := toolCalls } (last < i) preserveThinking =
        ((if toolCalls = [] then some []
          else assistantToolCalls toolCalls (turnContent m ≠ [])).map
            (turnText m (last < i) preserveThinking ++ ·)).map fun body =>
              imStart ++ m.role ++ newline ++ body ++ imEnd ++ newline := by
      have hrole : isRole "assistant" { m with toolCalls := toolCalls } = true := hassistant
      simp only [messageTurn, hrole, if_true, assistantTurn_calls]
    rw [List.nil_append, messageLoop, hsystem, htool, hturn, hturns]
    cases (if toolCalls = [] then some [] else assistantToolCalls toolCalls (turnContent m ≠ [])) with
    | none => rfl
    | some calls =>
      simp only [Bool.false_eq_true, if_false, Option.map_some, List.append_assoc]
  | cons t earlier ih =>
    obtain ⟨ht, hrest⟩ := List.forall_mem_cons.mp hearlier
    have hhead (toolCalls : Bytes) : (earlier ++ { m with toolCalls := toolCalls } :: later).head?.any
        (isRole "tool") = (earlier ++ m :: later).head?.any (isRole "tool") := by
      cases earlier <;> rfl
    -- what a turn appends stands before the rest
    have hput (out : Bytes) (open' : Bool) {r : Bytes → Option Bytes}
        (hr : ∀ toolCalls, r toolCalls = (messageLoop last preserveThinking (i + 1) open'
          (earlier ++ { m with toolCalls := toolCalls } :: later)).map (out ++ ·)) :
        ∃ before after : Bytes, ∀ toolCalls, r toolCalls =
          (if toolCalls = [] then some []
            else assistantToolCalls toolCalls (turnContent m ≠ [])).map fun calls =>
              before ++ (calls ++ (imEnd ++ newline ++ after)) := by
      obtain ⟨before, after, h⟩ := ih hrest (i + 1) open'
      refine ⟨out ++ before, after, fun toolCalls => ?_⟩
      rw [hr, h, Option.map_map]
      congr 1
      funext calls
      simp only [Function.comp_apply, List.append_assoc]
    by_cases hsystem : isRole "system" t = true
    · obtain ⟨before, after, h⟩ := ih hrest (i + 1) toolGroupOpen
      refine ⟨before, after, fun toolCalls => ?_⟩
      rw [List.cons_append, messageLoop, if_pos hsystem, h]
    by_cases htool : isRole "tool" t = true
    · by_cases hgroup : (earlier ++ m :: later).head?.any (isRole "tool") = true
      · refine hput ((if toolGroupOpen then [] else imStart ++ ascii "user") ++
          ascii "\n<tool_response>\n" ++ trimmed t.content ++ ascii "\n</tool_response>")
          true fun toolCalls => ?_
        rw [List.cons_append, messageLoop, if_neg hsystem, if_pos htool, hhead, if_pos hgroup]
      · refine hput ((if toolGroupOpen then [] else imStart ++ ascii "user") ++
          ascii "\n<tool_response>\n" ++ trimmed t.content ++ ascii "\n</tool_response>" ++ imEnd ++
            newline) false fun toolCalls => ?_
        rw [List.cons_append, messageLoop, if_neg hsystem, if_pos htool, hhead, if_neg hgroup]
    · obtain ⟨turn, hturn⟩ := messageTurn_of_nil ht (last < i) preserveThinking
      refine hput turn toolGroupOpen fun toolCalls => ?_
      rw [List.cons_append, messageLoop, if_neg hsystem, if_neg htool, hturn]

/-- What is rendered of the tool calls of a message. -/
def callsText (m : Message) (toolCalls : Bytes) : Option Bytes :=
  if toolCalls = [] then some [] else assistantToolCalls toolCalls (turnContent m ≠ [])

/-- In the prompt the calls of a message stand at the end of its turn. -/
theorem formatChat_middle {m : Message} (hassistant : isRole "assistant" m = true)
    {earlier later : List Message} (hearlier : ∀ t ∈ earlier, t.toolCalls = [])
    (hlater : ∀ t ∈ later, t.toolCalls = []) (enableThinking : Bool)
    (toolsJson reasoningInstruction : Bytes) (preserveThinking addGenerationPrompt : Bool) :
    ∃ before after : Bytes, ∀ toolCalls, formatChat (earlier ++ { m with toolCalls := toolCalls } :: later)
        enableThinking toolsJson reasoningInstruction preserveThinking addGenerationPrompt =
      (callsText m toolCalls).map fun calls =>
        before ++ (calls ++ (imEnd ++ newline ++ after)) := by
  have hsystem (toolCalls : Bytes) : isRole "system" { m with toolCalls := toolCalls } = false :=
    isRole_ne (by decide) hassistant
  have hleading (toolCalls : Bytes) :
      (earlier ++ { m with toolCalls := toolCalls } :: later).takeWhile (isRole "system") =
        earlier.takeWhile (isRole "system") := by
    rw [List.takeWhile_append]
    split_ifs with h
    · rw [List.takeWhile_cons_of_neg (by rw [hsystem]; exact Bool.noConfusion), List.append_nil]
      exact ((List.takeWhile_prefix _).eq_of_length h).symm
    · rfl
  have hlast (toolCalls : Bytes) : lastUserIndex (earlier ++ { m with toolCalls := toolCalls } :: later) =
      lastUserIndex (earlier ++ m :: later) := by
    rw [lastUserIndex, lastUserIndex, List.foldl_append, List.foldl_append, List.foldl_cons,
      List.foldl_cons]
    rfl
  -- the turns before the message that the header does not hold
  have hdrop {k : ℕ} (hk : k ≤ earlier.length) (toolCalls : Bytes) :
      (earlier ++ { m with toolCalls := toolCalls } :: later).drop k =
        earlier.drop k ++ { m with toolCalls := toolCalls } :: later :=
    List.drop_append_of_le_length hk
  have hle : (earlier.takeWhile (isRole "system")).length ≤ earlier.length :=
    (List.takeWhile_prefix _).length_le
  -- the prompt with a header that ends before the message
  have hprompt (header : Bytes) {k : ℕ} (hk : k ≤ earlier.length) :
      ∃ before after : Bytes, ∀ toolCalls,
        ((messageLoop (lastUserIndex (earlier ++ m :: later)) preserveThinking (k + 1) false
          ((earlier ++ { m with toolCalls := toolCalls } :: later).drop k)).map fun turns =>
            header ++ turns ++ if addGenerationPrompt then generationPrompt enableThinking else []) =
          (callsText m toolCalls).map fun calls =>
            before ++ (calls ++ (imEnd ++ newline ++ after)) := by
    have hrest : ∀ t ∈ earlier.drop k, t.toolCalls = [] :=
      fun t ht => hearlier t ((List.drop_suffix k earlier).subset ht)
    obtain ⟨before, after, h⟩ : ∃ before after : Bytes, ∀ toolCalls,
        messageLoop (lastUserIndex (earlier ++ m :: later)) preserveThinking (k + 1) false
          (earlier.drop k ++ { m with toolCalls := toolCalls } :: later) =
        (if toolCalls = [] then some []
          else assistantToolCalls toolCalls (turnContent m ≠ [])).map fun calls =>
            before ++ (calls ++ (imEnd ++ newline ++ after)) :=
      messageLoop_middle hassistant hlater hrest (k + 1) false
    refine ⟨header ++ before,
      after ++ if addGenerationPrompt then generationPrompt enableThinking else [], fun toolCalls => ?_⟩
    rw [hdrop hk, h, Option.map_map, callsText]
    congr 1
    funext calls
    simp only [Function.comp_apply, List.append_assoc]
  -- the header does not depend on the calls
  by_cases hentries : hasToolEntries toolsJson = true
  · obtain ⟨before, after, h⟩ := hprompt
      (toolSystem toolsJson (mergedSystem (earlier.takeWhile (isRole "system")))
        (mergedSystem (earlier.takeWhile (isRole "system")) ≠ []) reasoningInstruction) hle
    refine ⟨before, after, fun toolCalls => ?_⟩
    simp only [formatChat, hleading, hlast, hentries, if_true]
    exact h toolCalls
  by_cases hmerged : mergedSystem (earlier.takeWhile (isRole "system")) ≠ [] ∨ reasoningInstruction ≠ []
  · obtain ⟨before, after, h⟩ := hprompt
      (systemTurn (mergedSystem (earlier.takeWhile (isRole "system"))) reasoningInstruction) hle
    refine ⟨before, after, fun toolCalls => ?_⟩
    simp only [formatChat, hleading, hlast, if_neg hentries, if_pos hmerged]
    exact h toolCalls
  · obtain ⟨before, after, h⟩ := hprompt [] (Nat.zero_le _)
    refine ⟨before, after, fun toolCalls => ?_⟩
    simp only [formatChat, hleading, hlast, if_neg hentries, if_neg hmerged]
    exact h toolCalls

/-! ### Messages in a document -/

/-- The members of a message that only has a text. -/
def textFields (m : Bytes × Bytes) : List (String × Json .value) :=
  [("role", string m.1), ("content", string m.2)]

/-- The message that a reply is, without its tool calls. -/
def Reply.message {R : Type} (r : Reply R) : Message := ⟨ascii "assistant", r.content, r.reasoning, []⟩

/-- The tool calls of a reply, as its message carries them. -/
def Reply.callsJson {R : Type} (r : Reply R) : Bytes :=
  if r.calls = [] then [] else (array (numbered toolObject r.calls)).render

theorem messagesOf_items (l : List (Json .value)) : messagesOf (items l) = l.mapM messageOf := by
  induction l with
  | nil => rfl
  | cons v rest ih =>
    have hcons : messagesOf (items (v :: rest)) = (messageOf v).bind fun message =>
        (messagesOf (items rest)).bind fun tail => some (message :: tail) := rfl
    rw [hcons, ih, List.mapM_cons]
    rfl

theorem messageOf_text (m : Bytes × Bytes) :
    messageOf (object (textFields m)) = some ⟨m.1, m.2, [], []⟩ := by
  have hrole : memberOf (ascii "role") (fields (textFields m)) = some (string m.1) := rfl
  have hcontent : memberOf (ascii "content") (fields (textFields m)) = some (string m.2) := rfl
  have hreasoning : memberOf (ascii "reasoning_content") (fields (textFields m)) = none := rfl
  have hcalls : memberOf (ascii "tool_calls") (fields (textFields m)) = none := rfl
  have hvalue : contentOf (string m.2) = some m.2 := stringOf_string m.2
  simp only [object, messageOf, hrole, hcontent, hreasoning, hcalls, hvalue, stringOf_string,
    Option.isNone_some, Bool.false_eq_true, false_and, if_false, Option.bind_some,
    Option.bind_eq_bind, Option.elim_some, Option.elim_none, Option.pure_def]

theorem messageOf_reply {R : Type} (r : Reply R) :
    messageOf (object (messageFields r)) = some { r.message with toolCalls := r.callsJson } := by
  have hrole : memberOf (ascii "role") (fields (messageFields r)) = some (word "assistant") := rfl
  have hcontent : ∃ v, memberOf (ascii "content") (fields (messageFields r)) = some v ∧
      contentOf v = some r.content := by
    refine ⟨if r.content = [] ∧ r.calls ≠ [] then null else string r.content, rfl, ?_⟩
    split_ifs with h
    · exact congrArg some h.1.symm
    · exact stringOf_string r.content
  have hreasoning : (memberOf (ascii "reasoning_content") (fields (messageFields r))).elim (some [])
      stringOf = some r.reasoning := by
    rw [messageFields]
    by_cases h : r.reasoning = []
    · rw [if_pos h, h]
      split_ifs <;> rfl
    · rw [if_neg h]
      exact stringOf_string r.reasoning
  have hcalls : (memberOf (ascii "tool_calls") (fields (messageFields r))).elim (some []) arrayOf =
      some r.callsJson := by
    rw [messageFields, Reply.callsJson]
    by_cases h : r.calls = [] <;> by_cases h' : r.reasoning = [] <;>
      simp only [h, h', if_true, if_false] <;> rfl
  obtain ⟨v, hv, hvalue⟩ := hcontent
  have hassistant : stringOf (word "assistant") = some (ascii "assistant") := stringOf_string _
  simp only [object, messageOf, hrole, hv, hreasoning, hcalls, hvalue, hassistant,
    Option.isNone_some, Bool.false_eq_true, false_and, if_false, Option.bind_some,
    Option.bind_eq_bind, Option.elim_some, Option.pure_def]
  rfl

/-! ### No name shadows another -/

theorem ownMessages_objects {l : List (List (String × Json .value))}
    (hkeys : ∀ f ∈ l, ∀ k : MessageKey, Unshadowed k.name (fields f))
    (hcontent : ∀ f ∈ l, ∀ v ∈ memberOf (ascii "content") (fields f),
      OwnParts (fun key _ members => Unshadowed key members) v) :
    OwnMessages Own (items (l.map object)) := by
  rw [ownMessages_iff]
  induction l with
  | nil => trivial
  | cons f rest ih =>
    exact ⟨hkeys f List.mem_cons_self, hcontent f List.mem_cons_self,
      ih (fun g hg => hkeys g (List.mem_cons_of_mem f hg))
        fun g hg => hcontent g (List.mem_cons_of_mem f hg)⟩

theorem unshadowed_textFields (m : Bytes × Bytes) (key : Bytes) :
    Unshadowed key (fields (textFields m)) := by
  have hrole : PlainName "role" := plainName_of (by decide)
  have hcontent : PlainName "content" := plainName_of (by decide)
  refine unshadowed_fields ?_ ?_
  · simp only [textFields, List.forall_mem_cons, hrole, hcontent, List.not_mem_nil, false_implies,
      implies_true, and_self]
  · simp only [textFields, List.forall_mem_cons, not_mentions_string, not_false_eq_true,
      List.not_mem_nil, false_implies, implies_true, and_self]

theorem not_mentions_calls (k : MessageKey) (calls : List ToolCall) :
    ¬ Mentions k.name (array (numbered toolObject calls)) := by
  show ¬ Mentions k.name (items (numbered toolObject calls))
  rw [mentions_items]
  rintro ⟨v, hv, hmentions⟩
  obtain ⟨c, -, rfl⟩ := List.mem_map.mp hv
  rw [mentions_toolFields] at hmentions
  revert hmentions
  cases k <;> decide

theorem unshadowed_messageFields {R : Type} (r : Reply R) (k : MessageKey) :
    Unshadowed k.name (fields (messageFields r)) := by
  have hrole : PlainName "role" := plainName_of (by decide)
  have hcontent : PlainName "content" := plainName_of (by decide)
  have hreasoning : PlainName "reasoning_content" := plainName_of (by decide)
  have hcalls : PlainName "tool_calls" := plainName_of (by decide)
  have hword : ¬ Mentions k.name (word "assistant") := not_mentions_string _ _
  have hnull : ¬ Mentions k.name (if r.content = [] ∧ r.calls ≠ [] then null else string r.content) := by
    split_ifs <;> exact id
  have hfields : ∀ f ∈ messageFields r, PlainName f.1 ∧ ¬ Mentions k.name f.2 := by
    intro f hf
    rw [messageFields, List.mem_append, List.mem_append] at hf
    rcases hf with (hf | hf) | hf
    · rcases List.mem_cons.mp hf with rfl | hf
      · exact ⟨hrole, hword⟩
      · rw [List.mem_singleton.mp hf]
        exact ⟨hcontent, hnull⟩
    · split_ifs at hf
      · cases hf
      · rw [List.mem_singleton.mp hf]
        exact ⟨hreasoning, not_mentions_string _ _⟩
    · split_ifs at hf
      · cases hf
      · rw [List.mem_singleton.mp hf]
        exact ⟨hcalls, not_mentions_calls k r.calls⟩
  exact unshadowed_fields (fun f hf => (hfields f hf).1) fun f hf => (hfields f hf).2

/-! ### The next request -/

/-- A request that sends back the message of a reply with tool calls, among messages with texts
(their roles and contents). -/
structure NextRequest (R : Type) where
  earlier : List (Bytes × Bytes)
  reply : Reply R
  calls : List ObjectCall
  later : List (Bytes × Bytes)
  reply_calls : reply.calls = calls.map ObjectCall.call
  length_le : earlier.length + 1 + later.length ≤ maxMessages

namespace NextRequest

variable {R : Type} (c : NextRequest R)

def messageList : List (List (String × Json .value)) :=
  c.earlier.map textFields ++ messageFields c.reply :: c.later.map textFields

def body : Json .value := object [("messages", array (c.messageList.map object))]

/-- Every call stands in the prompt, in order, with a block for every member of its arguments: the
prompt is that of the messages without calls, but for the blocks at the end of a turn. -/
def Returned (enableThinking : Bool) (toolsJson reasoningInstruction : Bytes)
    (preserveThinking addGenerationPrompt : Bool) : Prop :=
  ∃ (messages : List Message) (before after : Bytes),
    parseMessages c.body.render = some messages ∧
    formatChat (messages.map fun m => { m with toolCalls := [] }) enableThinking toolsJson
        reasoningInstruction preserveThinking addGenerationPrompt =
      some (before ++ (imEnd ++ newline ++ after)) ∧
    formatChat messages enableThinking toolsJson reasoningInstruction preserveThinking
        addGenerationPrompt =
      some (before ++ (callBlocks (if turnContent c.reply.message = [] then [] else ascii "\n\n") c.calls ++
        (imEnd ++ newline ++ after)))

/-- The messages that the objects of the request stand for. -/
def messages : List Message :=
  c.earlier.map (fun m => ⟨m.1, m.2, [], []⟩) ++
    { c.reply.message with toolCalls := c.reply.callsJson } ::
      c.later.map fun m => ⟨m.1, m.2, [], []⟩

theorem messagesOf_messageList :
    messagesOf (items (c.messageList.map object)) = some c.messages := by
  have htexts (l : List (Bytes × Bytes)) : ((l.map textFields).map object).mapM messageOf =
      some (l.map fun m => ⟨m.1, m.2, [], []⟩) := by
    induction l with
    | nil => rfl
    | cons m rest ih =>
      rw [List.map_cons, List.map_cons, List.mapM_cons, messageOf_text, ih]
      rfl
  rw [messagesOf_items, messageList, List.map_append, List.map_cons, List.mapM_append, htexts,
    List.mapM_cons, messageOf_reply, htexts]
  rfl

def messageRequest : MessageRequest where
  request := ⟨default, default, fields [("messages", array (c.messageList.map object))], default⟩
  gap := default
  elements := items (c.messageList.map object)
  messages := c.messages
  member := rfl
  own := c.messagesOf_messageList
  ne_nil := List.append_ne_nil_of_right_ne_nil _ (List.cons_ne_nil _ _)
  length_le := by
    have := c.length_le
    rw [messages, List.length_append, List.length_cons, List.length_map, List.length_map]
    omega

theorem text_messageRequest : c.messageRequest.request.text = c.body.render := by
  show [] ++ (c.body.render ++ []) = c.body.render
  rw [List.nil_append, List.append_nil]

theorem own_array : c.messageRequest.request.lookup (ascii "messages") =
    c.messageRequest.request.ownText (ascii "messages") := by
  have hkey : IsName (ascii "messages") := OptionKey.isName .messages
  rw [lookup_eq_search c.messageRequest.request hkey]
  refine (search_eq_topLevel c.messageRequest.request.members rfl
    c.messageRequest.request.behind).mpr ?_
  have hname : PlainName "messages" := plainName_of (by decide)
  show if (escapeText (ascii "messages")).decode = ascii "messages" then
      quoted (ascii "messages") <:+ (escapeText (ascii "messages")).render else _
  rw [decode_escapeText, if_pos rfl, render_name hname]

theorem own_members : OwnMessages Own (items (c.messageList.map object)) := by
  -- no content is an array
  have htext (m : Bytes × Bytes) {v : Json .value}
      (hm : v ∈ memberOf (ascii "content") (fields (textFields m))) :
      OwnParts (fun key _ members => Unshadowed key members) v := by
    rw [← Option.some.inj (hm : some (string m.2) = some v)]
    trivial
  refine ownMessages_objects ?_ ?_
  · intro f hf k
    rcases List.mem_append.mp hf with hf | hf
    · obtain ⟨m, -, rfl⟩ := List.mem_map.mp hf
      exact unshadowed_textFields m k.name
    · rcases List.mem_cons.mp hf with rfl | hf
      · exact unshadowed_messageFields c.reply k
      · obtain ⟨m, -, rfl⟩ := List.mem_map.mp hf
        exact unshadowed_textFields m k.name
  · intro f hf v hv
    rcases List.mem_append.mp hf with hf | hf
    · obtain ⟨m, -, rfl⟩ := List.mem_map.mp hf
      exact htext m hv
    · rcases List.mem_cons.mp hf with rfl | hf
      · rw [← Option.some.inj (hv : some (if c.reply.content = [] ∧ c.reply.calls ≠ [] then null
          else string c.reply.content) = some v)]
        split_ifs <;> trivial
      · obtain ⟨m, -, rfl⟩ := List.mem_map.mp hf
        exact htext m hv

/-- The other messages, as they are read. -/
def textMessages (l : List (Bytes × Bytes)) : List Message :=
  l.map fun m => systemRole ⟨m.1, m.2, [], []⟩

theorem systemRole_reply (r : Reply R) :
    systemRole { r.message with toolCalls := r.callsJson } =
      { r.message with toolCalls := r.callsJson } :=
  if_neg (by show ¬ same (ascii "assistant") (ascii "developer") = true; decide)

/-- The messages of the request as the server reads them. -/
theorem parseMessages_body :
    parseMessages c.body.render = some (textMessages c.earlier ++
      { c.reply.message with toolCalls := c.reply.callsJson } :: textMessages c.later) := by
  have hread := parseMessageArray_own c.messageRequest c.own_array c.own_members
  rw [Request.lookup, text_messageRequest] at hread
  have hmessages : c.messageRequest.messages = c.messages := rfl
  rw [parseMessages, hread, Option.map_some, hmessages, messages, List.map_append, List.map_cons,
    systemRole_reply, List.map_map, List.map_map]
  rfl

theorem textMessages_toolCalls (l : List (Bytes × Bytes)) : ∀ m ∈ textMessages l, m.toolCalls = [] := by
  intro m hm
  obtain ⟨t, -, rfl⟩ := List.mem_map.mp hm
  rw [systemRole]
  split_ifs <;> rfl

theorem textMessages_clear (l : List (Bytes × Bytes)) :
    (textMessages l).map (fun m => ({ m with toolCalls := [] } : Message)) = textMessages l := by
  refine (List.map_congr_left fun m hm => ?_).trans (List.map_id _)
  have hnil := textMessages_toolCalls l m hm
  cases m
  exact congrArg (Message.mk _ _ _) hnil.symm

theorem callsText_reply :
    callsText c.reply.message c.reply.callsJson =
      some (nameBlocks (if turnContent c.reply.message = [] then [] else ascii "\n\n")
        (c.calls.map ObjectCall.call)) := by
  rw [callsText, Reply.callsJson, c.reply_calls]
  by_cases hcalls : c.calls.map ObjectCall.call = []
  · rw [if_pos hcalls, if_pos rfl, hcalls]
    rfl
  · have hne : (array (numbered toolObject (c.calls.map ObjectCall.call))).render ≠ [] :=
      List.cons_ne_nil _ _
    rw [if_neg hcalls, if_neg hne, assistantToolCalls_reply]
    have hseparator : (if decide (turnContent c.reply.message ≠ []) = true then ascii "\n\n" else []) =
        if turnContent c.reply.message = [] then [] else ascii "\n\n" := by
      by_cases hcontent : turnContent c.reply.message = []
      · rw [if_pos hcontent, if_neg (by rw [decide_eq_true_eq]; exact not_not_intro hcontent)]
      · rw [if_neg hcontent, if_pos (decide_eq_true hcontent)]
    rw [hseparator]

/-- The prompt with the calls, and the prompt without. -/
theorem formatChat_body (enableThinking : Bool) (toolsJson reasoningInstruction : Bytes)
    (preserveThinking addGenerationPrompt : Bool) :
    ∃ (messages : List Message) (before after : Bytes),
      parseMessages c.body.render = some messages ∧
      formatChat (messages.map fun m => { m with toolCalls := [] }) enableThinking toolsJson
          reasoningInstruction preserveThinking addGenerationPrompt =
        some (before ++ (imEnd ++ newline ++ after)) ∧
      formatChat messages enableThinking toolsJson reasoningInstruction preserveThinking
          addGenerationPrompt =
        some (before ++ (nameBlocks (if turnContent c.reply.message = [] then [] else ascii "\n\n")
          (c.calls.map ObjectCall.call) ++ (imEnd ++ newline ++ after))) := by
  have hassistant : isRole "assistant" c.reply.message = true := by
    show same (ascii "assistant") (ascii "assistant") = true
    decide
  obtain ⟨before, after, hprompt⟩ := formatChat_middle hassistant
    (textMessages_toolCalls c.earlier) (textMessages_toolCalls c.later) enableThinking toolsJson
    reasoningInstruction preserveThinking addGenerationPrompt
  have hfull := hprompt c.reply.callsJson
  have hcut := hprompt []
  rw [callsText_reply, Option.map_some] at hfull
  rw [callsText, if_pos rfl, Option.map_some, List.nil_append] at hcut
  refine ⟨_, before, after, c.parseMessages_body, ?_, hfull⟩
  rw [List.map_append, List.map_cons, textMessages_clear, textMessages_clear]
  exact hcut

theorem calls_of_returned {enableThinking : Bool} {toolsJson reasoningInstruction : Bytes}
    {preserveThinking addGenerationPrompt : Bool} (h : c.Returned enableThinking toolsJson
      reasoningInstruction preserveThinking addGenerationPrompt) :
    ∀ call ∈ c.calls, call.name ≠ [] ∧ call.members.memberList = [] := by
  obtain ⟨messages, before, after, hmessages, hcut, hfull⟩ := c.formatChat_body enableThinking
    toolsJson reasoningInstruction preserveThinking addGenerationPrompt
  obtain ⟨messages', before', after', hmessages', hcut', hfull'⟩ := h
  rw [hmessages] at hmessages'
  rw [← Option.some.inj hmessages'] at hcut' hfull'
  rw [hcut] at hcut'
  rw [hfull] at hfull'
  -- the two prompts grow by the same number of bytes
  have hcutLength := congrArg List.length (Option.some.inj hcut')
  have hfullLength := congrArg List.length (Option.some.inj hfull')
  simp only [List.length_append] at hcutLength hfullLength
  refine (nameBlocks_length c.calls
    (if turnContent c.reply.message = [] then [] else ascii "\n\n")).2.mp ?_
  omega

/-- The calls are rendered with their parameters exactly when every call has a name and none of them
has a parameter. -/
theorem returned_iff (enableThinking : Bool) (toolsJson reasoningInstruction : Bytes)
    (preserveThinking addGenerationPrompt : Bool) :
    c.Returned enableThinking toolsJson reasoningInstruction preserveThinking addGenerationPrompt ↔
      ∀ call ∈ c.calls, call.name ≠ [] ∧ call.members.memberList = [] := by
  refine ⟨c.calls_of_returned, fun h => ?_⟩
  obtain ⟨messages, before, after, hmessages, hcut, hfull⟩ := c.formatChat_body enableThinking
    toolsJson reasoningInstruction preserveThinking addGenerationPrompt
  rw [callBlocks_eq c.calls _ h] at hfull
  exact ⟨messages, before, after, hmessages, hcut, hfull⟩

end NextRequest

/-! ### A call with a parameter -/

/-- The measurements of a service that has measured nothing: the only number is zero. -/
def unmeasured : Real64 Unit where
  zero := ()
  max _ _ := ()
  positive _ := false
  rate _ _ := ()
  fixed _ := ⟨false, [], ⟨[48, 48, 48], List.cons_ne_nil _ _, by decide⟩, by decide, by decide⟩

/-- The call of `f` with the arguments `{"a":1}`. -/
def numberCall : ObjectCall :=
  ⟨ascii "f", default, default, fields [("a", number 1)], default⟩

def numberRequest : NextRequest Unit where
  earlier := [(ascii "user", ascii "q")]
  reply :=
    { model := ascii "m", content := [], reasoning := [], promptTokens := 1, tokens := 1
      calls := [numberCall.call], real := unmeasured, measured := ⟨(), (), 0, 0, 0, 0⟩ }
  calls := [numberCall]
  later := [(ascii "tool", ascii "r")]
  reply_calls := rfl
  length_le := by decide

/-- The parameter is missing from the prompt. -/
theorem not_returned_numberRequest :
    ¬ ∀ (c : NextRequest Unit) (enableThinking : Bool) (toolsJson reasoningInstruction : Bytes)
      (preserveThinking addGenerationPrompt : Bool),
      c.Returned enableThinking toolsJson reasoningInstruction preserveThinking
        addGenerationPrompt := by
  intro h
  have hcalls := numberRequest.calls_of_returned (h numberRequest true [] [] false true)
  exact List.cons_ne_nil _ _ (hcalls numberCall List.mem_cons_self).2

end Chat

end FortAI
