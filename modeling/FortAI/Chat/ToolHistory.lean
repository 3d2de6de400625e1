import FortAI.Chat.Reader
import FortAI.Machine.Loop

/-!
# The tool calls of an earlier turn

What `append_assistant_tool_calls` writes into the prompt for the `tool_calls` of an assistant
message.  Behind a string value `append_json_parameters` goes on at the position where the string
ends in the text of the value, not in the text of the object; it can come back to a position where
it has been, and then never returns.

* `jsonParameters` : the blocks of one call; `none` when the loop does not end.
-/

namespace FortAI

namespace Chat

open CString

/-- The position of a rest of the text, counted from 0. -/
def offset (text rest : Bytes) : ℕ := text.length - rest.length

/-- The end of a turn of the loops over members: the position behind the comma. -/
def behindComma (text : Bytes) (limit after : ℕ) : Option ℕ :=
  let rest := skipSpace (text.drop after)
  if limit ≤ offset text rest then none
  else if rest.head? = some 44 then some (offset text rest + 1)
  else none

/-- A turn of the loop of `append_json_parameters` at a position: what it appends, and the position
of the next turn. -/
def parameterTurn (text : Bytes) (limit : ℕ) (position : ℕ) : Bytes × Option ℕ :=
  let rest := skipSpace (text.drop position)
  if limit ≤ offset text rest ∨ rest.head? ≠ some 34 then ([], none)
  else
    match jsonString rest with
    | none => ([], none)
    | some (key, after) =>
      let colon := skipSpace after
      if limit < offset text colon ∨ colon.head? ≠ some 58 then ([], none)
      else
        match jsonRawValue (skipSpace colon.tail) with
        | none => ([], none)
        | some (raw, after) =>
          let opening := ascii "<parameter=" ++ key ++ ascii ">\n"
          let closing := ascii "\n</parameter>\n"
          if raw.head? = some 34 then
            match jsonString raw with
            | none => (opening, none)
            -- `after` now counts in the text of the value
            | some (value, after) =>
              (opening ++ value ++ closing, behindComma text limit (offset raw after))
          else (opening ++ raw ++ closing, behindComma text limit (offset text after))

/-- `append_json_parameters`; `none` when it never returns.  The position decides what a turn does,
so a loop that takes more turns than there are positions comes back to one of them. -/
def jsonParameters (arguments : Bytes) : Option Bytes :=
  if arguments.length < 2 ∨ arguments.head? ≠ some 123 then some []
  else
    match matchingDelimiter arguments 123 125 with
    | none => some []
    | some n => Loop.emit (parameterTurn arguments (n - 1)) (arguments.length + 1) 1

/-- The name and the arguments of a call; `none` when the loop of `append_assistant_tool_calls`
gives up. -/
def callOf (objectText : Bytes) : Option (Bytes × Bytes) := do
  let functionText ←
    match jsonKey (ascii "function") objectText objectText.length with
    | none => some objectText
    | some value =>
      if value.head? = some 123 then (matchingDelimiter value 123 125).map value.take else none
  let _ ← jsonKey (ascii "name") functionText functionText.length
  let name := jsonStringValue functionText (ascii "name") []
  if name = [] then none
  else
    match jsonKey (ascii "arguments") functionText functionText.length with
    | none => some (name, [])
    | some value => (jsonRawValue value).map fun r => (name, r.1)

/-- The block of a call. -/
def callBlock (name parameters : Bytes) : Bytes :=
  ascii "<tool_call>\n<function=" ++ name ++ ascii ">\n" ++ parameters ++
    ascii "</function>\n</tool_call>"

/-- The loop of `append_assistant_tool_calls`; `limit` is what is left of the text from the closing
bracket on, `separator` what stands before the next call. -/
def toolCallLoop (limit : ℕ) (separator s : Bytes) : Option Bytes :=
  let call := skipSpace s
  if call.length ≤ limit ∨ call.head? ≠ some 123 then some []
  else
    match matchingDelimiter call 123 125 with
    | none => some []
    | some n =>
      if call.length - n + 1 < limit then some []
      else
        match callOf (call.take n) with
        | none => some []
        | some (name, arguments) =>
          match jsonParameters arguments with
          | none => none
          | some parameters =>
            let block := separator ++ callBlock name parameters
            let rest := skipSpace (call.drop n)
            if _h : limit < rest.length ∧ rest.head? = some 44 then
              (toolCallLoop limit (ascii "\n") rest.tail).map (block ++ ·)
            else some block
termination_by s.length
decreasing_by
  have hskip := skipSpace_length s
  have hdrop := skipSpace_length ((skipSpace s).drop n)
  rw [List.length_drop] at hdrop
  have hrest : rest.length ≤ (skipSpace s).length - n := hdrop
  have hpos : 0 < rest.length :=
    List.length_pos_iff.mpr (List.ne_nil_of_mem (List.mem_of_mem_head? _h.2))
  rw [List.length_tail]
  omega

/-- `append_assistant_tool_calls`; `none` when it never returns. -/
def assistantToolCalls (rawCalls : Bytes) (hasContent : Bool) : Option Bytes :=
  if rawCalls.length < 2 ∨ rawCalls.head? ≠ some 91 then some []
  else
    match matchingDelimiter rawCalls 91 93 with
    | none => some []
    | some n =>
      toolCallLoop (rawCalls.length - n + 1) (if hasContent then ascii "\n\n" else [])
        rawCalls.tail

end Chat

end FortAI
