import FortAI.Chat.Writer
import FortAI.Chat.Template
import FortAI.Chat.Reading

/-!
# Tool calls in a generated text

`parseToolCalls` is `parse_tool_calls`: the calls that the model wrote into its text, and what is
shown of the text.  A call starts at the first `<tool_call>` or `<function=` and reaches up to a
closing tag; what stands between is read by `parseToolSegment`.
-/

namespace FortAI

namespace Chat

open CString

/-- `tool_call_t`, as far as `parse_tool_calls` fills it. -/
structure ToolCall where
  name : Bytes
  arguments : Bytes
  deriving DecidableEq

/-! ### Parameters -/

/-- `numeric_literal`: bytes of a number with a digit among them, in any order. -/
def numericLiteral (text : Bytes) : Bool := text.all isNumeric && text.any isDigit

/-- `raw_json` of `append_json_argument_value`: whether the value is written as it stands. -/
def isRawJson (value : Bytes) : Bool :=
  let text := value.dropWhile isMargin
  let shown := trimmed value
  if text.head? = some 123 ∨ text.head? = some 91 then
    matchingDelimiter text (text.headD 0) (if text.head? = some 91 then 93 else 125) =
      some shown.length
  else if shown = ascii "true" ∨ shown = ascii "false" ∨ shown = ascii "null" then true
  else numericLiteral shown

/-- What `append_json_argument_value` appends. -/
def argumentValue (value : Bytes) : Bytes :=
  if trimmed value = [] then [34, 34]
  else if isRawJson value then trimmed value
  else jsonEscape (trimmed value)

/-- What `append_json_parameter` appends behind the bracket or the comma. -/
def jsonParameter (parameter : Bytes × Bytes) : Bytes :=
  jsonEscape parameter.1 ++ 58 :: argumentValue parameter.2

def parameterOpening : Bytes := ascii "<parameter="
def parameterClosing : Bytes := ascii "</parameter>"

/-- What the loop of `parse_xml_parameters` finds: the names and the values. -/
def parameters (text : Bytes) : List (Bytes × Bytes) :=
  match _h : find parameterOpening text with
  | none => []
  | some i =>
    let rest := text.drop (i + parameterOpening.length)
    match find [62] rest with
    | none | some 0 => []
    | some n =>
      let body := rest.drop (n + 1)
      match find parameterClosing body with
      | none => []
      | some k =>
        (rest.take n, body.take k) :: parameters (body.drop (k + parameterClosing.length))
termination_by text.length
decreasing_by
  have hfit : i + parameterOpening.length ≤ text.length :=
    find_add_length_le (by decide) _h
  have hpos : 0 < parameterOpening.length := by decide
  simp only [List.length_drop]
  omega

/-- The arguments made of parameters. -/
def argumentsText : List (Bytes × Bytes) → Bytes
  | [] => ascii "\x7b\x7d"
  | p :: rest => 123 :: (jsonParameter p ++ (rest.flatMap (44 :: jsonParameter ·) ++ [125]))

/-- `parse_xml_parameters` -/
def xmlParameters (text : Bytes) : Bytes := argumentsText (parameters text)

/-! ### Calls -/

def toolOpening : Bytes := ascii "<tool_call>"
def functionOpening : Bytes := ascii "<function="
def toolClosing : Bytes := ascii "</tool_call>"
def functionClosing : Bytes := ascii "</function>"

/-- `parse_tool_segment`; `none` when it is not `okay`. -/
def parseToolSegment (segment : Bytes) : Option ToolCall :=
  match find functionOpening segment with
  | some i =>
    let rest := segment.drop (i + functionOpening.length)
    match find [62] rest with
    | none | some 0 => none
    | some n => some ⟨rest.take n, xmlParameters (rest.drop (n + 1))⟩
  | none =>
    let raw := trimmed segment
    if raw.head? ≠ some 123 then none
    else
      let name := jsonStringValue raw (ascii "name") []
      if name = [] then none
      else
        match jsonKey (ascii "arguments") raw raw.length with
        | none => some ⟨name, ascii "\x7b\x7d"⟩
        | some value => (jsonRawValue value).map fun r => ⟨name, r.1⟩

/-- What a turn of the loop of `parse_tool_calls` cuts out of the text. -/
structure Cut where
  before : Bytes
  segment : Bytes
  functionStyle : Bool
  rest : Bytes

/-- Where the next call starts, and whether it has no `<tool_call>`. -/
def nextOpening (s : Bytes) : Option (ℕ × Bool) :=
  match find toolOpening s, find functionOpening s with
  | none, none => none
  | none, some f => some (f, true)
  | some t, none => some (t, false)
  | some t, some f => if f < t then some (f, true) else some (t, false)

/-- The next call; `none` where the loop of `parse_tool_calls` exits. -/
def nextCut (s : Bytes) : Option Cut :=
  match nextOpening s with
  | none => none
  | some (start, functionStyle) =>
    let body := s.drop (start + if functionStyle then 0 else toolOpening.length)
    match find toolClosing body with
    | some n => some ⟨s.take start, body.take n, functionStyle, body.drop (n + toolClosing.length)⟩
    | none =>
      if functionStyle then
        (find functionClosing body).map fun n =>
          ⟨s.take start, body.take n, functionStyle, body.drop (n + functionClosing.length)⟩
      else none

theorem nextCut_length {s : Bytes} {cut : Cut} (h : nextCut s = some cut) :
    cut.rest.length < s.length := by
  rw [nextCut] at h
  split at h
  · exact nomatch h
  rename_i start functionStyle _
  simp only at h
  have hshort {needle : Bytes} {n k : ℕ} (hne : needle ≠ [])
      (hn : find needle (s.drop k) = some n) :
      ((s.drop k).drop (n + needle.length)).length < s.length := by
    have hfit := find_add_length_le hne hn
    have hpos := List.length_pos_iff.mpr hne
    simp only [List.length_drop] at hfit ⊢
    omega
  split at h
  · rename_i n hn
    rw [← Option.some.inj h]
    exact hshort (by decide) hn
  · split_ifs at h
    obtain ⟨n, hn, hcut⟩ := Option.map_eq_some_iff.mp h
    rw [← hcut]
    exact hshort (by decide) hn

/-- The loop of `parse_tool_calls`; `skipped` is what stands between `copied` and `scan`. -/
def toolCallScan (skipped s : Bytes) : Bytes × List ToolCall :=
  match _h : nextCut s with
  | none => (skipped ++ s, [])
  | some cut =>
    match parseToolSegment cut.segment with
    | some call =>
      let rest :=
        if cut.functionStyle ∧ toolClosing <+: cut.rest then cut.rest.drop toolClosing.length
        else cut.rest
      let result := toolCallScan [] rest
      (skipped ++ cut.before ++ result.1, call :: result.2)
    | none => toolCallScan (skipped ++ s.take (s.length - cut.rest.length)) cut.rest
termination_by s.length
decreasing_by
  · have hlt := nextCut_length _h
    have hle : (if cut.functionStyle ∧ toolClosing <+: cut.rest then
        cut.rest.drop toolClosing.length else cut.rest).length ≤ cut.rest.length := by
      split_ifs
      · exact (List.drop_suffix _ _).length_le
      · exact Nat.le_refl _
    exact Nat.lt_of_le_of_lt hle hlt
  · exact nextCut_length _h

/-- `parse_tool_calls`: the visible text and the calls. -/
def parseToolCalls (raw : Bytes) : Bytes × List ToolCall :=
  let result := toolCallScan [] raw
  if result.2 = [] then (raw, []) else (trimmed result.1, result.2)

/-! ### Turns of the loop -/

/-- What is left behind a text that is read as a call. -/
def Cut.behind (cut : Cut) : Bytes :=
  if (parseToolSegment cut.segment).isSome ∧ cut.functionStyle ∧ toolClosing <+: cut.rest then
    cut.rest.drop toolClosing.length
  else cut.rest

theorem Cut.behind_length {s : Bytes} {cut : Cut} (h : nextCut s = some cut) :
    cut.behind.length < s.length := by
  refine Nat.lt_of_le_of_lt ?_ (nextCut_length h)
  rw [behind]
  split_ifs
  · exact (List.drop_suffix _ _).length_le
  · exact Nat.le_refl _

theorem toolCallScan_none {s : Bytes} (h : nextCut s = none) (skipped : Bytes) :
    toolCallScan skipped s = (skipped ++ s, []) := by
  rw [toolCallScan]
  split
  · rfl
  · rename_i heq
    rw [h] at heq
    exact nomatch heq

theorem toolCallScan_call {s : Bytes} {cut : Cut} {call : ToolCall} (h : nextCut s = some cut)
    (hcall : parseToolSegment cut.segment = some call) (skipped : Bytes) :
    toolCallScan skipped s = (skipped ++ cut.before ++ (toolCallScan [] cut.behind).1,
      call :: (toolCallScan [] cut.behind).2) := by
  have hbehind : cut.behind = if cut.functionStyle ∧ toolClosing <+: cut.rest then
      cut.rest.drop toolClosing.length else cut.rest := by
    rw [Cut.behind, hcall]
    simp only [Option.isSome_some, true_and]
  rw [toolCallScan]
  split
  · rename_i heq
    rw [h] at heq
    exact nomatch heq
  · rename_i heq
    rw [h, Option.some.injEq] at heq
    subst heq
    simp only [hcall, hbehind]

theorem toolCallScan_text {s : Bytes} {cut : Cut} (h : nextCut s = some cut)
    (hcall : parseToolSegment cut.segment = none) (skipped : Bytes) :
    toolCallScan skipped s =
      toolCallScan (skipped ++ s.take (s.length - cut.rest.length)) cut.behind := by
  have hbehind : cut.behind = cut.rest := by
    rw [Cut.behind, hcall]
    exact if_neg fun h => Bool.noConfusion h.1
  rw [toolCallScan, hbehind]
  split
  · rename_i heq
    rw [h] at heq
    exact nomatch heq
  · rename_i heq
    rw [h, Option.some.injEq] at heq
    subst heq
    simp only [hcall]

end Chat

end FortAI
