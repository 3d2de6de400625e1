import FortAI.Chat.Document
import FortAI.Machine.Storage
import FortAI.Settings.TopLevel

/-!
# How a request decides about thinking

The handler of completions resolves three options, each through a chain of sources: the body, its
`chat_template_kwargs`, and the settings of the server.  The settings are defaults, but the chains for
`enable_thinking` and `reasoning_effort` read the environment behind the top level of the body.

* `resolve_eq` : what a request resolves, from what its body says.
* `wins_iff` : the options that a request states do not depend on the settings exactly when they are
  stated where nothing of the environment is read behind them.
-/

namespace FortAI

namespace Settings

open CString Character Storage Chat Http

/-! ### Checked lookups -/

/-- The value of a checked lookup, and its `valid` and `found`. -/
structure Lookup (α : Type) where
  value : α
  valid : Bool
  found : Bool

/-- An answer that is no completion. -/
structure Refusal where
  status : ℕ
  message : String

/-- Nothing is behind a value, or it ends there. -/
def endsHere (s : Bytes) : Bool :=
  match skipSpace s with
  | [] => true
  | b :: _ => b = 44 ∨ b = 125 ∨ b = 93

/-- `json_boolean_checked` -/
def jsonBooleanChecked (text key : Bytes) (fallback : Bool) : Lookup Bool :=
  match jsonTopLevelKey text key with
  | none => ⟨fallback, true, false⟩
  | some position =>
    let s := skipSpace position
    if s.take 4 = ascii "true" ∧ endsHere (s.drop 4) = true then ⟨true, true, true⟩
    else if s.take 5 = ascii "false" ∧ endsHere (s.drop 5) = true then ⟨false, true, true⟩
    else ⟨fallback, false, true⟩

/-- `json_string_checked` -/
def jsonStringChecked (text key fallback : Bytes) : Lookup Bytes :=
  match jsonTopLevelKey text key with
  | none => ⟨fallback, true, false⟩
  | some position =>
    match jsonString position with
    | none => ⟨fallback, false, true⟩
    | some parsed => ⟨parsed.1, true, true⟩

/-- A lookup in the object that a member holds. -/
def inObject {α : Type} (text objectKey : Bytes) (fallback : α) (lookup : Bytes → Lookup α) : Lookup α :=
  match jsonTopLevelKey text objectKey with
  | none => ⟨fallback, true, false⟩
  | some value =>
    if value.head? ≠ some 123 then ⟨fallback, false, false⟩
    else
      match matchingDelimiter value 123 125 with
      | none => ⟨fallback, false, false⟩
      | some length => lookup (value.take length)

/-- `json_object_boolean_checked` -/
def jsonObjectBooleanChecked (text objectKey key : Bytes) (fallback : Bool) : Lookup Bool :=
  inObject text objectKey fallback fun object => jsonBooleanChecked object key fallback

/-- `json_object_string_checked` -/
def jsonObjectStringChecked (text objectKey key fallback : Bytes) : Lookup Bytes :=
  inObject text objectKey fallback fun object => jsonStringChecked object key fallback

/-- The handler gives up on a value that is not valid. -/
def Lookup.check {α : Type} (x : Lookup α) (refusal : Refusal) : Except Refusal (α × Bool) :=
  if x.valid then .ok (x.value, x.found) else .error refusal

/-! ### The handler -/

/-- The efforts that `normalize_reasoning_effort` returns. -/
inductive Effort
  | unset | off | low | medium | xhigh
  deriving DecidableEq

/-- `normalize_reasoning_effort`; `none` when the value is not valid. -/
def normalizeReasoningEffort (value : Bytes) : Option Effort :=
  if same value [] then some .unset
  else if same value (ascii "default") then some .unset
  else if [ascii "none", ascii "off"].any (same value) then some .off
  else if [ascii "minimal", ascii "low"].any (same value) then some .low
  else if same value (ascii "medium") then some .medium
  else if [ascii "high", ascii "xhigh", ascii "max"].any (same value) then some .xhigh
  else none

inductive ReasoningFormat
  | auto | none | deepseekLegacy
  deriving DecidableEq

/-- The `select case` over `reasoning_format`. -/
def reasoningFormat (value : Bytes) : Option ReasoningFormat :=
  if [[], ascii "auto", ascii "deepseek"].any (same value) then some .auto
  else if same value (ascii "none") then some .none
  else if same value (ascii "deepseek-legacy") then some .deepseekLegacy
  else none

/-- `server_chat_template_kwargs` -/
def serverChatTemplateKwargs (getenv : Environment) : Bytes :=
  let read := fun (name : String) (value : Bytes) => if value = [] then (getenv name).getD [] else value
  let value := read "LLAMACPP_CHAT_TEMPLATE_KWARGS" (read "LLAMA_ARG_CHAT_TEMPLATE_KWARGS"
    (read "FORTAI_CHAT_TEMPLATE_KWARGS" []))
  if value = [] ∨ 4096 < value.length then ascii "\x7b\x7d" else value

/-- `apply_reasoning_environment`, on `enable_thinking` and `explicit`. -/
def applyReasoningEnvironment (getenv : Environment) (thinking : Bool × Bool) : Bool × Bool :=
  if thinking.2 then thinking
  else
    let value := serverTextDefault getenv "FORTAI_REASONING" (ascii "auto")
    if [ascii "on", ascii "true", ascii "1"].any (same value) then (true, true)
    else if [ascii "off", ascii "false", ascii "0"].any (same value) then (false, true)
    else thinking

/-- What the effort does to `enable_thinking`. -/
def effortThinking (effort : Effort) (thinking : Bool × Bool) : Bool :=
  match effort with
  | .off => false
  | .low | .medium | .xhigh => if thinking.2 then thinking.1 else true
  | .unset => thinking.1

/-- What the service says about the model that is loaded. -/
structure ModelSupport where
  /-- `fortai_native_service_default_thinking()` -/
  defaultThinking : Bool
  /-- `fortai_native_service_supports_preserve_thinking()` -/
  supportsPreserveThinking : Bool

/-- What the handler resolves. -/
structure Resolved where
  enableThinking : Bool
  reasoningEffort : Effort
  reasoningFormat : ReasoningFormat
  preserveThinking : Bool
  deriving DecidableEq

def effortRefusal : Refusal :=
  ⟨400, "reasoning_effort must be one of default, minimal, low, medium, high, xhigh, or max"⟩

def formatRefusal : Refusal :=
  ⟨400, "reasoning_format must be one of none, auto, deepseek, or deepseek-legacy"⟩

/-- `fortai_native_http_handle`, from the lookup of `enable_thinking` to that of `preserve_thinking`. -/
def resolve (service : ModelSupport) (getenv : Environment) (body : Bytes) : Except Refusal Resolved := do
  let kwargs := serverChatTemplateKwargs getenv
  let top ← (jsonBooleanChecked body (ascii "enable_thinking") service.defaultThinking).check
    ⟨400, "enable_thinking must be a boolean"⟩
  let server ← (jsonBooleanChecked kwargs (ascii "enable_thinking") top.1).check
    ⟨500, "FORTAI_CHAT_TEMPLATE_KWARGS must contain a valid JSON object"⟩
  let nested ← (jsonObjectBooleanChecked body (ascii "chat_template_kwargs") (ascii "enable_thinking") server.1).check
    ⟨400, "chat_template_kwargs.enable_thinking must be a boolean"⟩
  let thinking := applyReasoningEnvironment getenv (nested.1, top.2 || server.2 || nested.2)
  let top ← (jsonStringChecked body (ascii "reasoning_effort")
    (serverTextDefault getenv "FORTAI_REASONING_EFFORT" [])).check ⟨400, "reasoning_effort must be a string"⟩
  let server ← (jsonStringChecked kwargs (ascii "reasoning_effort") top.1).check
    ⟨500, "FORTAI_CHAT_TEMPLATE_KWARGS.reasoning_effort must be a string"⟩
  let nested ← (jsonObjectStringChecked body (ascii "chat_template_kwargs") (ascii "reasoning_effort") server.1).check
    ⟨400, "chat_template_kwargs.reasoning_effort must be a string"⟩
  let response ← (jsonObjectStringChecked body (ascii "reasoning") (ascii "effort") nested.1).check
    ⟨400, "reasoning.effort must be a string"⟩
  match normalizeReasoningEffort response.1 with
  | none => .error effortRefusal
  | some effort =>
    let format ← (jsonStringChecked body (ascii "reasoning_format")
      (serverTextDefault getenv "FORTAI_REASONING_FORMAT" (ascii "auto"))).check
      ⟨400, "reasoning_format must be a string"⟩
    match reasoningFormat format.1 with
    | none => .error formatRefusal
    | some format =>
      let server ← (jsonBooleanChecked kwargs (ascii "preserve_thinking")
        (serverBooleanDefault getenv "FORTAI_REASONING_PRESERVE" service.supportsPreserveThinking)).check
        ⟨500, "FORTAI_CHAT_TEMPLATE_KWARGS.preserve_thinking must be a boolean"⟩
      let top ← (jsonBooleanChecked body (ascii "preserve_thinking") server.1).check
        ⟨400, "preserve_thinking must be a boolean"⟩
      let nested ← (jsonObjectBooleanChecked body (ascii "chat_template_kwargs") (ascii "preserve_thinking") top.1).check
        ⟨400, "chat_template_kwargs.preserve_thinking must be a boolean"⟩
      .ok ⟨effortThinking effort thinking, effort, format, nested.1⟩

/-! ### What the body says -/

/-- What a text says about an option. -/
inductive Given (α : Type)
  | missing
  | malformed
  | given (a : α)

namespace Given

variable {α : Type}

/-- The value that is given. -/
def toOption : Given α → Option α
  | given a => some a
  | _ => none

/-- A value that is read behind another source. -/
def read (g : Given α) (fallback : α) (refusal : Refusal) : Except Refusal (α × Bool) :=
  match g with
  | missing => .ok (fallback, false)
  | malformed => .error refusal
  | given a => .ok (a, true)

theorem read_eq {g : Given α} (h : g ≠ malformed) (fallback : α) (refusal : Refusal) :
    g.read fallback refusal = .ok (g.toOption.getD fallback, g.toOption.isSome) := by
  cases g with
  | malformed => exact absurd rfl h
  | missing | given => rfl

theorem ne_malformed_of_read {g : Given α} {fallback : α} {refusal : Refusal} {r : α × Bool}
    (h : g.read fallback refusal = .ok r) : g ≠ malformed := by
  rintro rfl
  cases h

end Given

/-- What a lookup says. -/
def Lookup.given {α : Type} (x : Lookup α) : Given α :=
  if x.valid then if x.found then .given x.value else .missing else .malformed

section

variable {text key : Bytes}

/-- What a lookup says is the same for every fallback. -/
theorem jsonBooleanChecked_check (fallback : Bool) (refusal : Refusal) :
    (jsonBooleanChecked text key fallback).check refusal =
      (jsonBooleanChecked text key false).given.read fallback refusal := by
  rw [jsonBooleanChecked, jsonBooleanChecked]
  cases jsonTopLevelKey text key with
  | none => rfl
  | some s =>
    dsimp only
    split_ifs <;> rfl

theorem jsonStringChecked_check (fallback : Bytes) (refusal : Refusal) :
    (jsonStringChecked text key fallback).check refusal =
      (jsonStringChecked text key []).given.read fallback refusal := by
  rw [jsonStringChecked, jsonStringChecked]
  cases jsonTopLevelKey text key with
  | none => rfl
  | some s =>
    dsimp only
    cases jsonString s <;> rfl

theorem inObject_check {α : Type} {objectKey : Bytes} {fallback other : α} {lookup lookup' : Bytes → Lookup α}
    {refusal : Refusal} (h : ∀ s, (lookup s).check refusal = (lookup' s).given.read fallback refusal) :
    (inObject text objectKey fallback lookup).check refusal =
      (inObject text objectKey other lookup').given.read fallback refusal := by
  rw [inObject, inObject]
  cases jsonTopLevelKey text objectKey with
  | none => rfl
  | some s =>
    dsimp only
    split_ifs
    · rfl
    cases matchingDelimiter s 123 125 with
    | none => rfl
    | some n => exact h (s.take n)

theorem jsonObjectBooleanChecked_check (objectKey : Bytes) (fallback : Bool) (refusal : Refusal) :
    (jsonObjectBooleanChecked text objectKey key fallback).check refusal =
      (jsonObjectBooleanChecked text objectKey key false).given.read fallback refusal :=
  inObject_check fun _ => jsonBooleanChecked_check fallback refusal

theorem jsonObjectStringChecked_check (objectKey fallback : Bytes) (refusal : Refusal) :
    (jsonObjectStringChecked text objectKey key fallback).check refusal =
      (jsonObjectStringChecked text objectKey key []).given.read fallback refusal :=
  inObject_check fun _ => jsonStringChecked_check fallback refusal

end

/-- What a body says about the options. -/
structure Stated where
  thinking : Given Bool
  nestedThinking : Given Bool
  effort : Given Bytes
  nestedEffort : Given Bytes
  responseEffort : Given Bytes
  format : Given Bytes
  preserve : Given Bool
  nestedPreserve : Given Bool

def stated (body : Bytes) : Stated where
  thinking := (jsonBooleanChecked body (ascii "enable_thinking") false).given
  nestedThinking := (jsonObjectBooleanChecked body (ascii "chat_template_kwargs") (ascii "enable_thinking") false).given
  effort := (jsonStringChecked body (ascii "reasoning_effort") []).given
  nestedEffort := (jsonObjectStringChecked body (ascii "chat_template_kwargs") (ascii "reasoning_effort") []).given
  responseEffort := (jsonObjectStringChecked body (ascii "reasoning") (ascii "effort") []).given
  format := (jsonStringChecked body (ascii "reasoning_format") []).given
  preserve := (jsonBooleanChecked body (ascii "preserve_thinking") false).given
  nestedPreserve := (jsonObjectBooleanChecked body (ascii "chat_template_kwargs") (ascii "preserve_thinking") false).given

/-- What the settings say in `FORTAI_CHAT_TEMPLATE_KWARGS`. -/
structure ServerStated where
  thinking : Given Bool
  effort : Given Bytes
  preserve : Given Bool

def serverStated (getenv : Environment) : ServerStated where
  thinking := (jsonBooleanChecked (serverChatTemplateKwargs getenv) (ascii "enable_thinking") false).given
  effort := (jsonStringChecked (serverChatTemplateKwargs getenv) (ascii "reasoning_effort") []).given
  preserve := (jsonBooleanChecked (serverChatTemplateKwargs getenv) (ascii "preserve_thinking") false).given

/-- Every option that the body gives has its type. -/
structure Stated.Typed (s : Stated) : Prop where
  thinking : s.thinking ≠ .malformed
  nestedThinking : s.nestedThinking ≠ .malformed
  effort : s.effort ≠ .malformed
  nestedEffort : s.nestedEffort ≠ .malformed
  responseEffort : s.responseEffort ≠ .malformed
  format : s.format ≠ .malformed
  preserve : s.preserve ≠ .malformed
  nestedPreserve : s.nestedPreserve ≠ .malformed

/-- The values of the `chat_template_kwargs` of the settings have their types. -/
structure ServerStated.Typed (s : ServerStated) : Prop where
  thinking : s.thinking ≠ .malformed
  effort : s.effort ≠ .malformed
  preserve : s.preserve ≠ .malformed

namespace Stated

variable (s : Stated) (service : ModelSupport) (getenv : Environment)

/-- `enable_thinking` and `thinking_explicit` behind all of its sources. -/
def thinkingBy : Bool × Bool :=
  let server := (serverStated getenv).thinking.toOption
  applyReasoningEnvironment getenv
    (s.nestedThinking.toOption.getD (server.getD (s.thinking.toOption.getD service.defaultThinking)),
      s.thinking.toOption.isSome || server.isSome || s.nestedThinking.toOption.isSome)

/-- The effort that the body states where nothing of the environment is read behind it. -/
def fixedEffort : Option Bytes := s.responseEffort.toOption.or s.nestedEffort.toOption

def effortBy : Option Effort :=
  normalizeReasoningEffort (s.fixedEffort.getD ((serverStated getenv).effort.toOption.getD
    (s.effort.toOption.getD (serverTextDefault getenv "FORTAI_REASONING_EFFORT" []))))

def formatBy : Option ReasoningFormat :=
  reasoningFormat (s.format.toOption.getD (serverTextDefault getenv "FORTAI_REASONING_FORMAT" (ascii "auto")))

def preserveBy : Bool :=
  s.nestedPreserve.toOption.getD (s.preserve.toOption.getD ((serverStated getenv).preserve.toOption.getD
    (serverBooleanDefault getenv "FORTAI_REASONING_PRESERVE" service.supportsPreserveThinking)))

/-- What is resolved when every option has its type. -/
def resolved : Except Refusal Resolved :=
  match s.effortBy getenv with
  | none => .error effortRefusal
  | some effort =>
    match s.formatBy getenv with
    | none => .error formatRefusal
    | some format =>
      .ok ⟨effortThinking effort (s.thinkingBy service getenv), effort, format, s.preserveBy service getenv⟩

end Stated

theorem resolve_eq {service : ModelSupport} {getenv : Environment} {body : Bytes} (hs : (stated body).Typed)
    (hserver : (serverStated getenv).Typed) :
    resolve service getenv body = (stated body).resolved service getenv := by
  have htop := @Given.read_eq _ (jsonBooleanChecked body (ascii "enable_thinking") false).given hs.thinking
  have hnested := @Given.read_eq _ (jsonObjectBooleanChecked body (ascii "chat_template_kwargs")
    (ascii "enable_thinking") false).given hs.nestedThinking
  have heffort := @Given.read_eq _ (jsonStringChecked body (ascii "reasoning_effort") []).given hs.effort
  have hnestedEffort := @Given.read_eq _ (jsonObjectStringChecked body (ascii "chat_template_kwargs")
    (ascii "reasoning_effort") []).given hs.nestedEffort
  have hresponse := @Given.read_eq _ (jsonObjectStringChecked body (ascii "reasoning") (ascii "effort") []).given
    hs.responseEffort
  have hformat := @Given.read_eq _ (jsonStringChecked body (ascii "reasoning_format") []).given hs.format
  have hpreserve := @Given.read_eq _ (jsonBooleanChecked body (ascii "preserve_thinking") false).given hs.preserve
  have hnestedPreserve := @Given.read_eq _ (jsonObjectBooleanChecked body (ascii "chat_template_kwargs")
    (ascii "preserve_thinking") false).given hs.nestedPreserve
  have hserverThinking := @Given.read_eq _ (jsonBooleanChecked (serverChatTemplateKwargs getenv)
    (ascii "enable_thinking") false).given hserver.thinking
  have hserverEffort := @Given.read_eq _ (jsonStringChecked (serverChatTemplateKwargs getenv)
    (ascii "reasoning_effort") []).given hserver.effort
  have hserverPreserve := @Given.read_eq _ (jsonBooleanChecked (serverChatTemplateKwargs getenv)
    (ascii "preserve_thinking") false).given hserver.preserve
  rw [resolve]
  simp only [jsonBooleanChecked_check, jsonStringChecked_check, jsonObjectBooleanChecked_check,
    jsonObjectStringChecked_check, htop, hnested, heffort, hnestedEffort, hresponse, hformat, hpreserve,
    hnestedPreserve,
    hserverThinking, hserverEffort, hserverPreserve, ok_bind]
  have hfixed : (stated body).responseEffort.toOption.getD ((stated body).nestedEffort.toOption.getD
      ((serverStated getenv).effort.toOption.getD ((stated body).effort.toOption.getD
        (serverTextDefault getenv "FORTAI_REASONING_EFFORT" [])))) =
      (stated body).fixedEffort.getD ((serverStated getenv).effort.toOption.getD
        ((stated body).effort.toOption.getD (serverTextDefault getenv "FORTAI_REASONING_EFFORT" []))) := by
    rw [Stated.fixedEffort]
    cases (stated body).responseEffort.toOption <;> rfl
  show (match normalizeReasoningEffort ((stated body).responseEffort.toOption.getD _) with
    | none => _
    | some effort => _) = _
  rw [Stated.resolved, Stated.effortBy, ← hfixed]
  rfl

theorem typed_of_resolve {service : ModelSupport} {getenv : Environment} {body : Bytes} {r : Resolved}
    (h : resolve service getenv body = .ok r) : (stated body).Typed := by
  rw [resolve] at h
  simp only [jsonBooleanChecked_check, jsonStringChecked_check, jsonObjectBooleanChecked_check,
    jsonObjectStringChecked_check] at h
  obtain ⟨x₁, hthinking, h⟩ := bind_eq_ok.mp h
  obtain ⟨x₂, -, h⟩ := bind_eq_ok.mp h
  obtain ⟨x₃, hnestedThinking, h⟩ := bind_eq_ok.mp h
  obtain ⟨x₄, heffort, h⟩ := bind_eq_ok.mp h
  obtain ⟨x₅, -, h⟩ := bind_eq_ok.mp h
  obtain ⟨x₆, hnestedEffort, h⟩ := bind_eq_ok.mp h
  obtain ⟨x₇, hresponse, h⟩ := bind_eq_ok.mp h
  split at h
  · cases h
  obtain ⟨x₈, hformat, h⟩ := bind_eq_ok.mp h
  split at h
  · cases h
  obtain ⟨x₉, -, h⟩ := bind_eq_ok.mp h
  obtain ⟨x₁₀, hpreserve, h⟩ := bind_eq_ok.mp h
  obtain ⟨x₁₁, hnestedPreserve, -⟩ := bind_eq_ok.mp h
  exact ⟨Given.ne_malformed_of_read hthinking, Given.ne_malformed_of_read hnestedThinking,
    Given.ne_malformed_of_read heffort, Given.ne_malformed_of_read hnestedEffort,
    Given.ne_malformed_of_read hresponse, Given.ne_malformed_of_read hformat,
    Given.ne_malformed_of_read hpreserve, Given.ne_malformed_of_read hnestedPreserve⟩

/-! ### Settings of the server -/

/-- The settings of the server that give defaults for the options. -/
def settingNames : List String :=
  ["FORTAI_CHAT_TEMPLATE_KWARGS", "FORTAI_REASONING", "FORTAI_REASONING_EFFORT", "FORTAI_REASONING_PRESERVE"]

/-- The settings are valid: an object whose options have their types and are known, and words that are
known. -/
structure ValidSettings (getenv : Environment) : Prop where
  object : IsObject (serverChatTemplateKwargs getenv)
  typed : (serverStated getenv).Typed
  effort : ∀ value, (serverStated getenv).effort = .given value → normalizeReasoningEffort value ≠ none
  reasoning : [ascii "auto", ascii "on", ascii "true", ascii "1", ascii "off", ascii "false", ascii "0"].any
    (same (serverTextDefault getenv "FORTAI_REASONING" (ascii "auto"))) = true
  defaultEffort : normalizeReasoningEffort (serverTextDefault getenv "FORTAI_REASONING_EFFORT" []) ≠ none
  preserve : [[], ascii "1", ascii "true", ascii "on", ascii "yes", ascii "0", ascii "false", ascii "off", ascii "no"].any
    (same (serverTextDefault getenv "FORTAI_REASONING_PRESERVE" [])) = true

/-- Two environments that differ in these settings only. -/
def SameOthers (getenv getenv' : Environment) : Prop := ∀ name ∉ settingNames, getenv name = getenv' name

/-- The options that a request can state. -/
inductive ThinkingOption
  | enableThinking | reasoningEffort | preserveThinking
  deriving DecidableEq

def ThinkingOption.key : ThinkingOption → Bytes
  | enableThinking => ascii "enable_thinking"
  | reasoningEffort => ascii "reasoning_effort"
  | preserveThinking => ascii "preserve_thinking"

/-- A value of an option. -/
inductive OptionValue
  | switch (b : Bool)
  | effort (e : Effort)
  deriving DecidableEq

def Resolved.get (r : Resolved) : ThinkingOption → OptionValue
  | .enableThinking => .switch r.enableThinking
  | .reasoningEffort => .effort r.reasoningEffort
  | .preserveThinking => .switch r.preserveThinking

/-- The body states the option, itself or in its `chat_template_kwargs`. -/
def States (r : Request) (option : ThinkingOption) : Prop :=
  memberOf option.key r.members ≠ none ∨ ∃ gap inner,
    memberOf (ascii "chat_template_kwargs") r.members = some (.object gap inner) ∧ memberOf option.key inner ≠ none

/-- The value that is resolved; `none` when the request is refused. -/
def resolvedValue (service : ModelSupport) (getenv : Environment) (body : Bytes) (option : ThinkingOption) :
    Option OptionValue :=
  (resolve service getenv body).toOption.map fun r => r.get option

/-- What the request states is resolved to the same for all valid settings. -/
def RequestWins (service : ModelSupport) (r : Request) : Prop :=
  ∀ getenv getenv', ValidSettings getenv → ValidSettings getenv' → SameOthers getenv getenv' →
    ∀ option, States r option → resolvedValue service getenv r.text option = resolvedValue service getenv' r.text option

namespace Stated

variable {s : Stated} {service : ModelSupport} {getenv getenv' : Environment}

/-- Nothing in the body is refused whatever the settings are. -/
structure Accepted (s : Stated) : Prop where
  typed : s.Typed
  effort : ∀ value, s.fixedEffort = some value → normalizeReasoningEffort value ≠ none
  format : ∀ value, s.format = .given value → reasoningFormat value ≠ none

/-- No effort is read from the top level of the body that is unknown. -/
def Sound (s : Stated) : Prop :=
  s.fixedEffort.isSome ∨ ∀ value, s.effort = .given value → normalizeReasoningEffort value ≠ none

/-- The option is stated where nothing of the environment is read behind it. -/
def Fixes (s : Stated) : ThinkingOption → Prop
  | .enableThinking => s.fixedEffort.bind normalizeReasoningEffort = some .off ∨
      (s.nestedThinking.toOption.isSome ∧ (s.fixedEffort.isSome ∨ s.nestedThinking = .given false ∧ s.Sound))
  | .reasoningEffort => s.fixedEffort.isSome
  | .preserveThinking => (s.preserve.toOption.isSome ∨ s.nestedPreserve.toOption.isSome) ∧ s.Sound

theorem resolved_get (service : ModelSupport) (getenv : Environment) (option : ThinkingOption) :
    (s.resolved service getenv).toOption.map (fun r => r.get option) = (s.effortBy getenv).bind fun effort =>
      (s.formatBy getenv).map fun format => Resolved.get
        ⟨effortThinking effort (s.thinkingBy service getenv), effort, format, s.preserveBy service getenv⟩ option := by
  rw [resolved]
  cases s.effortBy getenv with
  | none => rfl
  | some effort =>
    dsimp only [Option.bind_some]
    cases s.formatBy getenv <;> rfl

theorem toOption_eq_some {α : Type} {g : Given α} {a : α} (h : g.toOption = some a) : g = .given a := by
  cases g with
  | missing | malformed => cases h
  | given b => exact congrArg Given.given (Option.some.inj h)

/-- The effort is known if the one of the top level is, or if it is not used. -/
theorem effortBy_ne_none (ha : s.Accepted) (hv : ValidSettings getenv) (hsound : s.Sound) :
    s.effortBy getenv ≠ none := by
  rw [effortBy]
  cases hfixed : s.fixedEffort with
  | some value => exact ha.effort value hfixed
  | none =>
    have htop : ∀ value, s.effort = .given value → normalizeReasoningEffort value ≠ none := by
      rcases hsound with hsome | htop
      · rw [hfixed] at hsome
        cases hsome
      · exact htop
    rw [Option.getD_none]
    cases hserver : (serverStated getenv).effort.toOption with
    | some value => exact hv.effort value (toOption_eq_some hserver)
    | none =>
      rw [Option.getD_none]
      cases heffort : s.effort.toOption with
      | some value => exact htop value (toOption_eq_some heffort)
      | none => exact hv.defaultEffort

theorem effortThinking_explicit {effort : Effort} (h : effort ≠ .off) (b : Bool) :
    effortThinking effort (b, true) = b := by
  cases effort with
  | off => exact absurd rfl h
  | unset | low | medium | xhigh => rfl

theorem effortThinking_false (effort : Effort) : effortThinking effort (false, true) = false := by
  cases effort <;> rfl

/-- An option that is stated explicitly is not changed by `FORTAI_REASONING`. -/
theorem thinkingBy_nested {b : Bool} (h : s.nestedThinking.toOption = some b) :
    s.thinkingBy service getenv = (b, true) := by
  rw [thinkingBy, h]
  simp only [Option.getD_some, Option.isSome_some, Bool.or_true]
  rfl

theorem formatBy_sameOthers (h : SameOthers getenv getenv') : s.formatBy getenv = s.formatBy getenv' := by
  have hname : getenv "FORTAI_REASONING_FORMAT" = getenv' "FORTAI_REASONING_FORMAT" := h _ (by decide)
  have hother : getenv (alternative "FORTAI_REASONING_FORMAT") = getenv' (alternative "FORTAI_REASONING_FORMAT") :=
    h _ (by decide)
  rw [formatBy, formatBy, serverTextDefault, serverTextDefault, settingText, settingText, hname, hother]

/-- An option that is fixed is resolved to the same value. -/
theorem resolved_of_fixes (ha : s.Accepted) (hv : ValidSettings getenv) (hv' : ValidSettings getenv')
    (hsame : SameOthers getenv getenv') {option : ThinkingOption} (h : s.Fixes option) :
    (s.resolved service getenv).toOption.map (fun r => r.get option) =
      (s.resolved service getenv').toOption.map (fun r => r.get option) := by
  -- with a fixed effort the effort is the same, too
  have hfixed : ∀ value, s.fixedEffort = some value → s.effortBy getenv = s.effortBy getenv' := by
    intro value hvalue
    rw [effortBy, effortBy, hvalue, Option.getD_some, Option.getD_some]
  have hformat := formatBy_sameOthers (s := s) hsame
  rw [resolved_get, resolved_get, hformat]
  cases option with
  | enableThinking =>
    rcases h with hoff | ⟨hsome, hcase⟩
    · obtain ⟨value, hvalue, hoff⟩ := Option.bind_eq_some_iff.mp hoff
      have heffort : s.effortBy getenv = some .off := by rw [effortBy, hvalue]; exact hoff
      rw [← hfixed value hvalue, heffort]
      rfl
    obtain ⟨b, hb⟩ := Option.isSome_iff_exists.mp hsome
    rw [thinkingBy_nested hb, thinkingBy_nested hb]
    rcases hcase with hsome | ⟨hfalse, hsound⟩
    · obtain ⟨value, hvalue⟩ := Option.isSome_iff_exists.mp hsome
      rw [hfixed value hvalue]
      rfl
    · have hb : b = false := by
        rw [hfalse] at hb
        exact (Option.some.inj hb).symm
      subst hb
      obtain ⟨effort, heffort⟩ := Option.ne_none_iff_exists'.mp (effortBy_ne_none ha hv hsound)
      obtain ⟨effort', heffort'⟩ := Option.ne_none_iff_exists'.mp (effortBy_ne_none ha hv' hsound)
      rw [heffort, heffort', Option.bind_some, Option.bind_some]
      simp only [Resolved.get, effortThinking_false]
  | reasoningEffort =>
    obtain ⟨value, hvalue⟩ := Option.isSome_iff_exists.mp h
    rw [hfixed value hvalue]
    rfl
  | preserveThinking =>
    obtain ⟨hpreserve, hsound⟩ := h
    have hvalue : s.preserveBy service getenv = s.preserveBy service getenv' := by
      rw [preserveBy, preserveBy]
      rcases hpreserve with hsome | hsome
      all_goals
        obtain ⟨b, hb⟩ := Option.isSome_iff_exists.mp hsome
        rw [hb]
        rfl
    obtain ⟨effort, heffort⟩ := Option.ne_none_iff_exists'.mp (effortBy_ne_none ha hv hsound)
    obtain ⟨effort', heffort'⟩ := Option.ne_none_iff_exists'.mp (effortBy_ne_none ha hv' hsound)
    rw [heffort, heffort', Option.bind_some, Option.bind_some, hvalue]
    rfl

end Stated

/-- What is resolved at all is accepted. -/
theorem accepted_of_resolve {service : ModelSupport} {getenv : Environment} {body : Bytes} {r : Resolved}
    (hserver : (serverStated getenv).Typed) (h : resolve service getenv body = .ok r) : (stated body).Accepted := by
  have htyped := typed_of_resolve h
  rw [resolve_eq htyped hserver, Stated.resolved] at h
  cases heffort : (stated body).effortBy getenv with
  | none =>
    rw [heffort] at h
    cases h
  | some effort =>
    rw [heffort] at h
    dsimp only at h
    cases hformat : (stated body).formatBy getenv with
    | none =>
      rw [hformat] at h
      cases h
    | some format =>
      refine ⟨htyped, fun value hvalue hnone => ?_, fun value hvalue hnone => ?_⟩
      · rw [Stated.effortBy, hvalue, Option.getD_some, hnone] at heffort
        cases heffort
      · rw [Stated.formatBy, hvalue] at hformat
        exact absurd (hnone.symm.trans hformat) (Option.some_ne_none format).symm

/-! ### Settings that differ -/

def Effort.word : Effort → Bytes
  | unset => ascii "default"
  | off => ascii "off"
  | low => ascii "low"
  | medium => ascii "medium"
  | xhigh => ascii "xhigh"

theorem normalizeReasoningEffort_word (effort : Effort) : normalizeReasoningEffort effort.word = some effort := by
  cases effort <;> decide

/-- `{"enable_thinking":…,"reasoning_effort":…}` -/
def kwargsFields (thinking : Bool) (effort : Effort) : List (String × Json .value) :=
  [("enable_thinking", .literal (if thinking then .true else .false)),
    ("reasoning_effort", Document.string effort.word)]

/-- Settings that give all three options. -/
def chosen (thinking : Bool) (effort : Effort) (preserve : Bool) : Environment := fun name =>
  if name = "FORTAI_CHAT_TEMPLATE_KWARGS" then some (Document.object (kwargsFields thinking effort)).render
  else if name = "FORTAI_REASONING_PRESERVE" then some (if preserve then ascii "true" else ascii "false")
  else none

/-- No settings. -/
def nothingSet : Environment := fun _ => none

theorem sameOthers_chosen (thinking thinking' : Bool) (effort effort' : Effort) (preserve preserve' : Bool) :
    SameOthers (chosen thinking effort preserve) (chosen thinking' effort' preserve') := by
  intro name hname
  have hkwargs : name ≠ "FORTAI_CHAT_TEMPLATE_KWARGS" := fun heq => hname (by rw [heq]; decide)
  have hpreserve : name ≠ "FORTAI_REASONING_PRESERVE" := fun heq => hname (by rw [heq]; decide)
  rw [chosen, chosen, if_neg hkwargs, if_neg hkwargs, if_neg hpreserve, if_neg hpreserve]

theorem sameOthers_nothing (thinking : Bool) (effort : Effort) (preserve : Bool) :
    SameOthers nothingSet (chosen thinking effort preserve) := by
  intro name hname
  have hkwargs : name ≠ "FORTAI_CHAT_TEMPLATE_KWARGS" := fun heq => hname (by rw [heq]; decide)
  have hpreserve : name ≠ "FORTAI_REASONING_PRESERVE" := fun heq => hname (by rw [heq]; decide)
  rw [chosen, nothingSet, if_neg hkwargs, if_neg hpreserve]

theorem isObject_object (l : List (String × Json .value)) : IsObject (Document.object l).render :=
  ⟨default, default, Document.fields l, default, (List.append_nil _).symm⟩

theorem jsonTopLevelKey_object (key : Bytes) (l : List (String × Json .value)) :
    jsonTopLevelKey (Document.object l).render key = paddedMember key (Document.fields l) [125] := by
  have hrender := @jsonTopLevelKey_render key default default (Document.fields l) default
  rwa [show (default : Gap).bytes ++ ((Json.object default (Document.fields l)).render ++ (default : Gap).bytes) =
    (Document.object l).render from List.append_nil _] at hrender

theorem serverChatTemplateKwargs_chosen (thinking : Bool) (effort : Effort) (preserve : Bool) :
    serverChatTemplateKwargs (chosen thinking effort preserve) =
      (Document.object (kwargsFields thinking effort)).render := by
  cases thinking <;> cases effort <;> rfl

theorem serverStated_chosen (thinking : Bool) (effort : Effort) (preserve : Bool) :
    serverStated (chosen thinking effort preserve) = ⟨.given thinking, .given effort.word, .missing⟩ := by
  have hthinking : paddedMember (ascii "enable_thinking") (Document.fields (kwargsFields thinking effort)) [125] =
      some ((Json.literal (if thinking then .true else .false)).render ++ behindValue default
        (Document.fields [("reasoning_effort", Document.string effort.word)]) [125]) := rfl
  have heffort : paddedMember (ascii "reasoning_effort") (Document.fields (kwargsFields thinking effort)) [125] =
      some ((escapeText effort.word).render ++ [125]) := rfl
  have hpreserve : paddedMember (ascii "preserve_thinking") (Document.fields (kwargsFields thinking effort)) [125] = none :=
    rfl
  rw [serverStated, serverChatTemplateKwargs_chosen, jsonBooleanChecked, jsonStringChecked, jsonBooleanChecked,
    jsonTopLevelKey_object, jsonTopLevelKey_object, jsonTopLevelKey_object, hthinking, heffort, hpreserve]
  dsimp only
  rw [jsonString_render, decode_escapeText]
  cases thinking <;> rfl

theorem serverStated_nothing : serverStated nothingSet = ⟨.missing, .missing, .missing⟩ := by
  have hkwargs : serverChatTemplateKwargs nothingSet = (Document.object []).render := rfl
  rw [serverStated, hkwargs, jsonBooleanChecked, jsonStringChecked, jsonBooleanChecked,
    jsonTopLevelKey_object, jsonTopLevelKey_object, jsonTopLevelKey_object]
  rfl

theorem valid_chosen (thinking : Bool) (effort : Effort) (preserve : Bool) :
    ValidSettings (chosen thinking effort preserve) where
  object := serverChatTemplateKwargs_chosen thinking effort preserve ▸ isObject_object _
  typed := by
    rw [serverStated_chosen]
    constructor
    all_goals
      intro h
      cases h
  effort := by
    rw [serverStated_chosen]
    rintro _ ⟨⟩
    rw [normalizeReasoningEffort_word]
    exact Option.some_ne_none effort
  reasoning := by
    have hunset : serverTextDefault (chosen thinking effort preserve) "FORTAI_REASONING" (ascii "auto") = ascii "auto" :=
      rfl
    rw [hunset]
    decide
  defaultEffort := by
    have hunset : serverTextDefault (chosen thinking effort preserve) "FORTAI_REASONING_EFFORT" [] = [] := rfl
    rw [hunset]
    decide
  preserve := by
    have hset : serverTextDefault (chosen thinking effort preserve) "FORTAI_REASONING_PRESERVE" [] =
        if preserve then ascii "true" else ascii "false" := by cases preserve <;> rfl
    rw [hset]
    cases preserve <;> decide

theorem valid_nothing : ValidSettings nothingSet where
  object := isObject_object []
  typed := by
    rw [serverStated_nothing]
    constructor
    all_goals
      intro h
      cases h
  effort := by
    rw [serverStated_nothing]
    intro value h
    cases h
  reasoning := by decide
  defaultEffort := by decide
  preserve := by decide

namespace Stated

variable {s : Stated} {service : ModelSupport}

theorem thinkingBy_chosen (thinking : Bool) (effort : Effort) (preserve : Bool) :
    s.thinkingBy service (chosen thinking effort preserve) = (s.nestedThinking.toOption.getD thinking, true) := by
  rw [thinkingBy, serverStated_chosen]
  simp only [Given.toOption, Option.getD_some, Option.isSome_some, Bool.or_true, Bool.true_or]
  rfl

theorem effortBy_chosen (thinking : Bool) (effort : Effort) (preserve : Bool) :
    s.effortBy (chosen thinking effort preserve) = normalizeReasoningEffort (s.fixedEffort.getD effort.word) := by
  rw [effortBy, serverStated_chosen]
  rfl

theorem preserveBy_chosen (thinking : Bool) (effort : Effort) (preserve : Bool) :
    s.preserveBy service (chosen thinking effort preserve) =
      s.nestedPreserve.toOption.getD (s.preserve.toOption.getD preserve) := by
  have hset : serverBooleanDefault (chosen thinking effort preserve) "FORTAI_REASONING_PRESERVE"
      service.supportsPreserveThinking = preserve := by
    have htext : serverTextDefault (chosen thinking effort preserve) "FORTAI_REASONING_PRESERVE" [] =
        if preserve then ascii "true" else ascii "false" := by cases preserve <;> rfl
    rw [serverBooleanDefault, htext]
    cases preserve <;> rfl
  rw [preserveBy, serverStated_chosen, hset]
  rfl

/-- What an accepted body resolves under these settings. -/
theorem resolved_chosen (ha : s.Accepted) (thinking : Bool) (effort : Effort) (preserve : Bool) :
    ∃ e format, normalizeReasoningEffort (s.fixedEffort.getD effort.word) = some e ∧
      ∀ option, (s.resolved service (chosen thinking effort preserve)).toOption.map (fun r => r.get option) =
        some (Resolved.get ⟨effortThinking e (s.nestedThinking.toOption.getD thinking, true), e, format,
          s.nestedPreserve.toOption.getD (s.preserve.toOption.getD preserve)⟩ option) := by
  have heffort : normalizeReasoningEffort (s.fixedEffort.getD effort.word) ≠ none := by
    cases hfixed : s.fixedEffort with
    | some value => exact ha.effort value hfixed
    | none =>
      rw [Option.getD_none, normalizeReasoningEffort_word]
      exact Option.some_ne_none effort
  have hformat : s.formatBy (chosen thinking effort preserve) ≠ none := by
    rw [formatBy]
    cases hgiven : s.format.toOption with
    | some value => exact ha.format value (toOption_eq_some hgiven)
    | none =>
      have hunset : serverTextDefault (chosen thinking effort preserve) "FORTAI_REASONING_FORMAT" (ascii "auto") =
          ascii "auto" := rfl
      rw [Option.getD_none, hunset]
      decide
  obtain ⟨e, he⟩ := Option.ne_none_iff_exists'.mp heffort
  obtain ⟨format, hformat⟩ := Option.ne_none_iff_exists'.mp hformat
  refine ⟨e, format, he, fun option => ?_⟩
  rw [resolved_get, effortBy_chosen, he, hformat, thinkingBy_chosen, preserveBy_chosen]
  rfl

/-- A body with an unknown effort is refused without settings. -/
theorem resolved_nothing (h : ¬ s.Sound) (option : ThinkingOption) :
    (s.resolved service nothingSet).toOption.map (fun r => r.get option) = none := by
  obtain ⟨hfixed, htop⟩ := not_or.mp h
  obtain ⟨value, hvalue, hnone⟩ : ∃ value, s.effort = .given value ∧ normalizeReasoningEffort value = none := by
    by_contra hall
    exact htop fun value hvalue hnone => hall ⟨value, hvalue, hnone⟩
  have heffort : s.effortBy nothingSet = none := by
    rw [effortBy, Option.not_isSome_iff_eq_none.mp hfixed, serverStated_nothing, hvalue]
    exact hnone
  rw [resolved_get, heffort]
  rfl

/-- For an option that is not fixed there are settings under which it differs. -/
theorem exists_differ (ha : s.Accepted) {option : ThinkingOption} (h : ¬ s.Fixes option) :
    ∃ getenv getenv', ValidSettings getenv ∧ ValidSettings getenv' ∧ SameOthers getenv getenv' ∧
      (s.resolved service getenv).toOption.map (fun r => r.get option) ≠
        (s.resolved service getenv').toOption.map (fun r => r.get option) := by
  -- an unknown effort is refused or not
  have hunsound : ¬ s.Sound → ∃ getenv getenv', ValidSettings getenv ∧ ValidSettings getenv' ∧
      SameOthers getenv getenv' ∧ (s.resolved service getenv).toOption.map (fun r => r.get option) ≠
        (s.resolved service getenv').toOption.map (fun r => r.get option) := by
    intro hsound
    obtain ⟨e, format, -, hchosen⟩ := @resolved_chosen s service ha true .low true
    refine ⟨nothingSet, chosen true .low true, valid_nothing, valid_chosen _ _ _, sameOthers_nothing _ _ _, ?_⟩
    rw [resolved_nothing hsound, hchosen]
    exact (Option.some_ne_none _).symm
  -- two settings of the three options
  have hpair : ∀ thinking effort preserve thinking' effort' preserve',
      (∀ e e' format format', normalizeReasoningEffort (s.fixedEffort.getD (Effort.word effort)) = some e →
        normalizeReasoningEffort (s.fixedEffort.getD (Effort.word effort')) = some e' →
          Resolved.get ⟨effortThinking e (s.nestedThinking.toOption.getD thinking, true), e, format,
            s.nestedPreserve.toOption.getD (s.preserve.toOption.getD preserve)⟩ option ≠
          Resolved.get ⟨effortThinking e' (s.nestedThinking.toOption.getD thinking', true), e', format',
            s.nestedPreserve.toOption.getD (s.preserve.toOption.getD preserve')⟩ option) →
      ∃ getenv getenv', ValidSettings getenv ∧ ValidSettings getenv' ∧ SameOthers getenv getenv' ∧
        (s.resolved service getenv).toOption.map (fun r => r.get option) ≠
          (s.resolved service getenv').toOption.map (fun r => r.get option) := by
    intro thinking effort preserve thinking' effort' preserve' hne
    obtain ⟨e, format, he, hchosen⟩ := @resolved_chosen s service ha thinking effort preserve
    obtain ⟨e', format', he', hchosen'⟩ := @resolved_chosen s service ha thinking' effort' preserve'
    refine ⟨_, _, valid_chosen thinking effort preserve, valid_chosen thinking' effort' preserve',
      sameOthers_chosen _ _ _ _ _ _, ?_⟩
    rw [hchosen, hchosen']
    exact fun heq => hne e e' format format' he he' (Option.some.inj heq)
  cases option with
  | enableThinking =>
    obtain ⟨hoff, hnested⟩ := not_or.mp h
    cases hthinking : s.nestedThinking.toOption with
    | none =>
      -- the settings decide, as the effort does not switch thinking off
      refine hpair true .low true false .low true fun e e' format format' he he' heq => ?_
      obtain rfl : e = e' := Option.some.inj (he.symm.trans he')
      have hne : e ≠ .off := by
        rintro rfl
        cases hfixed : s.fixedEffort with
        | none =>
          rw [hfixed, Option.getD_none, normalizeReasoningEffort_word] at he
          cases he
        | some value =>
          rw [hfixed] at he hoff
          exact hoff he
      rw [hthinking] at heq
      simp only [Resolved.get, Option.getD_none, effortThinking_explicit hne] at heq
      cases heq
    | some b =>
      have hsome : s.nestedThinking.toOption.isSome = true := by rw [hthinking]; rfl
      have hcase := not_or.mp fun hcase => hnested ⟨hsome, hcase⟩
      have hfixed := Option.not_isSome_iff_eq_none.mp hcase.1
      cases b with
      | false => exact hunsound fun hsound => hcase.2 ⟨toOption_eq_some hthinking, hsound⟩
      | true =>
        -- the effort of the settings switches thinking off
        refine hpair true .low true true .off true fun e e' format format' he he' heq => ?_
        rw [hfixed, Option.getD_none, normalizeReasoningEffort_word, Option.some.injEq] at he he'
        subst he he'
        rw [hthinking] at heq
        cases heq
  | reasoningEffort =>
    have hfixed := Option.not_isSome_iff_eq_none.mp h
    refine hpair true .low true true .medium true fun e e' format format' he he' heq => ?_
    rw [hfixed, Option.getD_none, normalizeReasoningEffort_word, Option.some.injEq] at he he'
    subst he he'
    cases heq
  | preserveThinking =>
    by_cases hsound : s.Sound
    swap
    · exact hunsound hsound
    have hnone := not_or.mp fun hsome => h ⟨hsome, hsound⟩
    have htop := Option.not_isSome_iff_eq_none.mp hnone.1
    have hnested := Option.not_isSome_iff_eq_none.mp hnone.2
    refine hpair true .low true true .low false fun e e' format format' he he' heq => ?_
    rw [htop, hnested] at heq
    cases heq

end Stated

/-- What a request states does not depend on the settings of the server, as long as these are valid,
exactly when it is refused for all of them or states each option where nothing of the environment is read
behind it. -/
theorem wins_iff (service : ModelSupport) (r : Request) : RequestWins service r ↔
    ((stated r.text).Accepted → ∀ option, States r option → (stated r.text).Fixes option) := by
  constructor
  · intro hwins ha option hstates
    by_contra hfixes
    obtain ⟨getenv, getenv', hv, hv', hsame, hne⟩ := @Stated.exists_differ _ service ha option hfixes
    have heq := hwins getenv getenv' hv hv' hsame option hstates
    rw [resolvedValue, resolvedValue, resolve_eq ha.typed hv.typed, resolve_eq ha.typed hv'.typed] at heq
    exact hne heq
  · intro h getenv getenv' hv hv' hsame option hstates
    by_cases ha : (stated r.text).Accepted
    · rw [resolvedValue, resolvedValue, resolve_eq ha.typed hv.typed, resolve_eq ha.typed hv'.typed]
      exact Stated.resolved_of_fixes ha hv hv' hsame (h ha option hstates)
    · -- the request is refused under both settings
      have hrefused : ∀ getenv, ValidSettings getenv → resolvedValue service getenv r.text option = none := by
        intro getenv hv
        rw [resolvedValue]
        cases hresolve : resolve service getenv r.text with
        | error refusal => rfl
        | ok resolved => exact absurd (accepted_of_resolve hv.typed hresolve) ha
      rw [hrefused getenv hv, hrefused getenv' hv']

/-- `{"enable_thinking":true}` -/
def thinkingRequest : Request :=
  ⟨default, default, Document.fields [("enable_thinking", .literal .true)], default⟩

theorem stated_thinkingRequest : stated thinkingRequest.text =
    ⟨.given true, .missing, .missing, .missing, .missing, .missing, .missing, .missing⟩ := by
  have hlookup : ∀ key, jsonTopLevelKey thinkingRequest.text key =
      paddedMember key thinkingRequest.members thinkingRequest.behind :=
    fun key => jsonTopLevelKey_render default default thinkingRequest.members default
  have hgiven : paddedMember (ascii "enable_thinking") thinkingRequest.members thinkingRequest.behind =
      some (ascii "true\x7d") := rfl
  have hmissing : ∀ key ∈ [ascii "chat_template_kwargs", ascii "reasoning_effort", ascii "reasoning",
      ascii "reasoning_format", ascii "preserve_thinking"],
      paddedMember key thinkingRequest.members thinkingRequest.behind = none := by decide
  simp only [List.forall_mem_cons] at hmissing
  obtain ⟨hkwargs, heffort, hreasoning, hformat, hpreserve, -⟩ := hmissing
  simp only [stated, jsonObjectBooleanChecked, jsonObjectStringChecked, inObject, jsonBooleanChecked,
    jsonStringChecked,
    hlookup, hgiven, hkwargs, heffort, hreasoning, hformat, hpreserve]
  rfl

/-- The request asks for thinking, and the settings decide. -/
theorem not_wins_thinkingRequest : ¬ RequestWins ⟨true, true⟩ thinkingRequest := by
  intro hwins
  have ha : (stated thinkingRequest.text).Accepted := by
    rw [stated_thinkingRequest]
    refine ⟨?_, fun value h => ?_, fun value h => ?_⟩
    · constructor
      all_goals
        intro h
        cases h
    · cases h
    · cases h
  have hvalue : ∀ thinking, resolvedValue ⟨true, true⟩ (chosen thinking .low true) thinkingRequest.text .enableThinking =
      some (.switch thinking) := by
    intro thinking
    obtain ⟨e, format, he, hchosen⟩ := @Stated.resolved_chosen _ ⟨true, true⟩ ha thinking .low true
    rw [stated_thinkingRequest] at he
    have hlow : e = .low := (Option.some.inj he).symm
    rw [resolvedValue, resolve_eq ha.typed (valid_chosen thinking .low true).typed, hchosen,
      stated_thinkingRequest, hlow]
    rfl
  have heq := hwins (chosen true .low true) (chosen false .low true) (valid_chosen _ _ _) (valid_chosen _ _ _)
    (sameOthers_chosen _ _ _ _ _ _) .enableThinking (.inl (Option.some_ne_none _))
  rw [hvalue, hvalue] at heq
  cases heq

end Settings

end FortAI
