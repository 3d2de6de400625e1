import FortAI.Chat.Document
import FortAI.Chat.Reading
import FortAI.Http.Routing
import FortAI.Settings.Properties

/-!
# The settings in reports

`server_settings_json` writes the settings of the server as a JSON object, and `server_props_json`
puts it into the answer to `GET /props`.  `append_setting` quotes some of the texts that it finds in
the environment; the others it writes as they stand, after a repair of what a number may lack.

* `Spliceable` : the texts that may be written as they stand.
* `settingsJson_render`, `propsJson_render` : with such texts the reports are objects.
-/

namespace FortAI

namespace Settings

open CString Character Chat Http

/-! ### Objects with blanks -/

/-- A member of an object, with the blanks around its value. -/
structure Entry where
  key : String
  before : Gap
  value : Json .value
  after : Gap

/-- The members of an object. -/
def members : List Entry → Json .members
  | [] => .noMember
  | e :: rest =>
    .member default (escapeText (ascii e.key)) default e.before e.value e.after (members rest)

/-- The text of a member. -/
def Entry.text (e : Entry) : Bytes :=
  jsonEscape (ascii e.key) ++ 58 :: (e.before.bytes ++ (e.value.render ++ e.after.bytes))

/-- The names of the members of an object, in the order in which they are written. -/
def names : Json .value → List Bytes
  | .object _ l => l.memberList.map fun m => m.1.decode
  | _ => []

theorem render_members (e : Entry) (rest : List Entry) :
    (members (e :: rest)).render = e.text ++ rest.flatMap (44 :: ·.text) := by
  induction rest generalizing e with
  | nil =>
    rw [Entry.text, jsonEscape_eq]
    show (escapeText (ascii e.key)).render ++ 58 :: (e.before.bytes ++ (e.value.render ++ (e.after.bytes ++ []))) = _
    rw [List.append_nil, List.flatMap_nil, List.append_nil]
  | cons f rest ih =>
    rw [List.flatMap_cons, Entry.text, jsonEscape_eq, List.append_assoc, List.cons_append, List.append_assoc,
      List.append_assoc, List.cons_append, ← ih]
    rfl

theorem names_members (l : List Entry) : names (.object default (members l)) = l.map fun e => ascii e.key := by
  show (members l).memberList.map (fun m => m.1.decode) = _
  induction l with
  | nil => rfl
  | cons e rest ih =>
    rw [List.map_cons, ← ih, ← decode_escapeText (ascii e.key)]
    rfl

theorem names_object (l : List (String × Json .value)) : names (Document.object l) = l.map fun f => ascii f.1 := by
  show (Document.fields l).memberList.map (fun m => m.1.decode) = _
  induction l with
  | nil => rfl
  | cons f rest ih =>
    rw [List.map_cons, ← ih, ← decode_escapeText (ascii f.1)]
    rfl

/-! ### The report of the settings -/

/-- What the service knows about itself. -/
structure Service where
  contextSize : ℤ
  cacheReuseSupported : Bool
  cacheReuseActive : Bool
  cacheReuseCount : ℤ

/-- The members: the settings from the environment, and those that the service knows. -/
inductive Row
  | setting (key environment fallback : String) (quoted : Bool)
  | context
  | cacheReuseSupported
  | cacheReuseActive
  | cacheReuseTokens

namespace Row

def key : Row → String
  | setting key .. => key
  | context => "context"
  | cacheReuseSupported => "cache_reuse_supported"
  | cacheReuseActive => "cache_reuse_active"
  | cacheReuseTokens => "cache_reuse_tokens"

end Row

/-- The members that `server_settings_json` writes. -/
def rows : List Row :=
  [.setting "alias" "FORTAI_SERVER_ALIAS" "qwen" true,
   .context,
   .setting "threads" "FORTAI_THREADS" "0" false,
   .setting "gpu_layers" "FORTAI_GPU_LAYERS" "0" false,
   .setting "main_gpu" "FORTAI_MAIN_GPU" "0" false,
   .setting "parallel" "FORTAI_PARALLEL" "1" false,
   .setting "slot_mode" "FORTAI_SLOT_MODE" "serialized" true,
   .setting "batch" "FORTAI_BATCH" "2048" false,
   .setting "ubatch" "FORTAI_UBATCH" "512" false,
   .setting "tensor_split" "FORTAI_TENSOR_SPLIT" "" true,
   .setting "split_mode" "FORTAI_SPLIT_MODE" "layer" true,
   .setting "flash_attn" "FORTAI_FLASH_ATTN" "auto" true,
   .setting "cache_type_k" "FORTAI_CACHE_TYPE_K" "f16" true,
   .setting "cache_type_v" "FORTAI_CACHE_TYPE_V" "f16" true,
   .setting "cache_type_k_draft" "FORTAI_CACHE_TYPE_K_DRAFT" "f16" true,
   .setting "cache_type_v_draft" "FORTAI_CACHE_TYPE_V_DRAFT" "f16" true,
   .setting "draft_model" "FORTAI_DRAFT_MODEL" "" true,
   .setting "spec_type" "FORTAI_SPEC_TYPE" "" true,
   .setting "spec_draft_n_max" "FORTAI_SPEC_DRAFT_N_MAX" "0" false,
   .setting "reasoning_budget" "FORTAI_REASONING_BUDGET" "0" false,
   .setting "reasoning_effort" "FORTAI_REASONING_EFFORT" "default" true,
   .setting "reasoning" "FORTAI_REASONING" "auto" true,
   .setting "reasoning_preserve" "FORTAI_REASONING_PRESERVE" "false" false,
   .setting "chat_template_kwargs" "FORTAI_CHAT_TEMPLATE_KWARGS" "\x7b\x7d" true,
   .setting "mmproj" "FORTAI_MMPROJ" "" true,
   .setting "mmproj_offload" "FORTAI_MMPROJ_OFFLOAD" "true" false,
   .setting "mmproj_device" "MTMD_BACKEND_DEVICE" "auto" true,
   .setting "load_mode" "FORTAI_LOAD_MODE" "auto" true,
   .setting "fit" "FORTAI_FIT" "auto" true,
   .setting "cache_ram" "FORTAI_CACHE_RAM" "0" false,
   .setting "cache_reuse" "FORTAI_CACHE_REUSE" "0" false,
   .cacheReuseSupported,
   .cacheReuseActive,
   .cacheReuseTokens,
   .setting "n_cpu_moe" "FORTAI_N_CPU_MOE" "0" false,
   .setting "threads_http" "FORTAI_THREADS_HTTP" "0" false,
   .setting "no_context_shift" "FORTAI_NO_CONTEXT_SHIFT" "false" false,
   .setting "metrics" "FORTAI_METRICS" "false" false,
   .setting "log_timestamps" "FORTAI_LOG_TIMESTAMPS" "false" false,
   .setting "temperature" "FORTAI_TEMPERATURE" "0.8" false,
   .setting "top_k" "FORTAI_TOP_K" "40" false,
   .setting "top_p" "FORTAI_TOP_P" "0.95" false,
   .setting "min_p" "FORTAI_MIN_P" "0.05" false,
   .setting "repeat_penalty" "FORTAI_REPEAT_PENALTY" "1" false,
   .setting "presence_penalty" "FORTAI_PRESENCE_PENALTY" "0" false,
   .setting "frequency_penalty" "FORTAI_FREQUENCY_PENALTY" "0" false,
   .setting "repeat_last_n" "FORTAI_REPEAT_LAST_N" "64" false,
   .setting "reasoning_format" "FORTAI_REASONING_FORMAT" "auto" true,
   .setting "static_path" "FORTAI_STATIC_PATH" "" true,
   .setting "api_prefix" "FORTAI_API_PREFIX" "" true,
   .setting "cors_origins" "FORTAI_CORS_ORIGINS" "*" true,
   .setting "cors_methods" "FORTAI_CORS_METHODS" "GET, POST, DELETE, OPTIONS" true,
   .setting "cors_headers" "FORTAI_CORS_HEADERS" "*" true,
   .setting "cors_credentials" "FORTAI_CORS_CREDENTIALS" "true" false,
   .setting "tools" "FORTAI_TOOLS" "" true,
   .setting "tools_runtime" "FORTAI_TOOLS_RUNTIME" "" true,
   .setting "mcp_servers_config" "FORTAI_MCP_SERVERS_CONFIG" "" true,
   .setting "mcp_servers_json" "FORTAI_MCP_SERVERS_JSON" "" true,
   .setting "embedding" "FORTAI_EMBEDDINGS" "false" false,
   .setting "reranking" "FORTAI_RERANKING" "false" false,
   .setting "endpoint_props" "FORTAI_ENDPOINT_PROPS" "false" false,
   .setting "endpoint_slots" "FORTAI_ENDPOINT_SLOTS" "true" false,
   .setting "no_webui" "FORTAI_NO_WEBUI" "false" false]

/-- The text that `append_setting` finds in the environment. -/
def settingValue (getenv : Environment) (environment fallback : String) : Bytes :=
  let value := (getenv environment).getD []
  if value = [] ∨ 4096 < value.length then trim (ascii fallback) else value

/-- The text that is written without quotes: a number may lack the zero before its point. -/
def scalar (value : Bytes) : Bytes :=
  let scalar := trim value
  if scalar = [] then ascii "0"
  else if scalar.head? = some 46 then ascii "0" ++ scalar
  else if scalar.take 2 = ascii "-." then ascii "-0" ++ scalar.drop 1
  else scalar

/-- `append_setting` -/
def appendSetting (getenv : Environment) (result : Bytes) (key environment fallback : String)
    (quoted : Bool) : Bytes :=
  let value := settingValue getenv environment fallback
  -- a comma, unless the text so far ends with the bracket that opens an object
  let result := if result = [] ∨ result.getLast? = some 123 then result else result ++ [44]
  let result := result ++ ascii "\"" ++ ascii key ++ ascii "\":"
  if quoted then result ++ jsonEscape value else result ++ scalar value

/-- `append_logical` -/
def logical (b : Bool) : Bytes := if b then ascii "true" else ascii "false"

variable (getenv : Environment) (service : Service)

/-- What `server_settings_json` appends for a member. -/
def appendRow (result : Bytes) : Row → Bytes
  | .setting key environment fallback quoted => appendSetting getenv result key environment fallback quoted
  | .context => result ++ ascii ",\"context\":" ++ signed service.contextSize
  | .cacheReuseSupported => result ++ ascii ",\"cache_reuse_supported\":" ++ logical service.cacheReuseSupported
  | .cacheReuseActive => result ++ ascii ",\"cache_reuse_active\":" ++ logical service.cacheReuseActive
  | .cacheReuseTokens => result ++ ascii ",\"cache_reuse_tokens\":" ++ signed service.cacheReuseCount

/-- `server_settings_json` -/
def serverSettingsJson (result : Bytes) : Bytes :=
  rows.foldl (appendRow getenv service) (result ++ [123]) ++ [125]

/-- `server_props_json` -/
def serverPropsJson (readInteger : Bytes → ℤ → Option ℤ) (model modelPath : Bytes) : Bytes :=
  serverSettingsJson getenv service (ascii "\x7b\"default_generation_settings\":\x7b\"params\":") ++
    ascii ",\"n_ctx\":" ++ signed service.contextSize ++
    ascii "\x7d,\"total_slots\":" ++ signed (serverIntegerDefault readInteger getenv "FORTAI_PARALLEL" 1) ++
    ascii ",\"model_alias\":" ++ jsonEscape model ++
    ascii ",\"model_path\":" ++ jsonEscape modelPath ++
    ascii ",\"modalities\":\x7b\"vision\":false,\"video\":false,\"audio\":false\x7d" ++
    ascii ",\"endpoint_slots\":" ++ logical (serverBooleanDefault getenv "FORTAI_ENDPOINT_SLOTS" true) ++
    ascii ",\"endpoint_props\":" ++ logical (serverBooleanDefault getenv "FORTAI_ENDPOINT_PROPS" false) ++
    ascii ",\"endpoint_metrics\":" ++ logical (serverBooleanDefault getenv "FORTAI_METRICS" false) ++
    ascii ",\"ui\":" ++ logical (serverWebUiEnabled getenv) ++
    ascii ",\"build_info\":\"fortai-native\",\"is_sleeping\":false\x7d"

/-! ### Texts that may be written as they stand -/

/-- Nothing behind the value is open, so that a comma may follow. -/
def Closed (text : Bytes) : Prop := ∃ b, text.getLast? = some b ∧ b ≠ 123

theorem Closed.append_left {t : Bytes} (h : Closed t) (s : Bytes) : Closed (s ++ t) := by
  obtain ⟨b, hb, hne⟩ := h
  exact ⟨b, by rw [List.getLast?_append, hb, Option.some_or], hne⟩

theorem Closed.append_right {s t : Bytes} (h : Closed s) (ht : ∀ b ∈ t, b ≠ 123) : Closed (s ++ t) := by
  cases hlast : t.getLast? with
  | none =>
    rw [List.getLast?_eq_none_iff.mp hlast, List.append_nil]
    exact h
  | some b => exact ⟨b, by rw [List.getLast?_append, hlast, Option.some_or], ht b (List.mem_of_getLast? hlast)⟩

theorem closed_concat (s : Bytes) {b : Byte} (h : b ≠ 123) : Closed (s ++ [b]) :=
  ⟨b, List.getLast?_concat, h⟩

theorem closed_render (v : Json .value) : Closed v.render := by
  cases v with
  | literal l => cases l <;> exact ⟨_, rfl, by decide⟩
  | number n =>
    obtain ⟨b, rest, hn, hb, -⟩ := number_ne_nil n
    have hrest (c : Byte) (hc : c ∈ n.render) : c ≠ 123 := by
      rintro rfl
      exact absurd (numeric_render n 123 hc) (by decide)
    have hlast : n.render ≠ [] := hn ▸ List.cons_ne_nil b rest
    exact ⟨n.render.getLast hlast, List.getLast?_eq_some_getLast hlast, hrest _ (List.getLast_mem hlast)⟩
  | string s => exact closed_concat (34 :: s.raw) (by decide)
  | array gap elements =>
    show Closed (91 :: (gap.bytes ++ (elements.render ++ [93])))
    rw [← List.append_assoc, ← List.cons_append]
    exact closed_concat _ (by decide)
  | object gap l =>
    show Closed (123 :: (gap.bytes ++ (l.render ++ [125])))
    rw [← List.append_assoc, ← List.cons_append]
    exact closed_concat _ (by decide)

theorem gap_ne (g : Gap) : ∀ b ∈ g.bytes, b ≠ 123 := by
  rintro b hb rfl
  exact absurd (List.all_eq_true.mp g.blank 123 hb) (by decide)

theorem trim_append {s t : Bytes} (hne : t ≠ []) (h : space ∉ t) : trim (s ++ t) = s ++ t := by
  rw [trim, trimEnd, List.rdropWhile_eq_self_iff]
  intro hnil hlast
  rw [List.getLast_append_of_ne_nil hnil hne, decide_eq_true_eq] at hlast
  exact h (hlast ▸ List.getLast_mem hne)

/-- Behind the sign there is a digit. -/
theorem number_start (n : Number) : n.render.head? ≠ some 46 ∧ n.render.take 2 ≠ ascii "-." := by
  obtain ⟨d, ds, hint⟩ := List.exists_cons_of_ne_nil n.int.ne_nil
  have hd : isDigit d = true := List.all_eq_true.mp n.int.digit d (hint ▸ List.mem_cons_self)
  have hpoint : d ≠ 46 := by
    rintro rfl
    exact absurd hd (by decide)
  have hminus : d ≠ 45 := by
    rintro rfl
    exact absurd hd (by decide)
  have hsigned : ascii "-." = [45, 46] := by decide
  rw [Number.render, hint, hsigned]
  cases n.minus with
  | true => simp [hpoint]
  | false => simp [hpoint, hminus]

/-- A number needs no repair, whatever blanks stand before it. -/
theorem scalar_number (before : Gap) (n : Number) :
    scalar (before.bytes ++ n.render) = before.bytes ++ n.render := by
  have hspace : space ∉ n.render := fun h => absurd (numeric_render n space h) (by decide)
  have hne : n.render ≠ [] := by
    obtain ⟨b, rest, hn, -⟩ := number_ne_nil n
    exact hn ▸ List.cons_ne_nil b rest
  obtain ⟨hpoint, hsigned⟩ := number_start n
  rw [scalar, trim_append hne hspace, if_neg (List.append_ne_nil_of_right_ne_nil _ hne)]
  obtain ⟨bytes, hblank⟩ := before
  cases bytes with
  | nil => rw [List.nil_append, if_neg hpoint, if_neg hsigned]
  | cons c bytes =>
    have hc : isGap c = true := List.all_eq_true.mp hblank c List.mem_cons_self
    have hminus : ascii "-." = [45, 46] := by decide
    have hc46 : c ≠ 46 := by
      rintro rfl
      exact absurd hc (by decide)
    have hc45 : c ≠ 45 := by
      rintro rfl
      exact absurd hc (by decide)
    rw [if_neg, if_neg]
    · simp [hminus, hc45]
    · simpa using hc46

theorem wellFormed_number (before : Gap) (n : Number) : WellFormed (scalar (before.bytes ++ n.render)) :=
  ⟨before, .number n, default, by
    rw [scalar_number]
    exact congrArg (before.bytes ++ ·) (List.append_nil n.render).symm⟩

/-- The texts from the environment that may be written without quotes: a text that is replaced by the
fallback, or one that is a JSON value when it is repaired. -/
def Spliceable (value : Bytes) : Prop := value = [] ∨ 4096 < value.length ∨ WellFormed (scalar value)

/-- All settings that are written without quotes may be written so. -/
def Plain (getenv : Environment) : Prop :=
  ∀ key environment fallback, .setting key environment fallback false ∈ rows → Spliceable ((getenv environment).getD [])

/-! ### The reports are objects -/

/-- The text that is written for the value of a member. -/
def Row.value : Row → Bytes
  | .setting _ environment fallback true => jsonEscape (settingValue getenv environment fallback)
  | .setting _ environment fallback false => scalar (settingValue getenv environment fallback)
  | .context => signed service.contextSize
  | .cacheReuseSupported => logical service.cacheReuseSupported
  | .cacheReuseActive => logical service.cacheReuseActive
  | .cacheReuseTokens => signed service.cacheReuseCount

/-- The text of a member. -/
def Row.text (row : Row) : Bytes := ascii "\"" ++ ascii row.key ++ ascii "\":" ++ row.value getenv service

variable {getenv service}

/-- Behind a member another one follows a comma. -/
theorem appendRow_closed {result : Bytes} (h : Closed result) (row : Row) :
    appendRow getenv service result row = result ++ 44 :: row.text getenv service := by
  obtain ⟨b, hlast, hb⟩ := h
  have hopen : ¬ (result = [] ∨ result.getLast? = some 123) := by
    rintro (rfl | hopen)
    · exact absurd hlast (by simp)
    · exact hb (Option.some.inj (hlast.symm.trans hopen))
  cases row with
  | setting key environment fallback quoted =>
    cases quoted <;>
      simp [appendRow, appendSetting, hopen, Row.text, Row.value, Row.key]
  | context =>
    have hkey : ascii ",\"context\":" = 44 :: (ascii "\"" ++ ascii "context" ++ ascii "\":") := by decide
    simp [appendRow, hkey, Row.text, Row.value, Row.key]
  | cacheReuseSupported =>
    have hkey : ascii ",\"cache_reuse_supported\":" =
      44 :: (ascii "\"" ++ ascii "cache_reuse_supported" ++ ascii "\":") := by decide
    simp [appendRow, hkey, Row.text, Row.value, Row.key]
  | cacheReuseActive =>
    have hkey : ascii ",\"cache_reuse_active\":" =
      44 :: (ascii "\"" ++ ascii "cache_reuse_active" ++ ascii "\":") := by decide
    simp [appendRow, hkey, Row.text, Row.value, Row.key]
  | cacheReuseTokens =>
    have hkey : ascii ",\"cache_reuse_tokens\":" =
      44 :: (ascii "\"" ++ ascii "cache_reuse_tokens" ++ ascii "\":") := by decide
    simp [appendRow, hkey, Row.text, Row.value, Row.key]

/-- Nothing that has been written is changed. -/
theorem exists_foldl_appendRow (getenv : Environment) (service : Service) (l : List Row) (result : Bytes) :
    ∃ text, l.foldl (appendRow getenv service) result = result ++ text := by
  induction l generalizing result with
  | nil => exact ⟨[], (List.append_nil result).symm⟩
  | cons row rest ih =>
    have hrow : ∃ text, appendRow getenv service result row = result ++ text := by
      cases row with
      | setting key environment fallback quoted =>
        simp only [appendRow, appendSetting]
        split_ifs <;> exact ⟨_, by simp only [List.append_assoc]; rfl⟩
      | _ => exact ⟨_, List.append_assoc _ _ _⟩
    obtain ⟨text, htext⟩ := hrow
    obtain ⟨more, hmore⟩ := ih (result ++ text)
    exact ⟨text ++ more, by rw [List.foldl_cons, htext, hmore, List.append_assoc]⟩

/-- What is written for a member is the text of one. -/
def Written (getenv : Environment) (service : Service) (row : Row) : Prop :=
  ∃ e : Entry, e.key = row.key ∧ row.text getenv service = e.text

theorem Entry.closed (e : Entry) : Closed e.text :=
  ((((closed_render e.value).append_right (gap_ne e.after)).append_left e.before.bytes).append_left [58]).append_left
    (jsonEscape (ascii e.key))

theorem foldl_appendRow {l : List Row} (h : ∀ row ∈ l, Written getenv service row) {result : Bytes}
    (hresult : Closed result) :
    ∃ entries : List Entry, entries.map Entry.key = l.map Row.key ∧
      l.foldl (appendRow getenv service) result = result ++ entries.flatMap (44 :: ·.text) := by
  induction l generalizing result with
  | nil => exact ⟨[], rfl, (List.append_nil result).symm⟩
  | cons row rest ih =>
    obtain ⟨e, hkey, htext⟩ := h row List.mem_cons_self
    have hclosed : Closed (result ++ 44 :: e.text) := (e.closed.append_left [44]).append_left result
    obtain ⟨entries, hkeys, hfold⟩ := ih (fun r hr => h r (List.mem_cons_of_mem row hr)) hclosed
    refine ⟨e :: entries, congrArg₂ List.cons hkey hkeys, ?_⟩
    rw [List.foldl_cons, appendRow_closed hresult, htext, hfold, List.flatMap_cons, List.append_assoc]

/-- The names of the members need no escapes. -/
theorem jsonEscape_key {row : Row} (h : row ∈ rows) :
    jsonEscape (ascii row.key) = ascii "\"" ++ ascii row.key ++ ascii "\"" := by
  have hall : (rows.map Row.key).all
      (fun key => jsonEscape (ascii key) = ascii "\"" ++ ascii key ++ ascii "\"") = true := by decide +kernel
  exact of_decide_eq_true (List.all_eq_true.mp hall row.key (List.mem_map_of_mem h))

/-- The value of a member may have blanks around it. -/
theorem written_of_value {row : Row} (h : row ∈ rows) {before after : Gap} {v : Json .value}
    (hvalue : row.value getenv service = before.bytes ++ (v.render ++ after.bytes)) : Written getenv service row := by
  refine ⟨⟨row.key, before, v, after⟩, rfl, ?_⟩
  have hcolon : ascii "\":" = ascii "\"" ++ [58] := by decide
  rw [Row.text, Entry.text, jsonEscape_key h, hvalue, hcolon]
  simp only [List.append_assoc, List.singleton_append]

theorem written_of_render {row : Row} (h : row ∈ rows) {v : Json .value} (hvalue : row.value getenv service = v.render) :
    Written getenv service row := by
  have hblank : row.value getenv service = (default : Gap).bytes ++ (v.render ++ (default : Gap).bytes) :=
    hvalue.trans (List.append_nil _).symm
  exact written_of_value h hblank

def boolean (b : Bool) : Json .value := .literal (if b then .true else .false)

theorem render_boolean (b : Bool) : (boolean b).render = logical b := by cases b <;> rfl

/-- A decimal fraction. -/
def fraction (int : ℕ) (d : Digits) : Json .value :=
  .number ⟨false, Document.digits int, some d, none, decimal_of_head, Document.mark_none⟩

/-- The values that stand for settings which are not set. -/
def fallbacks : List (Json .value) :=
  [boolean true, boolean false, fraction 0 (Document.digits 8), fraction 0 (Document.digits 95),
    fraction 0 ⟨[48, 53], by decide, by decide⟩] ++ ([0, 1, 40, 64, 512, 2048] : List ℤ).map Document.number

/-- The text that is written without quotes when the setting is not set. -/
def Row.fallbackText : Row → Option Bytes
  | .setting _ _ fallback false => some (scalar (trim (ascii fallback)))
  | _ => none

theorem wellFormed_fallback {key environment fallback : String}
    (h : .setting key environment fallback false ∈ rows) : WellFormed (scalar (trim (ascii fallback))) := by
  have hall : (rows.filterMap Row.fallbackText).all (fun text => text ∈ fallbacks.map Json.render) = true := by
    decide +kernel
  have hmem := of_decide_eq_true (List.all_eq_true.mp hall _ (List.mem_filterMap.mpr ⟨_, h, rfl⟩))
  obtain ⟨v, -, hv⟩ := List.mem_map.mp hmem
  exact hv ▸ Document.wellFormed v

/-- Every member is written as one. -/
theorem written_of_plain (h : Plain getenv) {row : Row} (hrow : row ∈ rows) : Written getenv service row := by
  cases row with
  | setting key environment fallback quoted =>
    cases quoted with
    | true => exact written_of_render hrow (Document.render_string _).symm
    | false =>
      have hvalue : WellFormed (scalar (settingValue getenv environment fallback)) := by
        rw [settingValue]
        split_ifs with hfallback
        · exact wellFormed_fallback hrow
        · push Not at hfallback
          rcases h key environment fallback hrow with hnil | hlong | hvalue
          · exact absurd hnil hfallback.1
          · exact absurd hfallback.2 (not_le.mpr hlong)
          · exact hvalue
      obtain ⟨before, v, after, hv⟩ := hvalue
      exact written_of_value hrow hv
  | context => exact written_of_render hrow (Document.render_number _).symm
  | cacheReuseSupported => exact written_of_render hrow (render_boolean _).symm
  | cacheReuseActive => exact written_of_render hrow (render_boolean _).symm
  | cacheReuseTokens => exact written_of_render hrow (Document.render_number _).symm

/-- The report of the settings is an object, with the settings as its members. -/
theorem settingsJson_render (h : Plain getenv) (result : Bytes) : ∃ entries : List Entry,
    entries.map Entry.key = rows.map Row.key ∧
      serverSettingsJson getenv service result = result ++ (Json.object default (members entries)).render := by
  obtain ⟨rest, hrows⟩ : ∃ rest, rows = .setting "alias" "FORTAI_SERVER_ALIAS" "qwen" true :: rest := ⟨_, rfl⟩
  have hwritten (row : Row) (hrow : row ∈ .setting "alias" "FORTAI_SERVER_ALIAS" "qwen" true :: rest) :
      Written getenv service row := written_of_plain h (hrows ▸ hrow)
  obtain ⟨e, hkey, htext⟩ := hwritten _ List.mem_cons_self
  have hfirst : appendRow getenv service (result ++ [123]) (.setting "alias" "FORTAI_SERVER_ALIAS" "qwen" true) =
      result ++ 123 :: e.text := by
    rw [← htext]
    simp [appendRow, appendSetting, Row.text, Row.value, Row.key]
  have hclosed : Closed (result ++ 123 :: e.text) := (e.closed.append_left [123]).append_left result
  obtain ⟨entries, hkeys, hfold⟩ := foldl_appendRow (fun row hrow => hwritten row (List.mem_cons_of_mem _ hrow)) hclosed
  refine ⟨e :: entries, ?_, ?_⟩
  · rw [hrows]
    exact congrArg₂ List.cons hkey hkeys
  · show (rows.foldl _ _) ++ [125] = result ++ 123 :: ([] ++ ((members (e :: entries)).render ++ [125]))
    rw [hrows, List.foldl_cons, hfirst, hfold, render_members]
    simp only [List.append_assoc, List.cons_append, List.nil_append]

/-- The member `default_generation_settings`. -/
def generationTree (service : Service) (params : Json .value) : Json .value :=
  Document.object [("params", params), ("n_ctx", Document.number service.contextSize)]

/-- The member `modalities`. -/
def modalitiesTree : Json .value :=
  Document.object [("vision", boolean false), ("video", boolean false), ("audio", boolean false)]

/-- The answer to `GET /props` as a tree. -/
def propsTree (getenv : Environment) (service : Service) (readInteger : Bytes → ℤ → Option ℤ)
    (model modelPath : Bytes) (params : Json .value) : Json .value :=
  Document.object
    [("default_generation_settings", generationTree service params),
      ("total_slots", Document.number (serverIntegerDefault readInteger getenv "FORTAI_PARALLEL" 1)),
      ("model_alias", Document.string model),
      ("model_path", Document.string modelPath),
      ("modalities", modalitiesTree),
      ("endpoint_slots", boolean (serverBooleanDefault getenv "FORTAI_ENDPOINT_SLOTS" true)),
      ("endpoint_props", boolean (serverBooleanDefault getenv "FORTAI_ENDPOINT_PROPS" false)),
      ("endpoint_metrics", boolean (serverBooleanDefault getenv "FORTAI_METRICS" false)),
      ("ui", boolean (serverWebUiEnabled getenv)),
      ("build_info", Document.word "fortai-native"),
      ("is_sleeping", boolean false)]

/-- The answer to `GET /props` is an object. -/
theorem propsJson_render (h : Plain getenv) (readInteger : Bytes → ℤ → Option ℤ) (model modelPath : Bytes) :
    ∃ entries : List Entry, entries.map Entry.key = rows.map Row.key ∧
      serverPropsJson getenv service readInteger model modelPath =
        (propsTree getenv service readInteger model modelPath (.object default (members entries))).render := by
  obtain ⟨entries, hkeys, hsettings⟩ := settingsJson_render h
    (ascii "\x7b\"default_generation_settings\":\x7b\"params\":")
  refine ⟨entries, hkeys, ?_⟩
  -- the fixed texts between the values
  have hopening : ascii "\x7b\"default_generation_settings\":\x7b\"params\":" =
    123 :: (jsonEscape (ascii "default_generation_settings") ++ 58 :: 123 :: (jsonEscape (ascii "params") ++ [58])) := by
    decide
  have hcontext : ascii ",\"n_ctx\":" = 44 :: (jsonEscape (ascii "n_ctx") ++ [58]) := by decide
  have hslots : ascii "\x7d,\"total_slots\":" = 125 :: 44 :: (jsonEscape (ascii "total_slots") ++ [58]) := by decide
  have halias : ascii ",\"model_alias\":" = 44 :: (jsonEscape (ascii "model_alias") ++ [58]) := by decide
  have hpath : ascii ",\"model_path\":" = 44 :: (jsonEscape (ascii "model_path") ++ [58]) := by decide
  have hmodalities : ascii ",\"modalities\":\x7b\"vision\":false,\"video\":false,\"audio\":false\x7d" =
    44 :: (jsonEscape (ascii "modalities") ++ 58 :: modalitiesTree.render) := by decide
  have hendpoint : ascii ",\"endpoint_slots\":" = 44 :: (jsonEscape (ascii "endpoint_slots") ++ [58]) := by decide
  have hprops : ascii ",\"endpoint_props\":" = 44 :: (jsonEscape (ascii "endpoint_props") ++ [58]) := by decide
  have hmetrics : ascii ",\"endpoint_metrics\":" = 44 :: (jsonEscape (ascii "endpoint_metrics") ++ [58]) := by decide
  have hui : ascii ",\"ui\":" = 44 :: (jsonEscape (ascii "ui") ++ [58]) := by decide
  have hend : ascii ",\"build_info\":\"fortai-native\",\"is_sleeping\":false\x7d" =
    44 :: (jsonEscape (ascii "build_info") ++ 58 :: (jsonEscape (ascii "fortai-native") ++
      44 :: (jsonEscape (ascii "is_sleeping") ++ 58 :: (logical false ++ [125])))) := by decide
  delta serverPropsJson
  rw [hsettings]
  generalize (Json.object default (members entries)) = params
  simp only [propsTree, generationTree, Document.render_object, Document.fieldText, List.flatMap_cons, List.flatMap_nil, Document.render_number,
    Document.render_string, Document.word, render_boolean, hopening, hcontext, hslots, halias, hpath, hmodalities,
    hendpoint, hprops, hmetrics, hui, hend, List.append_assoc, List.cons_append, List.nil_append, List.append_nil]

/-- Every one of these names is the name of one member. -/
def Lists (keys : List String) (v : Json .value) : Prop := ∀ key ∈ keys, (names v).count (ascii key) = 1

/-- The members of the answer to `GET /props`. -/
def propsKeys : List String :=
  ["default_generation_settings", "total_slots", "model_alias", "model_path", "modalities", "endpoint_slots",
    "endpoint_props", "endpoint_metrics", "ui", "build_info", "is_sleeping"]

/-- The settings and the answer to `GET /props` are well-formed, with every member present once. -/
structure Published (getenv : Environment) (service : Service) (readInteger : Bytes → ℤ → Option ℤ)
    (model modelPath : Bytes) : Prop where
  settings : ∃ v : Json .value, serverSettingsJson getenv service [] = v.render ∧ Lists (rows.map Row.key) v
  props : ∃ v generation params modalities : Json .value,
    serverPropsJson getenv service readInteger model modelPath = v.render ∧ Lists propsKeys v ∧
      Document.field "default_generation_settings" v = some generation ∧ Lists ["params", "n_ctx"] generation ∧
      Document.field "params" generation = some params ∧ Lists (rows.map Row.key) params ∧
      Document.field "modalities" v = some modalities ∧ Lists ["vision", "video", "audio"] modalities

theorem lists_of_names {keys : List String} {v : Json .value} (h : names v = keys.map ascii)
    (hnodup : (keys.map ascii).Nodup) : Lists keys v := fun key hkey => by
  rw [h]
  exact List.count_eq_one_of_mem hnodup (List.mem_map_of_mem hkey)

theorem lists_settings {entries : List Entry} (h : entries.map Entry.key = rows.map Row.key) :
    Lists (rows.map Row.key) (.object default (members entries)) := by
  refine lists_of_names ?_ (by decide +kernel)
  rw [names_members, ← h, List.map_map]
  rfl

theorem field_head (key : String) (v : Json .value) (l : List (String × Json .value)) :
    Document.field key (Document.object ((key, v) :: l)) = some v := by
  rw [Document.field_object, List.find?_cons, decide_eq_true rfl, Option.map_some]

theorem field_tail {key other : String} (h : ascii other ≠ ascii key) (v : Json .value)
    (l : List (String × Json .value)) :
    Document.field key (Document.object ((other, v) :: l)) = Document.field key (Document.object l) := by
  rw [Document.field_object, List.find?_cons, decide_eq_false h, Document.field_object]

/-- With texts that may be written as they stand, everything that is published is well-formed. -/
theorem Plain.published (h : Plain getenv) (readInteger : Bytes → ℤ → Option ℤ) (model modelPath : Bytes) :
    Published getenv service readInteger model modelPath where
  settings := by
    obtain ⟨entries, hkeys, hrender⟩ := settingsJson_render h []
    exact ⟨_, hrender, lists_settings hkeys⟩
  props := by
    obtain ⟨entries, hkeys, hrender⟩ := propsJson_render h readInteger model modelPath
    refine ⟨_, generationTree service (.object default (members entries)), _, modalitiesTree, hrender,
      lists_of_names (names_object _) (by decide +kernel), ?_, lists_of_names (names_object _) (by decide +kernel), ?_,
      lists_settings hkeys, ?_, lists_of_names (names_object _) (by decide +kernel)⟩
    · rw [propsTree, field_head]
    · rw [generationTree, field_head]
    · rw [propsTree, field_tail (by decide), field_tail (by decide), field_tail (by decide), field_tail (by decide),
        field_head]

end Settings

end FortAI
