import FortAI.Http.Authorization
import FortAI.Settings.Options
import FortAI.Settings.Report

/-!
# The start of the server

`fortai_server` takes its configuration from the command line and from the environment, and it hands
most of it on in the environment.

* `startup` : the configuration and the environment with which the server starts; none when it does not.
* `given` : the text that the command line or the environment gives a setting.
* `startup_given` : the settings that are handed on are those that are given.
* `startup_numbers` : the settings that are written as numbers.
-/

namespace FortAI

namespace Settings

open CString Character Chat Http

/-- `server_config_t` -/
structure Config where
  model : Bytes := []
  host : Bytes := []
  servedAlias : Bytes := []
  port : ℤ := 8080
  contextSize : ℤ := 0
  threads : ℤ := 0
  gpuLayers : ℤ := 999
  mainGpu : ℤ := 0

/-- What the program relies on: list-directed input of an integer into a variable with that value, and
`fortai_server_online_cpus`. -/
structure Machine where
  readInteger : Bytes → ℤ → Option ℤ
  onlineCpus : ℤ

/-- `get_environment_variable`; a variable that is not set has no text. -/
def textOf (getenv : Environment) (name : String) : Bytes := (getenv name).getD []

/-- `set_environment` -/
def setEnvironment (name : String) (value : Bytes) (getenv : Environment) : Environment :=
  Function.update getenv name (some (trim value))

/-- Several calls of it. -/
def assignAll (l : List (String × Bytes)) (getenv : Environment) : Environment :=
  l.foldl (fun getenv e => setEnvironment e.1 e.2 getenv) getenv

variable (m : Machine)

/-! ### Variables that stand for others -/

/-- `import_environment_alias` -/
def importEnvironmentAlias (target source : String) (getenv : Environment) : Environment :=
  if textOf getenv target ≠ [] then getenv
  else
    let value := textOf getenv source
    let value :=
      if value = [] ∧ "FORTAI_".toList <+: target.toList ∧ 7 < target.length then
        textOf getenv (String.ofList ("LLAMACPP_".toList ++ target.toList.drop 7))
      else value
    let value :=
      if value = [] ∧ "LLAMA_ARG_".toList <+: source.toList ∧ 10 < source.length then
        textOf getenv (String.ofList ("LLAMACPP_".toList ++ source.toList.drop 10))
      else value
    if value = [] ∨ 4096 < value.length then getenv else setEnvironment target value getenv

/-- `import_threads_alias` -/
def importThreadsAlias (getenv : Environment) : Environment :=
  let value := textOf getenv "LLAMA_ARG_THREADS"
  if textOf getenv "FORTAI_THREADS" ≠ [] ∨ value = [] ∨ 64 < value.length then getenv
  else
    match m.readInteger value 0 with
    | none => getenv
    | some parsed => setEnvironment "FORTAI_THREADS" (signed (if parsed < 0 then 0 else parsed)) getenv

/-- `import_gpu_layers_alias` -/
def importGpuLayersAlias (getenv : Environment) : Environment :=
  let value := textOf getenv "LLAMA_ARG_N_GPU_LAYERS"
  if textOf getenv "FORTAI_GPU_LAYERS" ≠ [] ∨ value = [] ∨ 64 < value.length then getenv
  else if isOneOf value ["auto", "all"] then setEnvironment "FORTAI_GPU_LAYERS" (ascii "999") getenv
  else if isOneOf value ["none", "off"] then setEnvironment "FORTAI_GPU_LAYERS" (ascii "0") getenv
  else
    match m.readInteger value 0 with
    | none => getenv
    | some parsed => if parsed < 0 then getenv else setEnvironment "FORTAI_GPU_LAYERS" (signed parsed) getenv

/-- `import_inverse_boolean_alias` -/
def importInverseBooleanAlias (target source : String) (getenv : Environment) : Environment :=
  let value := textOf getenv source
  if textOf getenv target ≠ [] ∨ value = [] ∨ 64 < value.length then getenv
  else setEnvironment target (ascii (if isOneOf value ["0", "false", "off", "no"] then "1" else "0")) getenv

/-- `import_ui_alias` -/
def importUiAlias : Environment → Environment := importInverseBooleanAlias "FORTAI_NO_WEBUI" "LLAMA_ARG_UI"

/-- What a step of `import_llama_environment` does. -/
def Import.run (getenv : Environment) : Import → Environment
  | .environmentAlias target source => importEnvironmentAlias target source getenv
  | .inverse target source => importInverseBooleanAlias target source getenv
  | .threads => importThreadsAlias m getenv
  | .gpuLayers => importGpuLayersAlias m getenv
  | .ui => importUiAlias getenv

/-- `import_llama_environment` -/
def importLlamaEnvironment (getenv : Environment) : Environment := imports.foldl (Import.run m) getenv

/-! ### Defaults from the environment -/

/-- `load_text_environment`: the text, or what stood there. -/
def loadTextEnvironment (getenv : Environment) (names : List String) (limit : ℕ) (target : Bytes) : Bytes :=
  let value := firstSet getenv names
  if value = [] ∨ limit < value.length then target else value

/-- `load_integer_environment`; none when the text is not accepted. -/
def loadIntegerEnvironment (getenv : Environment) (primary secondary : String) (minimum maximum target : ℤ) :
    Option ℤ :=
  let value := firstSet getenv [primary, secondary]
  if value = [] then some target
  else if 64 < value.length then none
  else (m.readInteger value 0).filter fun candidate => minimum ≤ candidate ∧ candidate ≤ maximum

/-- `load_text_option` -/
def loadTextOption (getenv : Environment) (option : String × String) : Environment :=
  let value := firstSet getenv [option.1, option.2]
  if value = [] ∨ 4096 < value.length then getenv else setEnvironment option.1 value getenv

/-- The calls of `load_text_option` in `load_environment_defaults`. -/
def loadTextOptions (getenv : Environment) : Environment := textOptions.foldl loadTextOption getenv

/-- What `load_environment_defaults` takes into the configuration. -/
def loadConfig (getenv : Environment) (config : Config) : Option Config := do
  let host := loadTextEnvironment getenv ["FORTAI_SERVER_HOST", "LLAMACPP_HOST"] 4096 config.host
  let port ← loadIntegerEnvironment m getenv "FORTAI_SERVER_PORT" "LLAMACPP_PORT" 1 65535 config.port
  let context ← loadIntegerEnvironment m getenv "FORTAI_CONTEXT" "LLAMACPP_CONTEXT" 0 (2 ^ 20) config.contextSize
  let threads ← loadIntegerEnvironment m getenv "FORTAI_THREADS" "LLAMACPP_THREADS" 0 4096 config.threads
  let gpuLayers ←
    loadIntegerEnvironment m getenv "FORTAI_GPU_LAYERS" "LLAMACPP_GPU_LAYERS" 0 8192 config.gpuLayers
  let mainGpu ← loadIntegerEnvironment m getenv "FORTAI_MAIN_GPU" "LLAMACPP_MAIN_GPU" 0 255 config.mainGpu
  -- `load_alias_environment`
  let names := ["FORTAI_SERVER_ALIAS", "FORTAI_ALIAS", "LLAMACPP_SERVED_ALIAS", "LLAMACPP_MODEL_ALIAS"]
  some ⟨config.model, host, loadTextEnvironment getenv names 4096 config.servedAlias, port, context, threads,
    gpuLayers, mainGpu⟩

/-- The configuration before `load_environment_defaults`. -/
def initialConfig (getenv : Environment) : Config :=
  let names := ["FORTAI_SERVER_ALIAS", "LLAMACPP_SERVED_ALIAS", "LLAMACPP_MODEL_ALIAS"]
  let name := loadTextEnvironment getenv names 256 []
  { model := loadTextEnvironment getenv ["FORTAI_SERVER_MODEL", "LLAMACPP_MODEL"] 4096 []
    host := ascii "127.0.0.1"
    servedAlias := if name = [] then ascii "qwen" else name }

/-! ### The command line -/

/-- `argument_at` -/
def argumentAt (raw : Bytes) : Bytes := if 4096 < raw.length then [] else raw

/-- `parse_integer` -/
def parseInteger (argument : Bytes) (minimum maximum : ℤ) : Option ℤ :=
  (m.readInteger argument 0).filter fun value => minimum ≤ value ∧ value ≤ maximum

/-- `parse_thread_count` -/
def parseThreadCount (argument : Bytes) : Option ℤ :=
  ((m.readInteger argument 0).map fun value => if value = -1 then 0 else value).filter fun value =>
    0 ≤ value ∧ value ≤ 4096

/-- `parse_gpu_layers` -/
def parseGpuLayers (argument : Bytes) : Option ℤ :=
  if isOneOf argument ["auto", "all"] then some 999
  else if isOneOf argument ["none", "off"] then some 0
  else parseInteger m argument 0 8192

/-- `set_flag_environment` -/
def setFlagEnvironment (option : Bytes) (getenv : Environment) : Environment :=
  match flagSetting option with
  | none => getenv
  | some (name, value) => setEnvironment name value getenv

/-- The value of `--control-vector-layer-range`. -/
def layerRange (lower upper : Bytes) : Bytes := trim lower ++ 44 :: trim upper

/-- The loop of `parse_arguments`; none when it does not accept the arguments. -/
def parseLoop : List Bytes → Config → Environment → Option (Config × Environment)
  | [], config, getenv => some (config, getenv)
  | option :: rest, config, getenv =>
    match kind option, rest with
    | .stop, _ => none
    | .model, value :: rest => parseLoop rest { config with model := value } getenv
    | .host, value :: rest => parseLoop rest { config with host := value } getenv
    | .port, value :: rest =>
      match parseInteger m value 1 65535 with
      | none => none
      | some value => parseLoop rest { config with port := value } getenv
    | .context, value :: rest =>
      match parseInteger m value 0 (2 ^ 20) with
      | none => none
      | some value => parseLoop rest { config with contextSize := value } getenv
    | .threads, value :: rest =>
      match parseThreadCount m value with
      | none => none
      | some value => parseLoop rest { config with threads := value } getenv
    | .gpuLayers, value :: rest =>
      match parseGpuLayers m value with
      | none => none
      | some value => parseLoop rest { config with gpuLayers := value } getenv
    | .mainGpu, value :: rest =>
      match parseInteger m value 0 255 with
      | none => none
      | some value => parseLoop rest { config with mainGpu := value } getenv
    | .value, value :: rest => parseLoop rest config (setEnvironment (optionName option) value getenv)
    | .layerRange, lower :: upper :: rest =>
      parseLoop rest config
        (setEnvironment (optionName (ascii "--control-vector-layer-range")) (layerRange lower upper) getenv)
    | .servedAlias, value :: rest => parseLoop rest { config with servedAlias := value } getenv
    | .flag, rest => parseLoop rest config (setFlagEnvironment option getenv)
    | .other, rest =>
      if option = [] ∨ option.head? = some 45 ∨ config.model ≠ [] then none
      else parseLoop rest { config with model := option } getenv
    | _, _ => none

/-! ### The device -/

/-- `parse_device_index` -/
def parseDeviceIndex (value : Bytes) : Option ℤ :=
  let digits := ((trim value).dropWhile (!isDigit ·)).takeWhile isDigit
  if digits = [] then none
  else (m.readInteger digits 0).filter fun index => 0 ≤ index ∧ index ≤ 255

/-- `apply_device_selection` -/
def applyDeviceSelection (value : Bytes) (config : Config) (getenv : Environment) : Config × Environment :=
  if trim value = [] ∨ isOneOf value ["cpu", "host", "none"] then (config, getenv)
  else
    let comma := index value [44]
    let both := 1 < comma ∧ comma < (trim value).length
    let first := if both then trim (value.take (comma - 1)) else trim value
    let second := if both then trim (value.drop comma) else []
    let config := ((parseDeviceIndex m first).map fun device => { config with mainGpu := device }).getD config
    if 0 < comma then
      match parseDeviceIndex m second with
      | some device => (config, setEnvironment "FORTAI_CUDA_Q4_SECOND_DEVICE" (signed device) getenv)
      | none => (config, getenv)
    else (config, setEnvironment "FORTAI_CUDA_Q4_SPLIT" (ascii "0") getenv)

/-- The end of `parse_arguments`. -/
def selectDevice (config : Config) (getenv : Environment) : Config × Environment :=
  let device := textOf getenv "FORTAI_SERVER_DEVICE"
  if device = [] ∨ 4096 < device.length then (config, getenv)
  else
    let config := if isOneOf device ["cpu", "host", "none"] then { config with gpuLayers := 0 } else config
    applyDeviceSelection m device config getenv

/-! ### The start -/

/-- The variables that `configure_environment` sets. -/
def configured (config : Config) : List (String × Bytes) :=
  [("FORTAI_LLAMA_FASTPATH", ascii "native"),
    ("OMP_NUM_THREADS", signed config.threads),
    ("FORTAI_THREADS", signed config.threads),
    ("FORTAI_CONTEXT", signed config.contextSize),
    ("FORTAI_GPU_LAYERS", signed config.gpuLayers),
    ("FORTAI_MAIN_GPU", signed config.mainGpu),
    ("FORTAI_ENABLE_CUDA_GRAPH", ascii "1"),
    ("FORTAI_SERVER_ALIAS", config.servedAlias)]

/-- `configure_environment` -/
def configureEnvironment (config : Config) : Environment → Environment := assignAll (configured config)

/-- `parse_arguments` -/
def parseArguments (arguments : List Bytes) (getenv : Environment) : Option (Config × Environment) := do
  let getenv := importLlamaEnvironment m getenv
  let config ← loadConfig m getenv (initialConfig getenv)
  let parsed ← parseLoop m (arguments.map argumentAt) config (loadTextOptions getenv)
  let selected := selectDevice m parsed.1 parsed.2
  if selected.1.model = [] then none else some selected

/-- The number of threads that the service is started with. -/
def resolveThreads (config : Config) : Config :=
  let threads := if config.threads ≤ 0 then m.onlineCpus else config.threads
  { config with threads := if threads ≤ 0 then 1 else threads }

/-- The main program up to the start of the service. -/
def startup (arguments : List Bytes) (getenv : Environment) : Option (Config × Environment) := do
  let (config, getenv) ← parseArguments m arguments getenv
  some (resolveThreads m config, configureEnvironment (resolveThreads m config) getenv)

/-! ### What is given -/

/-- The variables that the command line sets, with their values. -/
def assigned : List Bytes → List (String × Bytes)
  | [] => []
  | option :: rest =>
    match kind option, rest with
    | .value, value :: rest => (optionName option, value) :: assigned rest
    | .layerRange, lower :: upper :: rest =>
      (optionName (ascii "--control-vector-layer-range"), layerRange lower upper) :: assigned rest
    | .flag, rest => (flagSetting option).toList ++ assigned rest
    | .other, rest => assigned rest
    | .stop, _ => []
    | .value, _ => []
    | .layerRange, _ => []
    | _, _ :: rest => assigned rest
    | _, [] => []

/-- The text that a variable has behind these assignments; none when none of them is to it. -/
def lastAssigned (l : List (String × Bytes)) (name : String) : Option Bytes :=
  (l.reverse.find? fun e => e.1 = name).map fun e => trim e.2

/-- The text that the command line gives a variable, or else the environment. -/
def given (arguments : List Bytes) (getenv : Environment) (name : String) : Option Bytes :=
  (lastAssigned (assigned (arguments.map argumentAt)) name).or (loadTextOptions (importLlamaEnvironment m getenv) name)

theorem assignAll_apply (l : List (String × Bytes)) (getenv : Environment) (name : String) :
    assignAll l getenv name = (lastAssigned l name).or (getenv name) := by
  induction l using List.reverseRecOn with
  | nil => rfl
  | append_singleton l e ih =>
    rw [assignAll, List.foldl_append, List.foldl_cons, List.foldl_nil, lastAssigned, List.reverse_append]
    show Function.update (assignAll l getenv) e.1 (some (trim e.2)) name = _
    by_cases hname : e.1 = name
    · subst hname
      simp
    · rw [Function.update_of_ne (Ne.symm hname), ih]
      simp [lastAssigned, hname]

theorem assignAll_cons (name : String) (value : Bytes) (l : List (String × Bytes)) (getenv : Environment) :
    assignAll ((name, value) :: l) getenv = assignAll l (setEnvironment name value getenv) := rfl

/-- The loop leaves the environment as the assignments do. -/
theorem parseLoop_env {arguments : List Bytes} {config config' : Config} {getenv getenv' : Environment}
    (h : parseLoop m arguments config getenv = some (config', getenv')) :
    getenv' = assignAll (assigned arguments) getenv := by
  fun_induction parseLoop m arguments config getenv with
  | case1 => cases h; rfl
  | case2 | case5 | case7 | case9 | case11 | case13 | case19 | case21 => cases h
  | case3 _ _ _ _ _ hkind ih | case4 _ _ _ _ _ hkind ih | case15 _ _ _ _ _ hkind ih | case17 _ _ _ _ _ hkind ih =>
    rw [assigned.eq_def]
    simp only [hkind]
    exact ih h
  | case6 _ _ _ _ _ hkind _ _ ih | case8 _ _ _ _ _ hkind _ _ ih | case10 _ _ _ _ _ hkind _ _ ih
  | case12 _ _ _ _ _ hkind _ _ ih | case14 _ _ _ _ _ hkind _ _ ih =>
    rw [assigned.eq_def]
    simp only [hkind]
    exact ih h
  | case16 _ _ _ _ _ _ hkind ih =>
    rw [assigned.eq_def]
    simp only [hkind]
    rw [assignAll_cons]
    exact ih h
  | case18 option _ getenv rest hkind ih =>
    have hflag : setFlagEnvironment option getenv = assignAll (flagSetting option).toList getenv := by
      rw [setFlagEnvironment]
      cases flagSetting option <;> rfl
    rw [assigned.eq_def]
    simp only [hkind]
    rw [assignAll, List.foldl_append]
    exact (ih h).trans (congrArg _ hflag)
  | case20 _ _ _ _ hkind _ ih =>
    rw [assigned.eq_def]
    simp only [hkind]
    exact ih h

/-! ### What the server starts with -/

/-- The variables that the server sets whatever is given. -/
def ownNames : List String :=
  ["FORTAI_CUDA_Q4_SECOND_DEVICE", "FORTAI_CUDA_Q4_SPLIT", "FORTAI_LLAMA_FASTPATH", "OMP_NUM_THREADS",
    "FORTAI_THREADS", "FORTAI_CONTEXT", "FORTAI_GPU_LAYERS", "FORTAI_MAIN_GPU", "FORTAI_ENABLE_CUDA_GRAPH",
    "FORTAI_SERVER_ALIAS"]

theorem setEnvironment_of_ne {name other : String} (h : other ≠ name) (value : Bytes) (getenv : Environment) :
    setEnvironment name value getenv other = getenv other :=
  Function.update_of_ne h _ _

theorem selectDevice_apply {name : String} (h : name ∉ ownNames) (config : Config) (getenv : Environment) :
    (selectDevice m config getenv).2 name = getenv name := by
  have hsecond : name ≠ "FORTAI_CUDA_Q4_SECOND_DEVICE" := fun heq => h (heq ▸ List.mem_cons_self)
  have hsplit : name ≠ "FORTAI_CUDA_Q4_SPLIT" := fun heq => h (heq ▸ List.mem_cons_of_mem _ List.mem_cons_self)
  have happly (value : Bytes) (config : Config) : (applyDeviceSelection m value config getenv).2 name = getenv name := by
    simp only [applyDeviceSelection]
    split_ifs
    all_goals
      first
      | rfl
      | exact setEnvironment_of_ne hsplit _ _
      | split <;> first | rfl | exact setEnvironment_of_ne hsecond _ _
  simp only [selectDevice]
  split_ifs
  · rfl
  · exact happly _ _
  · exact happly _ _

theorem configureEnvironment_of_not_mem {name : String} (h : name ∉ ownNames) (config : Config) (getenv : Environment) :
    configureEnvironment config getenv name = getenv name := by
  have hlast : lastAssigned (configured config) name = none := by
    rw [lastAssigned, List.find?_eq_none.mpr, Option.map_none]
    intro e he heq
    have hmem : name ∈ (configured config).map Prod.fst :=
      List.mem_map.mpr ⟨e, List.mem_reverse.mp he, of_decide_eq_true heq⟩
    have hnames : (configured config).map Prod.fst = ownNames.drop 2 := by
      simp only [configured, ownNames, List.map_cons, List.map_nil, List.drop_succ_cons, List.drop_zero]
    rw [hnames] at hmem
    exact h (List.mem_of_mem_drop hmem)
  rw [configureEnvironment, assignAll_apply, hlast, Option.none_or]

/-- The settings that the server does not make itself are those that are given. -/
theorem startup_given {arguments : List Bytes} {getenv getenv' : Environment} {config : Config}
    (h : startup m arguments getenv = some (config, getenv')) {name : String} (hname : name ∉ ownNames) :
    getenv' name = given m arguments getenv name := by
  rw [startup, Option.bind_eq_bind, Option.bind_eq_some_iff] at h
  obtain ⟨⟨selected, environment⟩, hparse, hstart⟩ := h
  simp only [parseArguments, Option.bind_eq_bind, Option.bind_eq_some_iff] at hparse
  obtain ⟨initial, -, ⟨parsed, looped⟩, hloop, hselect⟩ := hparse
  split_ifs at hselect
  have henvironment : environment = (selectDevice m parsed looped).2 :=
    (congrArg Prod.snd (Option.some.inj hselect)).symm
  obtain ⟨rfl, rfl⟩ := Prod.mk.inj (Option.some.inj hstart)
  rw [configureEnvironment_of_not_mem hname, henvironment, selectDevice_apply m hname,
    parseLoop_env m hloop, assignAll_apply, given]

/-- The numbers of the configuration are handed on as they are printed. -/
theorem startup_numbers {arguments : List Bytes} {getenv getenv' : Environment} {config : Config}
    (h : startup m arguments getenv = some (config, getenv')) :
    getenv' "FORTAI_THREADS" = some (signed config.threads) ∧
      getenv' "FORTAI_GPU_LAYERS" = some (signed config.gpuLayers) ∧
      getenv' "FORTAI_MAIN_GPU" = some (signed config.mainGpu) := by
  have hsigned (n : ℤ) : trim (signed n) = signed n := trim_eq_self (not_mem_signed (by decide) (by decide))
  rw [startup, Option.bind_eq_bind, Option.bind_eq_some_iff] at h
  obtain ⟨⟨selected, environment⟩, -, hstart⟩ := h
  obtain ⟨rfl, rfl⟩ := Prod.mk.inj (Option.some.inj hstart)
  refine ⟨?_, ?_, ?_⟩
  all_goals
    rw [configureEnvironment, assignAll_apply, ← hsigned]
    rfl

end Settings

end FortAI
