import FortAI.Chat.Arguments
import FortAI.Settings.Atomic
import FortAI.Settings.Startup

/-!
# The settings of a running server

The server starts with the settings from the command line and the environment, and `POST /props` changes
some of them.  What is published of them is well-formed as long as nobody gives it a text for a number
that is none.

* `spliceable_text` : what an update stores may be written as it stands.
* `Serving` : the environments in which requests are answered.
* `settings_published` : the reports of a server to which only such texts are given.
-/

namespace FortAI

namespace Settings

open CString Character Chat Http

/-! ### Numbers that an update stores -/

/-- Digits with zeros before them. -/
theorem padded_digit (k n : ℕ) : (List.replicate k 48 ++ decimal n).all isDigit = true := by
  rw [List.all_append, Bool.and_eq_true]
  exact ⟨List.all_eq_true.mpr fun b hb => by rw [List.eq_of_mem_replicate hb]; rfl,
    List.all_eq_true.mpr isDigit_of_mem_decimal⟩

/-- The blanks before a number. -/
def blanks (k : ℕ) : Gap :=
  ⟨List.replicate k space, List.all_eq_true.mpr fun b hb => by rw [List.eq_of_mem_replicate hb]; rfl⟩

/-- A number in scientific notation is one of JSON, with blanks before it. -/
theorem esText_eq (d : Scientific 16) : ∃ (before : Gap) (n : Number), esText d = before.bytes ++ n.render := by
  obtain ⟨digits, hdigits⟩ : ∃ digits, digits = List.replicate (17 - (decimal d.digits).length) 48 ++ decimal d.digits :=
    ⟨_, rfl⟩
  have hdigit : digits.all isDigit = true := hdigits ▸ padded_digit _ _
  have hlength : digits.length = 17 := by
    have hle := length_decimal_le (k := 17) (by decide) d.digits_lt
    rw [hdigits, List.length_append, List.length_replicate]
    omega
  obtain ⟨b, rest, hcons⟩ := List.exists_cons_of_length_pos (by omega : 0 < digits.length)
  rw [hcons, List.all_cons, Bool.and_eq_true] at hdigit
  have hrest : rest ≠ [] := by
    rintro rfl
    rw [hcons, List.length_singleton] at hlength
    exact absurd hlength (by decide)
  -- the exponent, with its sign
  obtain ⟨exponent, hexponent⟩ : ∃ exponent : Digits, exponentText d.exponent =
      69 :: ((if d.exponent < 0 then [45] else [43]) ++ exponent.bytes) := by
    refine ⟨⟨List.replicate (2 - (decimal d.exponent.natAbs).length) 48 ++ decimal d.exponent.natAbs,
      List.append_ne_nil_of_right_ne_nil _ (decimal_ne_nil _), padded_digit _ _⟩, ?_⟩
    rw [exponentText]
    split_ifs <;> rfl
  refine ⟨blanks (24 - ((if d.minus then [45] else []) ++ digits.take 1 ++ 46 :: digits.drop 1 ++
      exponentText d.exponent).length),
    ⟨d.minus, ⟨[b], List.cons_ne_nil _ _, by simpa using hdigit.1⟩, some ⟨rest, hrest, hdigit.2⟩,
      some (69, if d.exponent < 0 then [45] else [43], exponent), fun h => by simpa using h, fun e he => ?_⟩, ?_⟩
  · obtain rfl := Option.some.inj he
    refine ⟨.inr rfl, ?_⟩
    show (if d.exponent < 0 then [45] else [43]) = [] ∨ _
    split_ifs
    · exact .inr (.inr rfl)
    · exact .inr (.inl rfl)
  · rw [esText, ← hdigits, hcons, hexponent]
    rfl

theorem signed_eq (n : ℤ) : ∃ number : Number, signed n = number.render := by
  cases n with
  | ofNat n => exact ⟨_, (Document.render_number (.ofNat n)).symm⟩
  | negSucc n => exact ⟨_, (Document.render_number (.negSucc n)).symm⟩

theorem spliceable_signed (n : ℤ) : Spliceable (signed n) := by
  obtain ⟨number, hnumber⟩ := signed_eq n
  exact .inr (.inr (hnumber ▸ wellFormed_number default number))

section

variable {R D : Type} [Arithmetic R D] (m : Single R) (machine : Machine) (stores : String → Bytes → Bool)

/-- What an update stores may be written as it stands. -/
theorem spliceable_text (v : Setting R) : Spliceable (v.text m) := by
  cases v with
  | real x =>
    obtain ⟨before, number, hnumber⟩ := esText_eq (m.printed x)
    rw [Setting.text, hnumber]
    exact .inr (.inr (wellFormed_number before number))
  | integer n => exact spliceable_signed n

/-! ### Runs of the server -/

/-- The environments in which requests are answered: `fortai_http_transport_run` sets the mode of the
slots, and every update stores what it accepts. -/
inductive Serving (arguments : List Bytes) (initial : Environment) : Environment → Prop
  | start {config : Config} {getenv : Environment} {mode : String}
      (h : startup machine arguments initial = some (config, getenv))
      (hmode : mode = "process" ∨ mode = "serialized") :
      Serving arguments initial (setEnvironment "FORTAI_SLOT_MODE" (ascii mode) getenv)
  | update {getenv : Environment} (h : Serving arguments initial getenv) (body : Bytes) :
      Serving arguments initial (postProps m stores getenv body).2

/-- The settings that are written without quotes are given texts that may be written so; those that the
server makes itself are numbers in any case. -/
def Fair (arguments : List Bytes) (initial : Environment) : Prop :=
  ∀ key environment fallback, .setting key environment fallback false ∈ rows → environment ∉ ownNames →
    Spliceable ((given machine arguments initial environment).getD [])

/-- The variable of a setting that is written without quotes. -/
def Row.plainVariable : Row → Option String
  | .setting _ environment _ false => some environment
  | _ => none

/-- The numbers that the server makes itself. -/
def ownNumbers : List String := ["FORTAI_THREADS", "FORTAI_GPU_LAYERS", "FORTAI_MAIN_GPU"]

theorem plainVariable_cases {key environment fallback : String} (h : .setting key environment fallback false ∈ rows) :
    environment ≠ "FORTAI_SLOT_MODE" ∧ (environment ∈ ownNames → environment ∈ ownNumbers) := by
  have hall : (rows.filterMap Row.plainVariable).all
      (fun name => name ≠ "FORTAI_SLOT_MODE" ∧ (name ∈ ownNames → name ∈ ownNumbers)) = true := by decide +kernel
  exact of_decide_eq_true (List.all_eq_true.mp hall _ (List.mem_filterMap.mpr ⟨_, h, rfl⟩))

theorem plain_start {arguments : List Bytes} {initial getenv : Environment} {config : Config} {mode : String}
    (hfair : Fair machine arguments initial) (h : startup machine arguments initial = some (config, getenv)) :
    Plain (setEnvironment "FORTAI_SLOT_MODE" (ascii mode) getenv) := by
  intro key environment fallback hrow
  obtain ⟨hslot, hnumber⟩ := plainVariable_cases hrow
  rw [setEnvironment_of_ne hslot]
  by_cases hown : environment ∈ ownNames
  · obtain ⟨hthreads, hlayers, hgpu⟩ := startup_numbers machine h
    have hcases := hnumber hown
    simp only [ownNumbers, List.mem_cons, List.not_mem_nil, or_false] at hcases
    rcases hcases with rfl | rfl | rfl
    · exact hthreads ▸ spliceable_signed _
    · exact hlayers ▸ spliceable_signed _
    · exact hgpu ▸ spliceable_signed _
  · exact startup_given machine h hown ▸ hfair key environment fallback hrow hown

theorem plain_update {getenv : Environment} (h : Plain getenv) (body : Bytes) :
    Plain (postProps m stores getenv body).2 := by
  obtain ⟨-, hset, hkept⟩ := updateAll_eq m stores body nodup_all getenv
  intro key environment fallback hrow
  rw [postProps]
  split_ifs
  · by_cases hupdated : ∃ p ∈ updated m stores body Property.all, p.environment = environment
    · obtain ⟨p, hp, rfl⟩ := hupdated
      obtain ⟨v, -, hstored⟩ := stored_eq_some m stores (mem_of_mem_updated m stores body hp).2
      rw [hset p hp, hstored]
      exact spliceable_text m v
    · push Not at hupdated
      rw [hkept environment hupdated]
      exact h key environment fallback hrow
  · exact h key environment fallback hrow

theorem plain_serving {arguments : List Bytes} {initial getenv : Environment}
    (hfair : Fair machine arguments initial) (h : Serving m machine stores arguments initial getenv) : Plain getenv := by
  induction h with
  | start h _ => exact plain_start machine hfair h
  | update _ body ih => exact plain_update m stores ih body

/-- **The settings that are published** are well-formed, in every run of a server to which only texts are
given that may be written as they stand. -/
theorem settings_published {arguments : List Bytes} {initial getenv : Environment}
    (hfair : Fair machine arguments initial) (h : Serving m machine stores arguments initial getenv)
    (service : Service) (model modelPath : Bytes) : Published getenv service m.readInteger model modelPath :=
  (plain_serving m machine stores hfair h).published m.readInteger model modelPath

end

/-! ### A server in an empty environment -/

/-- The configuration with which the command line is read. -/
def bareConfig : Config := { host := ascii "127.0.0.1", servedAlias := ascii "qwen" }

theorem importLlamaEnvironment_empty (machine : Machine) : importLlamaEnvironment machine (fun _ => none) = fun _ => none := by
  have hnone (name : String) : textOf (fun _ => none) name = [] := rfl
  refine List.foldl_fixed' (fun i => ?_) imports
  cases i with
  | environmentAlias target source =>
    simp only [Import.run, importEnvironmentAlias, hnone, ne_eq, not_true_eq_false, ite_self, true_or, if_true]
  | inverse target source =>
    simp only [Import.run, importInverseBooleanAlias, hnone, true_or, or_true, if_true]
  | threads => simp only [Import.run, importThreadsAlias, hnone, true_or, or_true, if_true]
  | gpuLayers => simp only [Import.run, importGpuLayersAlias, hnone, true_or, or_true, if_true]
  | ui => simp only [Import.run, importUiAlias, importInverseBooleanAlias, hnone, true_or, or_true, if_true]

theorem loadTextOptions_empty : loadTextOptions (fun _ => none) = fun _ => none :=
  List.foldl_fixed' (fun option => by simp [loadTextOption, firstSet]) textOptions

theorem startup_empty (machine : Machine) {arguments : List Bytes} {config : Config} {getenv : Environment}
    (h : parseLoop machine (arguments.map argumentAt) bareConfig (fun _ => none) = some (config, getenv))
    (hmodel : config.model ≠ []) (hdevice : textOf getenv "FORTAI_SERVER_DEVICE" = []) :
    startup machine arguments (fun _ => none) =
      some (resolveThreads machine config, configureEnvironment (resolveThreads machine config) getenv) := by
  have hinitial : loadConfig machine (fun _ => none) (initialConfig fun _ => none) = some bareConfig := by
    simp [loadConfig, loadIntegerEnvironment, loadTextEnvironment, initialConfig, firstSet, bareConfig]
  have hselect : selectDevice machine config getenv = (config, getenv) := by
    rw [selectDevice, hdevice]
    rfl
  have hparse : parseArguments machine arguments (fun _ => none) = some (config, getenv) := by
    simp only [parseArguments, importLlamaEnvironment_empty, loadTextOptions_empty, hinitial, h, hselect, if_neg hmodel,
      Option.bind_eq_bind, Option.bind_some]
  rw [startup, hparse]
  rfl

/-- A machine with four processors, and input of integers without blanks. -/
def Sample.machine : Machine := ⟨fun text _ => Sample.readInteger text, 4⟩

/-- The configuration with a model. -/
def modelConfig : Config := { bareConfig with model := ascii "model.gguf" }

theorem kind_model : kind (ascii "-m") = .model := by decide +kernel

theorem parseLoop_model (machine : Machine) (rest : List Bytes) (getenv : Environment) :
    parseLoop machine (ascii "-m" :: ascii "model.gguf" :: rest) bareConfig getenv =
      parseLoop machine rest modelConfig getenv := by
  rw [parseLoop.eq_def]
  simp only [kind_model]
  rfl

/-- `-m model.gguf --parallel` and a value -/
def parallelArguments (value : Bytes) : List Bytes := [ascii "-m", ascii "model.gguf", ascii "--parallel", value]

/-- The environment that they lead to. -/
def parallelEnvironment (value : Bytes) : Environment :=
  configureEnvironment (resolveThreads Sample.machine modelConfig)
    (setEnvironment "FORTAI_PARALLEL" value fun _ => none)

theorem kind_parallel : kind (ascii "--parallel") = .value := by decide +kernel

theorem optionName_parallel : optionName (ascii "--parallel") = "FORTAI_PARALLEL" := by decide +kernel

theorem argumentAt_parallel {value : Bytes} (hvalue : value.length ≤ 4096) :
    (parallelArguments value).map argumentAt = parallelArguments value := by
  have hfixed : [ascii "-m", ascii "model.gguf", ascii "--parallel"].map argumentAt =
      [ascii "-m", ascii "model.gguf", ascii "--parallel"] := by decide
  have hargument : argumentAt value = value := if_neg (not_lt.mpr hvalue)
  show [ascii "-m", ascii "model.gguf", ascii "--parallel"].map argumentAt ++ [argumentAt value] = _
  rw [hfixed, hargument]
  rfl

theorem startup_parallel {value : Bytes} (hvalue : value.length ≤ 4096) :
    startup Sample.machine (parallelArguments value) (fun _ => none) =
      some (resolveThreads Sample.machine modelConfig, parallelEnvironment value) := by
  refine startup_empty Sample.machine ?_ (by decide) rfl
  rw [argumentAt_parallel hvalue, parallelArguments, parseLoop_model, parseLoop.eq_def]
  simp only [kind_parallel, optionName_parallel]
  rw [parseLoop.eq_def]

theorem fair_parallel {value : Bytes} (hvalue : value.length ≤ 4096) (h : Spliceable (trim value)) :
    Fair Sample.machine (parallelArguments value) fun _ => none := by
  have hassigned : assigned (parallelArguments value) = [("FORTAI_PARALLEL", value)] := by
    rw [parallelArguments, assigned.eq_def]
    simp only [kind_model]
    rw [assigned.eq_def]
    simp only [kind_parallel, optionName_parallel]
    rfl
  intro key environment fallback hrow hown
  rw [given, argumentAt_parallel hvalue, hassigned, importLlamaEnvironment_empty, loadTextOptions_empty]
  by_cases hname : "FORTAI_PARALLEL" = environment
  · subst hname
    exact h
  · have hlast : lastAssigned [("FORTAI_PARALLEL", value)] environment = none := by
      simp [lastAssigned, hname]
    rw [hlast]
    exact .inl rfl

/-- A server with four slots. -/
theorem settings_published_parallel :
    Published (setEnvironment "FORTAI_SLOT_MODE" (ascii "process") (parallelEnvironment (ascii "4")))
      ⟨4096, true, false, 0⟩ Sample.single.readInteger (ascii "qwen") (ascii "model.gguf") := by
  have hlength : (ascii "4").length ≤ 4096 := by decide
  have hfair : Fair Sample.machine (parallelArguments (ascii "4")) fun _ => none :=
    fair_parallel hlength (spliceable_signed 4)
  exact settings_published Sample.single Sample.machine (fun _ _ => true) hfair
    (.start (startup_parallel hlength) (.inl rfl)) _ _ _

/-- The text before `"slot_mode"`, when the number of slots is a bracket. -/
def bracketText : Bytes :=
  ascii ("\x7b\"alias\":\"qwen\",\"context\":4096,\"threads\":4,\"gpu_layers\":999,\"main_gpu\":0," ++
    "\"parallel\":\x7d")

/-- The bracket ends the object, and there is more text behind it. -/
theorem not_published_bracket : ¬ ∀ (arguments : List Bytes) (initial getenv : Environment),
    Serving Sample.single Sample.machine (fun _ _ => true) arguments initial getenv →
      ∀ (service : Service) (model modelPath : Bytes),
        Published getenv service Sample.single.readInteger model modelPath := by
  intro h
  obtain ⟨getenv, hgetenv⟩ : ∃ getenv, getenv =
      setEnvironment "FORTAI_SLOT_MODE" (ascii "process") (parallelEnvironment (ascii "\x7d")) := ⟨_, rfl⟩
  have hserving : Serving Sample.single Sample.machine (fun _ _ => true) (parallelArguments (ascii "\x7d"))
      (fun _ => none) getenv := hgetenv ▸ .start (startup_parallel (by decide)) (.inl rfl)
  obtain ⟨v, hv, -⟩ := (h _ _ getenv hserving ⟨4096, true, false, 0⟩ [] []).settings
  -- the first rows, and what the others append
  have hfirst : (rows.take 6).foldl (appendRow getenv ⟨4096, true, false, 0⟩) [123] = bracketText := by
    rw [hgetenv]
    decide +kernel
  obtain ⟨rest, hrest⟩ := exists_foldl_appendRow getenv ⟨4096, true, false, 0⟩ (rows.drop 6) bracketText
  have htext : serverSettingsJson getenv ⟨4096, true, false, 0⟩ [] = bracketText ++ (rest ++ [125]) := by
    rw [serverSettingsJson, ← List.take_append_drop 6 rows, List.foldl_append, List.nil_append, hfirst, hrest,
      List.append_assoc]
  have hends : jsonRawValue (bracketText ++ (rest ++ [125])) = some (bracketText, rest ++ [125]) := by
    generalize rest ++ [125] = behind
    have hfound : scanDelimiter 123 125 0 false false bracketText = some bracketText.length := by decide +kernel
    have hscan := scanDelimiter_take behind hfound
    rw [List.take_length] at hscan
    obtain ⟨tail, htail⟩ : ∃ tail, bracketText = 123 :: tail := ⟨_, rfl⟩
    have hmatch : matchingDelimiter (bracketText ++ behind) 123 125 = some bracketText.length := by
      rw [matchingDelimiter, hscan, htail]
      rfl
    have hvalue : jsonRawValue (bracketText ++ behind) = (matchingDelimiter (bracketText ++ behind) 123 125).map
        fun n => ((bracketText ++ behind).take n, (bracketText ++ behind).drop n) := by
      rw [htail]
      rfl
    rw [hvalue, hmatch, Option.map_some, List.take_left, List.drop_left]
  have hraw := jsonRawValue_render v (s := []) fun b hb => (by cases hb)
  rw [List.append_nil, ← hv, htext, hends] at hraw
  exact absurd (congrArg Prod.snd (Option.some.inj hraw)) (List.append_ne_nil_of_right_ne_nil _ (List.cons_ne_nil _ _))

end Settings

end FortAI
