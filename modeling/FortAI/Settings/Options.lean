import FortAI.Machine.Character

/-!
# The options of the server

The options of the command line and the variables of the environment that stand for them: the tables
that `parse_arguments`, `set_option_environment`, `set_flag_environment`, `load_environment_defaults` and
`import_llama_environment` are made of.

* `kind` : what an option takes.
* `optionName`, `flagSetting` : the variable that an option sets.
* `imports`, `textOptions` : the variables that others stand in for.
-/

namespace FortAI

namespace Settings

open CString Character

/-- `select case` with these labels. -/
def isOneOf (option : Bytes) (labels : List String) : Bool := labels.any fun label => same option (ascii label)

/-- The options with a value that `parse_arguments` hands to `set_option_environment`. -/
def valueOptions : List String :=
  ["--parallel", "-np", "--tensor-split", "-ts", "--split-mode", "-sm", "--model-draft", "--spec-type",
   "--spec-draft-model", "-md", "--spec-draft-n-max", "--flash-attn", "-fa", "--cache-type-k", "-ctk",
   "--cache-type-v", "-ctv", "--cache-type-k-draft", "--spec-draft-type-k", "-ctkd", "--cache-type-v-draft",
   "--spec-draft-type-v", "-ctvd", "--batch-size", "-b", "--ubatch-size", "-ub", "--fit", "-fit", "--cache-ram",
   "-cram", "--cache-reuse", "--n-cpu-moe", "--ncmoe", "-ncmoe", "--reasoning-budget", "--mmproj", "-mm",
   "--rpc", "--threads-http", "--load-mode", "-lm", "--mmproj-device", "-mmdev", "--temp", "--temperature",
   "--top-k", "--top-p", "--min-p", "--repeat-penalty", "--presence-penalty", "--frequency-penalty",
   "--repeat-last-n", "--seed", "-s", "--reasoning-format", "--reasoning", "-rea", "--reasoning-effort",
   "--threads-batch", "-tb", "--n-predict", "--predict", "-n", "--max-tokens", "--device", "-dev",
   "--chat-template-kwargs", "-C", "--cpu-mask", "-Cr", "--cpu-range", "--cpu-strict", "--prio", "--poll",
   "-Cb", "--cpu-mask-batch", "-Crb", "--cpu-range-batch", "--cpu-strict-batch", "--prio-batch", "--poll-batch",
   "--keep", "--rope-scaling", "--rope-scale", "--rope-freq-base", "--rope-freq-scale", "--yarn-orig-ctx",
   "--yarn-ext-factor", "--yarn-attn-factor", "--yarn-beta-slow", "--yarn-beta-fast", "-dt", "--defrag-thold",
   "--override-tensor", "-ot", "--fit-target", "-fitt", "--fit-ctx", "-fitc", "--numa", "--override-kv",
   "--lora", "--lora-scaled", "--control-vector", "--control-vector-scaled", "-mu", "--model-url", "-dr",
   "--docker-repo", "-hf", "-hfr", "--hf-repo", "-hff", "--hf-file", "-hfv", "-hfrv", "--hf-repo-v", "-hffv",
   "--hf-file-v", "-hft", "--hf-token", "--log-file", "--log-colors", "-lv", "--verbosity", "--log-verbosity",
   "--samplers", "--sampler-seq", "--sampling-seq", "--top-nsigma", "--top-n-sigma", "--xtc-probability",
   "--xtc-threshold", "--typical", "--typical-p", "--dry-multiplier", "--dry-base", "--dry-allowed-length",
   "--dry-penalty-last-n", "--dry-sequence-breaker", "--adaptive-target", "--adaptive-decay",
   "--dynatemp-range", "--dynatemp-exp", "--mirostat", "--mirostat-lr", "--mirostat-ent", "--logit-bias", "-l",
   "--grammar", "--grammar-file", "--json-schema", "-j", "--json-schema-file", "-jf", "-lcs",
   "--lookup-cache-static", "-lcd", "--lookup-cache-dynamic", "-ctxcp", "--ctx-checkpoints",
   "--swa-checkpoints", "-cms", "--checkpoint-min-step", "--reverse-prompt", "-r", "--pooling", "-mmu",
   "--mmproj-url", "--image-min-tokens", "--image-max-tokens", "--mtmd-batch-max-tokens", "--tags",
   "--embd-normalize", "--timeout", "-to", "--sse-ping-interval", "--slot-save-path", "--media-path",
   "--models-dir", "--models-preset", "--models-max", "--reasoning-budget-message", "--chat-template",
   "--chat-template-file", "--slot-prompt-similarity", "-sps", "--sleep-idle-seconds", "--api-key",
   "--api-key-file", "--ssl-key-file", "--ssl-cert-file", "--path", "--api-prefix", "--cors-origins",
   "--cors-methods", "--cors-headers", "--tools-runtime", "--mcp-servers-config", "--mcp-servers-json",
   "--ui-config", "--webui-config", "--ui-config-file", "--webui-config-file", "--tools", "--log-prompts-dir",
   "--spec-draft-hf", "-hfd", "-hfrd", "--hf-repo-draft", "--spec-draft-threads", "-td", "--threads-draft",
   "--spec-draft-threads-batch", "-tbd", "--threads-batch-draft", "--spec-draft-cpu-mask", "-Cd",
   "--cpu-mask-draft", "--spec-draft-cpu-range", "-Crd", "--cpu-range-draft", "--spec-draft-cpu-strict",
   "--cpu-strict-draft", "--spec-draft-prio", "--prio-draft", "--spec-draft-poll", "--poll-draft",
   "--spec-draft-cpu-mask-batch", "-Cbd", "--cpu-mask-batch-draft", "--spec-draft-cpu-strict-batch",
   "--cpu-strict-batch-draft", "--spec-draft-prio-batch", "--prio-batch-draft", "--spec-draft-poll-batch",
   "--poll-batch-draft", "--spec-draft-override-tensor", "-otd", "--override-tensor-draft",
   "--spec-draft-n-cpu-moe", "--spec-draft-ncmoe", "-ncmoed", "--n-cpu-moe-draft", "--spec-draft-n-min",
   "--spec-draft-p-split", "--draft-p-split", "--spec-draft-p-min", "--draft-p-min", "--spec-draft-device",
   "-devd", "--device-draft", "--spec-draft-ngl", "-ngld", "--gpu-layers-draft", "--n-gpu-layers-draft",
   "--spec-ngram-mod-n-min", "--spec-ngram-mod-n-max", "--spec-ngram-mod-n-match", "--spec-ngram-simple-size-n",
   "--spec-ngram-simple-size-m", "--spec-ngram-simple-min-hits", "--spec-ngram-map-k-size-n",
   "--spec-ngram-map-k-size-m", "--spec-ngram-map-k-min-hits", "--spec-ngram-map-k4v-size-n",
   "--spec-ngram-map-k4v-size-m", "--spec-ngram-map-k4v-min-hits", "--draft", "--draft-n", "--draft-max",
   "--draft-min", "--draft-n-min", "--spec-ngram-size-n", "--spec-ngram-size-m", "--spec-ngram-min-hits", "-mv",
   "--model-vocoder"]

/-- The options without value that `parse_arguments` hands to `set_flag_environment`. -/
def flagOptions : List String :=
  ["--jinja", "--no-jinja", "--mmap", "--no-mmap", "--mlock", "--kv-offload", "--no-kv-offload",
   "--context-shift", "--no-context-shift", "--metrics", "--log-timestamps", "--mmproj-offload",
   "--no-mmproj-offload", "--webui", "--no-ui", "--no-webui", "--op-offload", "--no-op-offload",
   "--reasoning-preserve", "--no-reasoning-preserve", "--ui", "--swa-full", "--perf", "--no-perf", "-e",
   "--escape", "--no-escape", "--repack", "-nr", "--no-repack", "--no-host", "--direct-io", "-dio",
   "--no-direct-io", "-ndio", "--check-tensors", "--cpu-moe", "-cmoe", "--log-disable", "-v", "--verbose",
   "--log-verbose", "--offline", "--log-prefix", "--no-log-prefix", "--no-log-timestamps", "-kvo", "-nkvo",
   "--spec-draft-backend-sampling", "--no-spec-draft-backend-sampling", "--tts-use-guide-tokens",
   "--spec-draft-cpu-moe", "-cmoed", "--cpu-moe-draft", "--embd-gemma-default", "--fim-qwen-1",
   "--fim-qwen-1.5b-default", "--fim-qwen-3b-default", "--fim-qwen-7b-default", "--fim-qwen-7b-spec",
   "--fim-qwen-14b-spec", "--fim-qwen-30b-default", "--gpt-oss-20b-default", "--gpt-oss-120b-default",
   "--vision-gemma-4b-default", "--vision-gemma-12b-default", "--spec-default", "-kvu", "--kv-unified",
   "-no-kvu", "--no-kv-unified", "--cache-idle-slots", "--no-cache-idle-slots", "--warmup", "--no-warmup",
   "-sp", "--special", "--spm-infill", "-cb", "--cont-batching", "-nocb", "--no-cont-batching", "--mmproj-auto",
   "--no-mmproj", "--no-mmproj-auto", "--ui-mcp-proxy", "--webui-mcp-proxy", "--no-ui-mcp-proxy",
   "--no-webui-mcp-proxy", "-ag", "--agent", "-no-ag", "--no-agent", "--embedding", "--embeddings", "--rerank",
   "--reranking", "--reuse-port", "--props", "--slots", "--no-slots", "--cache-prompt", "--no-cache-prompt",
   "--prefill-assistant", "--no-prefill-assistant", "--skip-chat-parsing", "--no-skip-chat-parsing",
   "--ignore-eos", "--cors-credentials", "--no-cors-credentials", "-bs", "--backend-sampling",
   "--lora-init-without-apply", "--models-autoload", "--no-models-autoload"]

/-- What an option takes.  The options of `stop` ask for a text, and no server is started. -/
inductive OptionKind
  | stop | model | host | port | context | threads | gpuLayers | mainGpu | value | layerRange | servedAlias | flag
  | other
  deriving DecidableEq

/-- The branches of `parse_arguments`. -/
def kind (option : Bytes) : OptionKind :=
  if isOneOf option
    ["--help", "-h", "--usage", "--version", "--list-devices", "-cl", "--cache-list", "--completion-bash"] then .stop
  else if isOneOf option ["-m", "--model"] then .model
  else if isOneOf option ["--host"] then .host
  else if isOneOf option ["--port"] then .port
  else if isOneOf option ["-c", "--ctx-size"] then .context
  else if isOneOf option ["-t", "--threads"] then .threads
  else if isOneOf option ["-ngl", "--n-gpu-layers", "--gpu-layers"] then .gpuLayers
  else if isOneOf option ["--main-gpu", "-mg"] then .mainGpu
  else if isOneOf option valueOptions then .value
  else if isOneOf option ["--control-vector-layer-range"] then .layerRange
  else if isOneOf option ["--alias", "-a", "--served-model-name"] then .servedAlias
  else if isOneOf option flagOptions then .flag
  else .other

/-- The branches of `set_option_environment`. -/
def optionNames : List (List String × String) :=
  [(["--parallel", "-np"], "FORTAI_PARALLEL"), (["--tensor-split", "-ts"], "FORTAI_TENSOR_SPLIT"),
   (["--split-mode", "-sm"], "FORTAI_SPLIT_MODE"),
   (["--model-draft", "--spec-draft-model", "-md"], "FORTAI_DRAFT_MODEL"),
   (["--spec-type"], "FORTAI_SPEC_TYPE"), (["--spec-draft-n-max"], "FORTAI_SPEC_DRAFT_N_MAX"),
   (["--flash-attn", "-fa"], "FORTAI_FLASH_ATTN"), (["--cache-type-k", "-ctk"], "FORTAI_CACHE_TYPE_K"),
   (["--cache-type-v", "-ctv"], "FORTAI_CACHE_TYPE_V"),
   (["--cache-type-k-draft", "--spec-draft-type-k", "-ctkd"], "FORTAI_CACHE_TYPE_K_DRAFT"),
   (["--cache-type-v-draft", "--spec-draft-type-v", "-ctvd"], "FORTAI_CACHE_TYPE_V_DRAFT"),
   (["--ubatch-size", "-ub"], "FORTAI_UBATCH"), (["--batch-size", "-b"], "FORTAI_BATCH"),
   (["--cache-ram", "-cram"], "FORTAI_CACHE_RAM"), (["--cache-reuse"], "FORTAI_CACHE_REUSE"),
   (["--n-cpu-moe", "--ncmoe", "-ncmoe"], "FORTAI_N_CPU_MOE"),
   (["--reasoning-budget"], "FORTAI_REASONING_BUDGET"), (["--reasoning-effort"], "FORTAI_REASONING_EFFORT"),
   (["--reasoning", "-rea"], "FORTAI_REASONING"), (["--mmproj", "-mm"], "FORTAI_MMPROJ"),
   (["--rpc"], "FORTAI_RPC"), (["--threads-http"], "FORTAI_THREADS_HTTP"),
   (["--load-mode", "-lm"], "FORTAI_LOAD_MODE"), (["--mmproj-device", "-mmdev"], "MTMD_BACKEND_DEVICE"),
   (["--fit", "-fit"], "FORTAI_FIT"), (["--chat-template-kwargs"], "FORTAI_CHAT_TEMPLATE_KWARGS"),
   (["--temp", "--temperature"], "FORTAI_TEMPERATURE"), (["--top-k"], "FORTAI_TOP_K"),
   (["--top-p"], "FORTAI_TOP_P"), (["--min-p"], "FORTAI_MIN_P"),
   (["--repeat-penalty"], "FORTAI_REPEAT_PENALTY"), (["--presence-penalty"], "FORTAI_PRESENCE_PENALTY"),
   (["--frequency-penalty"], "FORTAI_FREQUENCY_PENALTY"), (["--repeat-last-n"], "FORTAI_REPEAT_LAST_N"),
   (["--seed", "-s"], "FORTAI_SEED"), (["--reasoning-format"], "FORTAI_REASONING_FORMAT"),
   (["--threads-batch", "-tb"], "FORTAI_THREADS_BATCH"),
   (["--n-predict", "--predict", "-n", "--max-tokens"], "FORTAI_MAX_TOKENS"),
   (["--device", "-dev"], "FORTAI_SERVER_DEVICE"), (["-C", "--cpu-mask"], "FORTAI_CPU_MASK"),
   (["-Cr", "--cpu-range"], "FORTAI_CPU_RANGE"), (["--cpu-strict"], "FORTAI_CPU_STRICT"),
   (["--prio"], "FORTAI_PRIO"), (["--poll"], "FORTAI_POLL"),
   (["-Cb", "--cpu-mask-batch"], "FORTAI_CPU_MASK_BATCH"),
   (["-Crb", "--cpu-range-batch"], "FORTAI_CPU_RANGE_BATCH"),
   (["--cpu-strict-batch"], "FORTAI_CPU_STRICT_BATCH"), (["--prio-batch"], "FORTAI_PRIO_BATCH"),
   (["--poll-batch"], "FORTAI_POLL_BATCH"), (["--keep"], "FORTAI_KEEP"),
   (["--rope-scaling"], "FORTAI_ROPE_SCALING_TYPE"), (["--rope-scale"], "FORTAI_ROPE_SCALE"),
   (["--rope-freq-base"], "FORTAI_ROPE_FREQ_BASE"), (["--rope-freq-scale"], "FORTAI_ROPE_FREQ_SCALE"),
   (["--yarn-orig-ctx"], "FORTAI_YARN_ORIG_CTX"), (["--yarn-ext-factor"], "FORTAI_YARN_EXT_FACTOR"),
   (["--yarn-attn-factor"], "FORTAI_YARN_ATTN_FACTOR"), (["--yarn-beta-slow"], "FORTAI_YARN_BETA_SLOW"),
   (["--yarn-beta-fast"], "FORTAI_YARN_BETA_FAST"), (["-dt", "--defrag-thold"], "FORTAI_DEFRAG_THOLD"),
   (["--numa"], "FORTAI_NUMA"), (["--override-tensor", "-ot"], "FORTAI_OVERRIDE_TENSOR"),
   (["--fit-target", "-fitt"], "FORTAI_FIT_TARGET"), (["--fit-ctx", "-fitc"], "FORTAI_FIT_CTX"),
   (["--override-kv"], "FORTAI_OVERRIDE_KV"), (["--lora"], "FORTAI_LORA"),
   (["--lora-scaled"], "FORTAI_LORA_SCALED"), (["--control-vector"], "FORTAI_CONTROL_VECTOR"),
   (["--control-vector-scaled"], "FORTAI_CONTROL_VECTOR_SCALED"),
   (["--control-vector-layer-range"], "FORTAI_CONTROL_VECTOR_LAYER_RANGE"),
   (["-mu", "--model-url"], "FORTAI_MODEL_URL"), (["-dr", "--docker-repo"], "FORTAI_DOCKER_REPO"),
   (["-hf", "-hfr", "--hf-repo"], "FORTAI_HF_REPO"), (["-hff", "--hf-file"], "FORTAI_HF_FILE"),
   (["-hfv", "-hfrv", "--hf-repo-v"], "FORTAI_HF_REPO_V"), (["-hffv", "--hf-file-v"], "FORTAI_HF_FILE_V"),
   (["-hft", "--hf-token"], "HF_TOKEN"), (["--log-file"], "FORTAI_LOG_FILE"),
   (["--log-colors"], "FORTAI_LOG_COLORS"), (["-lv", "--verbosity", "--log-verbosity"], "FORTAI_LOG_VERBOSITY"),
   (["--samplers"], "FORTAI_SAMPLERS"), (["--sampler-seq", "--sampling-seq"], "FORTAI_SAMPLING_SEQ"),
   (["--top-nsigma", "--top-n-sigma"], "FORTAI_TOP_N_SIGMA"), (["--xtc-probability"], "FORTAI_XTC_PROBABILITY"),
   (["--xtc-threshold"], "FORTAI_XTC_THRESHOLD"), (["--typical", "--typical-p"], "FORTAI_TYPICAL_P"),
   (["--dry-multiplier"], "FORTAI_DRY_MULTIPLIER"), (["--dry-base"], "FORTAI_DRY_BASE"),
   (["--dry-allowed-length"], "FORTAI_DRY_ALLOWED_LENGTH"),
   (["--dry-penalty-last-n"], "FORTAI_DRY_PENALTY_LAST_N"),
   (["--dry-sequence-breaker"], "FORTAI_DRY_SEQUENCE_BREAKER"),
   (["--adaptive-target"], "FORTAI_ADAPTIVE_TARGET"), (["--adaptive-decay"], "FORTAI_ADAPTIVE_DECAY"),
   (["--dynatemp-range"], "FORTAI_DYNATEMP_RANGE"), (["--dynatemp-exp"], "FORTAI_DYNATEMP_EXP"),
   (["--mirostat"], "FORTAI_MIROSTAT"), (["--mirostat-lr"], "FORTAI_MIROSTAT_LR"),
   (["--mirostat-ent"], "FORTAI_MIROSTAT_ENT"), (["--logit-bias", "-l"], "FORTAI_LOGIT_BIAS"),
   (["--grammar"], "FORTAI_GRAMMAR"), (["--grammar-file"], "FORTAI_GRAMMAR_FILE"),
   (["--json-schema", "-j"], "FORTAI_JSON_SCHEMA"), (["--json-schema-file", "-jf"], "FORTAI_JSON_SCHEMA_FILE"),
   (["-lcs", "--lookup-cache-static"], "FORTAI_LOOKUP_CACHE_STATIC"),
   (["-lcd", "--lookup-cache-dynamic"], "FORTAI_LOOKUP_CACHE_DYNAMIC"),
   (["-ctxcp", "--ctx-checkpoints", "--swa-checkpoints"], "FORTAI_CTX_CHECKPOINTS"),
   (["-cms", "--checkpoint-min-step"], "FORTAI_CHECKPOINT_MIN_SPACING_NT"),
   (["--reverse-prompt", "-r"], "FORTAI_REVERSE_PROMPT"), (["--pooling"], "FORTAI_POOLING"),
   (["-mmu", "--mmproj-url"], "FORTAI_MMPROJ_URL"), (["--image-min-tokens"], "FORTAI_IMAGE_MIN_TOKENS"),
   (["--image-max-tokens"], "FORTAI_IMAGE_MAX_TOKENS"),
   (["--mtmd-batch-max-tokens"], "FORTAI_MTMD_BATCH_MAX_TOKENS"), (["--tags"], "FORTAI_TAGS"),
   (["--embd-normalize"], "FORTAI_EMBD_NORMALIZE"), (["--timeout", "-to"], "FORTAI_TIMEOUT"),
   (["--sse-ping-interval"], "FORTAI_SSE_PING_INTERVAL"), (["--slot-save-path"], "FORTAI_SLOT_SAVE_PATH"),
   (["--media-path"], "FORTAI_MEDIA_PATH"), (["--models-dir"], "FORTAI_MODELS_DIR"),
   (["--models-preset"], "FORTAI_MODELS_PRESET"), (["--models-max"], "FORTAI_MODELS_MAX"),
   (["--reasoning-budget-message"], "FORTAI_REASONING_BUDGET_MESSAGE"),
   (["--chat-template"], "FORTAI_CHAT_TEMPLATE"), (["--chat-template-file"], "FORTAI_CHAT_TEMPLATE_FILE"),
   (["--slot-prompt-similarity", "-sps"], "FORTAI_SLOT_PROMPT_SIMILARITY"),
   (["--sleep-idle-seconds"], "FORTAI_SLEEP_IDLE_SECONDS"), (["--api-key"], "LLAMA_API_KEY"),
   (["--api-key-file"], "FORTAI_API_KEY_FILE"), (["--ssl-key-file"], "FORTAI_SSL_KEY_FILE"),
   (["--ssl-cert-file"], "FORTAI_SSL_CERT_FILE"), (["--path"], "FORTAI_STATIC_PATH"),
   (["--api-prefix"], "FORTAI_API_PREFIX"), (["--cors-origins"], "FORTAI_CORS_ORIGINS"),
   (["--cors-methods"], "FORTAI_CORS_METHODS"), (["--cors-headers"], "FORTAI_CORS_HEADERS"),
   (["--tools-runtime"], "FORTAI_TOOLS_RUNTIME"), (["--mcp-servers-config"], "FORTAI_MCP_SERVERS_CONFIG"),
   (["--mcp-servers-json"], "FORTAI_MCP_SERVERS_JSON"), (["--ui-config", "--webui-config"], "FORTAI_UI_CONFIG"),
   (["--ui-config-file", "--webui-config-file"], "FORTAI_UI_CONFIG_FILE"), (["--tools"], "FORTAI_TOOLS"),
   (["--log-prompts-dir"], "FORTAI_LOG_PROMPTS_DIR"),
   (["--spec-draft-hf", "-hfd", "-hfrd", "--hf-repo-draft"], "FORTAI_SPEC_DRAFT_HF"),
   (["--spec-draft-threads", "-td", "--threads-draft"], "FORTAI_SPEC_DRAFT_THREADS"),
   (["--spec-draft-threads-batch", "-tbd", "--threads-batch-draft"], "FORTAI_SPEC_DRAFT_THREADS_BATCH"),
   (["--spec-draft-cpu-mask", "-Cd", "--cpu-mask-draft"], "FORTAI_SPEC_DRAFT_CPU_MASK"),
   (["--spec-draft-cpu-range", "-Crd", "--cpu-range-draft"], "FORTAI_SPEC_DRAFT_CPU_RANGE"),
   (["--spec-draft-cpu-strict", "--cpu-strict-draft"], "FORTAI_SPEC_DRAFT_CPU_STRICT"),
   (["--spec-draft-prio", "--prio-draft"], "FORTAI_SPEC_DRAFT_PRIO"),
   (["--spec-draft-poll", "--poll-draft"], "FORTAI_SPEC_DRAFT_POLL"),
   (["--spec-draft-cpu-mask-batch", "-Cbd", "--cpu-mask-batch-draft"], "FORTAI_SPEC_DRAFT_CPU_MASK_BATCH"),
   (["--spec-draft-cpu-strict-batch", "--cpu-strict-batch-draft"], "FORTAI_SPEC_DRAFT_CPU_STRICT_BATCH"),
   (["--spec-draft-prio-batch", "--prio-batch-draft"], "FORTAI_SPEC_DRAFT_PRIO_BATCH"),
   (["--spec-draft-poll-batch", "--poll-batch-draft"], "FORTAI_SPEC_DRAFT_POLL_BATCH"),
   (["--spec-draft-override-tensor", "-otd", "--override-tensor-draft"], "FORTAI_SPEC_DRAFT_OVERRIDE_TENSOR"),
   (["--spec-draft-n-cpu-moe", "--spec-draft-ncmoe", "-ncmoed", "--n-cpu-moe-draft"], "FORTAI_SPEC_DRAFT_N_CPU_MOE"),
   (["--spec-draft-n-min"], "FORTAI_SPEC_DRAFT_N_MIN"),
   (["--spec-draft-p-split", "--draft-p-split"], "FORTAI_SPEC_DRAFT_P_SPLIT"),
   (["--spec-draft-p-min", "--draft-p-min"], "FORTAI_SPEC_DRAFT_P_MIN"),
   (["--spec-draft-device", "-devd", "--device-draft"], "FORTAI_SPEC_DRAFT_DEVICE"),
   (["--spec-draft-ngl", "-ngld", "--gpu-layers-draft", "--n-gpu-layers-draft"], "FORTAI_SPEC_DRAFT_N_GPU_LAYERS"),
   (["--spec-ngram-mod-n-min"], "FORTAI_SPEC_NGRAM_MOD_N_MIN"),
   (["--spec-ngram-mod-n-max"], "FORTAI_SPEC_NGRAM_MOD_N_MAX"),
   (["--spec-ngram-mod-n-match"], "FORTAI_SPEC_NGRAM_MOD_N_MATCH"),
   (["--spec-ngram-simple-size-n"], "FORTAI_SPEC_NGRAM_SIMPLE_SIZE_N"),
   (["--spec-ngram-simple-size-m"], "FORTAI_SPEC_NGRAM_SIMPLE_SIZE_M"),
   (["--spec-ngram-simple-min-hits"], "FORTAI_SPEC_NGRAM_SIMPLE_MIN_HITS"),
   (["--spec-ngram-map-k-size-n"], "FORTAI_SPEC_NGRAM_MAP_K_SIZE_N"),
   (["--spec-ngram-map-k-size-m"], "FORTAI_SPEC_NGRAM_MAP_K_SIZE_M"),
   (["--spec-ngram-map-k-min-hits"], "FORTAI_SPEC_NGRAM_MAP_K_MIN_HITS"),
   (["--spec-ngram-map-k4v-size-n"], "FORTAI_SPEC_NGRAM_MAP_K4V_SIZE_N"),
   (["--spec-ngram-map-k4v-size-m"], "FORTAI_SPEC_NGRAM_MAP_K4V_SIZE_M"),
   (["--spec-ngram-map-k4v-min-hits"], "FORTAI_SPEC_NGRAM_MAP_K4V_MIN_HITS"),
   (["--draft", "--draft-n", "--draft-max", "--draft-min", "--draft-n-min"], "FORTAI_DRAFT_N"),
   (["--spec-ngram-size-n"], "FORTAI_SPEC_NGRAM_SIZE_N"), (["--spec-ngram-size-m"], "FORTAI_SPEC_NGRAM_SIZE_M"),
   (["--spec-ngram-min-hits"], "FORTAI_SPEC_NGRAM_MIN_HITS"),
   (["-mv", "--model-vocoder"], "FORTAI_MODEL_VOCODER")]

/-- The variable that `set_option_environment` sets. -/
def optionName (option : Bytes) : String :=
  ((optionNames.find? fun e => isOneOf option e.1).map Prod.snd).getD "FORTAI_OPTION"

/-- The branches of `set_flag_environment`: labels, name and value. -/
def flagNames : List (List String × String × String) :=
  [(["--jinja"], "FORTAI_JINJA", "1"), (["--no-jinja"], "FORTAI_JINJA", "0"),
   (["--mmap"], "FORTAI_NO_MMAP", "0"), (["--no-mmap"], "FORTAI_NO_MMAP", "1"),
   (["--mlock"], "FORTAI_MLOCK", "1"), (["--kv-offload"], "FORTAI_NO_KV_OFFLOAD", "0"),
   (["--no-kv-offload"], "FORTAI_NO_KV_OFFLOAD", "1"), (["--context-shift"], "FORTAI_NO_CONTEXT_SHIFT", "0"),
   (["--no-context-shift"], "FORTAI_NO_CONTEXT_SHIFT", "1"), (["--metrics"], "FORTAI_METRICS", "1"),
   (["--log-timestamps"], "FORTAI_LOG_TIMESTAMPS", "1"), (["--mmproj-offload"], "FORTAI_MMPROJ_OFFLOAD", "1"),
   (["--no-mmproj-offload"], "FORTAI_MMPROJ_OFFLOAD", "0"), (["--webui", "--ui"], "FORTAI_NO_WEBUI", "0"),
   (["--no-ui", "--no-webui"], "FORTAI_NO_WEBUI", "1"), (["--op-offload"], "FORTAI_NO_OP_OFFLOAD", "0"),
   (["--no-op-offload"], "FORTAI_NO_OP_OFFLOAD", "1"),
   (["--reasoning-preserve"], "FORTAI_REASONING_PRESERVE", "1"),
   (["--no-reasoning-preserve"], "FORTAI_REASONING_PRESERVE", "0"), (["--swa-full"], "FORTAI_SWA_FULL", "1"),
   (["--perf"], "FORTAI_PERF", "1"), (["--no-perf"], "FORTAI_PERF", "0"),
   (["-e", "--escape"], "FORTAI_ESCAPE", "1"), (["--no-escape"], "FORTAI_ESCAPE", "0"),
   (["--repack", "-nr"], "FORTAI_REPACK", "1"), (["--no-repack"], "FORTAI_REPACK", "0"),
   (["--no-host"], "FORTAI_NO_HOST", "1"), (["--direct-io", "-dio"], "FORTAI_DIRECT_IO", "1"),
   (["--no-direct-io", "-ndio"], "FORTAI_DIRECT_IO", "0"), (["--check-tensors"], "FORTAI_CHECK_TENSORS", "1"),
   (["--cpu-moe", "-cmoe"], "FORTAI_CPU_MOE", "1"), (["--log-disable"], "FORTAI_LOG_DISABLE", "1"),
   (["-v", "--verbose", "--log-verbose"], "FORTAI_LOG_VERBOSITY", "5"), (["--offline"], "FORTAI_OFFLINE", "1"),
   (["--log-prefix"], "FORTAI_LOG_PREFIX", "1"), (["--no-log-prefix"], "FORTAI_LOG_PREFIX", "0"),
   (["--no-log-timestamps"], "FORTAI_LOG_TIMESTAMPS", "0"), (["-kvo"], "FORTAI_NO_KV_OFFLOAD", "0"),
   (["-nkvo"], "FORTAI_NO_KV_OFFLOAD", "1"), (["-kvu", "--kv-unified"], "FORTAI_KV_UNIFIED", "1"),
   (["-no-kvu", "--no-kv-unified"], "FORTAI_KV_UNIFIED", "0"),
   (["--cache-idle-slots"], "FORTAI_CACHE_IDLE_SLOTS", "1"),
   (["--no-cache-idle-slots"], "FORTAI_CACHE_IDLE_SLOTS", "0"), (["--warmup"], "FORTAI_WARMUP", "1"),
   (["--no-warmup"], "FORTAI_WARMUP", "0"), (["-sp", "--special"], "FORTAI_SPECIAL", "1"),
   (["--spm-infill"], "FORTAI_SPM_INFILL", "1"), (["-cb", "--cont-batching"], "FORTAI_CONT_BATCHING", "1"),
   (["-nocb", "--no-cont-batching"], "FORTAI_CONT_BATCHING", "0"),
   (["--mmproj-auto"], "FORTAI_MMPROJ_AUTO", "1"),
   (["--no-mmproj", "--no-mmproj-auto"], "FORTAI_MMPROJ_AUTO", "0"),
   (["--ui-mcp-proxy", "--webui-mcp-proxy"], "FORTAI_UI_MCP_PROXY", "1"),
   (["--no-ui-mcp-proxy", "--no-webui-mcp-proxy"], "FORTAI_UI_MCP_PROXY", "0"),
   (["-ag", "--agent"], "FORTAI_AGENT", "1"), (["-no-ag", "--no-agent"], "FORTAI_AGENT", "0"),
   (["--embedding", "--embeddings"], "FORTAI_EMBEDDINGS", "1"),
   (["--rerank", "--reranking"], "FORTAI_RERANKING", "1"), (["--reuse-port"], "FORTAI_REUSE_PORT", "1"),
   (["--cors-credentials"], "FORTAI_CORS_CREDENTIALS", "1"),
   (["--no-cors-credentials"], "FORTAI_CORS_CREDENTIALS", "0"), (["--props"], "FORTAI_ENDPOINT_PROPS", "1"),
   (["--slots"], "FORTAI_ENDPOINT_SLOTS", "1"), (["--no-slots"], "FORTAI_ENDPOINT_SLOTS", "0"),
   (["--cache-prompt"], "FORTAI_CACHE_PROMPT", "1"), (["--no-cache-prompt"], "FORTAI_CACHE_PROMPT", "0"),
   (["--prefill-assistant"], "FORTAI_PREFILL_ASSISTANT", "1"),
   (["--no-prefill-assistant"], "FORTAI_PREFILL_ASSISTANT", "0"),
   (["--skip-chat-parsing"], "FORTAI_SKIP_CHAT_PARSING", "1"),
   (["--no-skip-chat-parsing"], "FORTAI_SKIP_CHAT_PARSING", "0"), (["--ignore-eos"], "FORTAI_IGNORE_EOS", "1"),
   (["--spec-draft-backend-sampling"], "FORTAI_SPEC_DRAFT_BACKEND_SAMPLING", "1"),
   (["--no-spec-draft-backend-sampling"], "FORTAI_SPEC_DRAFT_BACKEND_SAMPLING", "0"),
   (["--spec-draft-cpu-moe", "-cmoed", "--cpu-moe-draft"], "FORTAI_SPEC_DRAFT_CPU_MOE", "1"),
   (["--tts-use-guide-tokens"], "FORTAI_TTS_USE_GUIDE_TOKENS", "1"),
   (["--embd-gemma-default"], "FORTAI_EMBD_GEMMA_DEFAULT", "1"),
   (["-bs", "--backend-sampling"], "FORTAI_BACKEND_SAMPLING", "1"),
   (["--lora-init-without-apply"], "FORTAI_LORA_INIT_WITHOUT_APPLY", "1"),
   (["--models-autoload"], "FORTAI_MODELS_AUTOLOAD", "1"),
   (["--no-models-autoload"], "FORTAI_MODELS_AUTOLOAD", "0")]

/-- The presets, whose value is the option itself. -/
def presets : List String :=
  ["--fim-qwen-1", "--fim-qwen-1.5b-default", "--fim-qwen-3b-default", "--fim-qwen-7b-default",
   "--fim-qwen-7b-spec", "--fim-qwen-14b-spec", "--fim-qwen-30b-default", "--gpt-oss-20b-default",
   "--gpt-oss-120b-default", "--vision-gemma-4b-default", "--vision-gemma-12b-default", "--spec-default"]

/-- The variable that `set_flag_environment` sets, with its value. -/
def flagSetting (option : Bytes) : Option (String × Bytes) :=
  match flagNames.find? fun e => isOneOf option e.1 with
  | some (_, name, value) => some (name, ascii value)
  | none => if isOneOf option presets then some ("FORTAI_PRESET", option) else none

/-- The variables that `load_environment_defaults` reads a text from, the second one when the first
one is not set. -/
def textOptions : List (String × String) :=
  [("FORTAI_PARALLEL", "LLAMACPP_PARALLEL"), ("FORTAI_TENSOR_SPLIT", "LLAMACPP_TENSOR_SPLIT"),
   ("FORTAI_SPLIT_MODE", "LLAMACPP_SPLIT_MODE"), ("FORTAI_DRAFT_MODEL", "LLAMACPP_DRAFT_MODEL"),
   ("FORTAI_SPEC_TYPE", "LLAMACPP_SPEC_TYPE"), ("FORTAI_SPEC_DRAFT_N_MAX", "LLAMACPP_SPEC_DRAFT_N_MAX"),
   ("FORTAI_FLASH_ATTN", "LLAMACPP_FLASH_ATTN"), ("FORTAI_CACHE_TYPE_K", "LLAMACPP_CACHE_TYPE_K"),
   ("FORTAI_CACHE_TYPE_V", "LLAMACPP_CACHE_TYPE_V"),
   ("FORTAI_CACHE_TYPE_K_DRAFT", "LLAMACPP_CACHE_TYPE_K_DRAFT"),
   ("FORTAI_CACHE_TYPE_V_DRAFT", "LLAMACPP_CACHE_TYPE_V_DRAFT"), ("FORTAI_BATCH", "LLAMACPP_BATCH"),
   ("FORTAI_UBATCH", "LLAMACPP_UBATCH"), ("FORTAI_FIT", "LLAMACPP_FIT"),
   ("FORTAI_CACHE_RAM", "LLAMACPP_CACHE_RAM"), ("FORTAI_CACHE_REUSE", "LLAMACPP_CACHE_REUSE"),
   ("FORTAI_N_CPU_MOE", "LLAMACPP_N_CPU_MOE"), ("FORTAI_REASONING_BUDGET", "LLAMACPP_REASONING_BUDGET"),
   ("FORTAI_MMPROJ", "LLAMACPP_MMPROJ"), ("FORTAI_MMPROJ_OFFLOAD", "LLAMACPP_MMPROJ_OFFLOAD"),
   ("FORTAI_LOAD_MODE", "LLAMACPP_LOAD_MODE"), ("MTMD_BACKEND_DEVICE", "LLAMACPP_MMPROJ_DEVICE"),
   ("FORTAI_RPC", "LLAMACPP_RPC"), ("FORTAI_THREADS_HTTP", "LLAMACPP_THREADS_HTTP"),
   ("FORTAI_CHAT_TEMPLATE_KWARGS", "LLAMACPP_CHAT_TEMPLATE_KWARGS"),
   ("FORTAI_TEMPERATURE", "LLAMACPP_TEMPERATURE"), ("FORTAI_TOP_K", "LLAMACPP_TOP_K"),
   ("FORTAI_TOP_P", "LLAMACPP_TOP_P"), ("FORTAI_MIN_P", "LLAMACPP_MIN_P"),
   ("FORTAI_REPEAT_PENALTY", "LLAMACPP_REPEAT_PENALTY"),
   ("FORTAI_PRESENCE_PENALTY", "LLAMACPP_PRESENCE_PENALTY"),
   ("FORTAI_FREQUENCY_PENALTY", "LLAMACPP_FREQUENCY_PENALTY"),
   ("FORTAI_REPEAT_LAST_N", "LLAMACPP_REPEAT_LAST_N"), ("FORTAI_SEED", "LLAMACPP_SEED"),
   ("FORTAI_REASONING_FORMAT", "LLAMACPP_REASONING_FORMAT"), ("FORTAI_MAX_TOKENS", "LLAMACPP_MAX_TOKENS"),
   ("FORTAI_SERVER_DEVICE", "LLAMACPP_DEVICE"), ("FORTAI_NO_CONTEXT_SHIFT", "LLAMACPP_NO_CONTEXT_SHIFT"),
   ("FORTAI_METRICS", "LLAMACPP_METRICS"), ("FORTAI_LOG_TIMESTAMPS", "LLAMACPP_LOG_TIMESTAMPS"),
   ("FORTAI_NO_MMAP", "LLAMACPP_NO_MMAP"), ("FORTAI_MLOCK", "LLAMACPP_MLOCK"),
   ("FORTAI_NO_KV_OFFLOAD", "LLAMACPP_NO_KV_OFFLOAD"), ("FORTAI_NO_WEBUI", "LLAMACPP_NO_WEBUI"),
   ("FORTAI_NO_OP_OFFLOAD", "LLAMACPP_NO_OP_OFFLOAD"), ("FORTAI_CPU_MASK", "LLAMACPP_CPU_MASK"),
   ("FORTAI_CPU_RANGE", "LLAMACPP_CPU_RANGE"), ("FORTAI_CPU_STRICT", "LLAMACPP_CPU_STRICT"),
   ("FORTAI_PRIO", "LLAMACPP_PRIO"), ("FORTAI_POLL", "LLAMACPP_POLL"),
   ("FORTAI_CPU_MASK_BATCH", "LLAMACPP_CPU_MASK_BATCH"), ("FORTAI_CPU_RANGE_BATCH", "LLAMACPP_CPU_RANGE_BATCH"),
   ("FORTAI_CPU_STRICT_BATCH", "LLAMACPP_CPU_STRICT_BATCH"), ("FORTAI_PRIO_BATCH", "LLAMACPP_PRIO_BATCH"),
   ("FORTAI_POLL_BATCH", "LLAMACPP_POLL_BATCH"), ("FORTAI_KEEP", "LLAMACPP_KEEP"),
   ("FORTAI_SWA_FULL", "LLAMACPP_SWA_FULL"), ("FORTAI_PERF", "LLAMACPP_PERF"),
   ("FORTAI_ESCAPE", "LLAMACPP_ESCAPE"), ("FORTAI_ROPE_SCALING_TYPE", "LLAMACPP_ROPE_SCALING_TYPE"),
   ("FORTAI_ROPE_SCALE", "LLAMACPP_ROPE_SCALE"), ("FORTAI_ROPE_FREQ_BASE", "LLAMACPP_ROPE_FREQ_BASE"),
   ("FORTAI_ROPE_FREQ_SCALE", "LLAMACPP_ROPE_FREQ_SCALE"), ("FORTAI_YARN_ORIG_CTX", "LLAMACPP_YARN_ORIG_CTX"),
   ("FORTAI_YARN_EXT_FACTOR", "LLAMACPP_YARN_EXT_FACTOR"),
   ("FORTAI_YARN_ATTN_FACTOR", "LLAMACPP_YARN_ATTN_FACTOR"),
   ("FORTAI_YARN_BETA_SLOW", "LLAMACPP_YARN_BETA_SLOW"), ("FORTAI_YARN_BETA_FAST", "LLAMACPP_YARN_BETA_FAST"),
   ("FORTAI_DEFRAG_THOLD", "LLAMACPP_DEFRAG_THOLD"), ("FORTAI_DIRECT_IO", "LLAMACPP_DIO"),
   ("FORTAI_NUMA", "LLAMACPP_NUMA"), ("FORTAI_OVERRIDE_TENSOR", "LLAMACPP_OVERRIDE_TENSOR"),
   ("FORTAI_CPU_MOE", "LLAMACPP_CPU_MOE"), ("FORTAI_NO_HOST", "LLAMACPP_NO_HOST"),
   ("FORTAI_REPACK", "LLAMACPP_REPACK"), ("FORTAI_FIT_TARGET", "LLAMACPP_FIT_TARGET"),
   ("FORTAI_FIT_CTX", "LLAMACPP_FIT_CTX"), ("FORTAI_OVERRIDE_KV", "LLAMACPP_OVERRIDE_KV"),
   ("FORTAI_MODEL_URL", "LLAMACPP_MODEL_URL"), ("FORTAI_DOCKER_REPO", "LLAMACPP_DOCKER_REPO"),
   ("FORTAI_HF_REPO", "LLAMACPP_HF_REPO"), ("FORTAI_HF_FILE", "LLAMACPP_HF_FILE"),
   ("FORTAI_HF_REPO_V", "LLAMACPP_HF_REPO_V"), ("FORTAI_HF_FILE_V", "LLAMACPP_HF_FILE_V"),
   ("FORTAI_LOG_FILE", "LLAMACPP_LOG_FILE"), ("FORTAI_LOG_COLORS", "LLAMACPP_LOG_COLORS"),
   ("FORTAI_LOG_VERBOSITY", "LLAMACPP_LOG_VERBOSITY"), ("FORTAI_SAMPLERS", "LLAMACPP_SAMPLERS"),
   ("FORTAI_SAMPLING_SEQ", "LLAMACPP_SAMPLING_SEQ"), ("FORTAI_TOP_N_SIGMA", "LLAMACPP_TOP_N_SIGMA"),
   ("FORTAI_XTC_PROBABILITY", "LLAMACPP_XTC_PROBABILITY"), ("FORTAI_XTC_THRESHOLD", "LLAMACPP_XTC_THRESHOLD"),
   ("FORTAI_TYPICAL_P", "LLAMACPP_TYPICAL_P"), ("FORTAI_DRY_MULTIPLIER", "LLAMACPP_DRY_MULTIPLIER"),
   ("FORTAI_DRY_BASE", "LLAMACPP_DRY_BASE"), ("FORTAI_DRY_ALLOWED_LENGTH", "LLAMACPP_DRY_ALLOWED_LENGTH"),
   ("FORTAI_DRY_PENALTY_LAST_N", "LLAMACPP_DRY_PENALTY_LAST_N"),
   ("FORTAI_DRY_SEQUENCE_BREAKER", "LLAMACPP_DRY_SEQUENCE_BREAKER"),
   ("FORTAI_ADAPTIVE_TARGET", "LLAMACPP_ADAPTIVE_TARGET"), ("FORTAI_ADAPTIVE_DECAY", "LLAMACPP_ADAPTIVE_DECAY"),
   ("FORTAI_DYNATEMP_RANGE", "LLAMACPP_DYNATEMP_RANGE"), ("FORTAI_DYNATEMP_EXP", "LLAMACPP_DYNATEMP_EXP"),
   ("FORTAI_MIROSTAT", "LLAMACPP_MIROSTAT"), ("FORTAI_MIROSTAT_LR", "LLAMACPP_MIROSTAT_LR"),
   ("FORTAI_MIROSTAT_ENT", "LLAMACPP_MIROSTAT_ENT"), ("FORTAI_LOGIT_BIAS", "LLAMACPP_LOGIT_BIAS"),
   ("FORTAI_GRAMMAR", "LLAMACPP_GRAMMAR"), ("FORTAI_GRAMMAR_FILE", "LLAMACPP_GRAMMAR_FILE"),
   ("FORTAI_JSON_SCHEMA", "LLAMACPP_JSON_SCHEMA"), ("FORTAI_JSON_SCHEMA_FILE", "LLAMACPP_JSON_SCHEMA_FILE"),
   ("FORTAI_POOLING", "LLAMACPP_POOLING"), ("FORTAI_TIMEOUT", "LLAMACPP_TIMEOUT"),
   ("FORTAI_THREADS_HTTP", "LLAMACPP_THREADS_HTTP"), ("FORTAI_SSE_PING_INTERVAL", "LLAMACPP_SSE_PING_INTERVAL"),
   ("FORTAI_CACHE_PROMPT", "LLAMACPP_CACHE_PROMPT"), ("FORTAI_KV_UNIFIED", "LLAMACPP_KV_UNIFIED"),
   ("FORTAI_CONT_BATCHING", "LLAMACPP_CONT_BATCHING"), ("FORTAI_REUSE_PORT", "LLAMACPP_REUSE_PORT"),
   ("FORTAI_STATIC_PATH", "LLAMACPP_STATIC_PATH"), ("FORTAI_API_PREFIX", "LLAMACPP_API_PREFIX"),
   ("FORTAI_CORS_ORIGINS", "LLAMACPP_CORS_ORIGINS"), ("FORTAI_CORS_METHODS", "LLAMACPP_CORS_METHODS"),
   ("FORTAI_CORS_HEADERS", "LLAMACPP_CORS_HEADERS"), ("FORTAI_CORS_CREDENTIALS", "LLAMACPP_CORS_CREDENTIALS"),
   ("FORTAI_TOOLS_RUNTIME", "LLAMACPP_TOOLS_RUNTIME"),
   ("FORTAI_MCP_SERVERS_CONFIG", "LLAMACPP_MCP_SERVERS_CONFIG"),
   ("FORTAI_MCP_SERVERS_JSON", "LLAMACPP_MCP_SERVERS_JSON"), ("FORTAI_UI_CONFIG", "LLAMACPP_UI_CONFIG"),
   ("FORTAI_UI_CONFIG_FILE", "LLAMACPP_UI_CONFIG_FILE"), ("FORTAI_ENDPOINT_PROPS", "LLAMACPP_ENDPOINT_PROPS"),
   ("FORTAI_ENDPOINT_SLOTS", "LLAMACPP_ENDPOINT_SLOTS"), ("FORTAI_EMBEDDINGS", "LLAMACPP_EMBEDDINGS"),
   ("FORTAI_RERANKING", "LLAMACPP_RERANKING"), ("FORTAI_CHAT_TEMPLATE", "LLAMACPP_CHAT_TEMPLATE"),
   ("FORTAI_CHAT_TEMPLATE_FILE", "LLAMACPP_CHAT_TEMPLATE_FILE"),
   ("FORTAI_SKIP_CHAT_PARSING", "LLAMACPP_SKIP_CHAT_PARSING"),
   ("FORTAI_PREFILL_ASSISTANT", "LLAMACPP_PREFILL_ASSISTANT")]

/-- A step of `import_llama_environment`. -/
inductive Import
  | environmentAlias (target source : String)
  | inverse (target source : String)
  | threads
  | gpuLayers
  | ui

/-- The steps of `import_llama_environment`. -/
def imports : List Import :=
  [.environmentAlias "FORTAI_SERVER_MODEL" "LLAMA_ARG_MODEL",
   .environmentAlias "FORTAI_SERVER_HOST" "LLAMA_ARG_HOST",
   .environmentAlias "FORTAI_SERVER_PORT" "LLAMA_ARG_PORT",
   .environmentAlias "FORTAI_CONTEXT" "LLAMA_ARG_CTX_SIZE", .threads, .gpuLayers,
   .environmentAlias "FORTAI_MAIN_GPU" "LLAMA_ARG_MAIN_GPU",
   .environmentAlias "FORTAI_SERVER_ALIAS" "LLAMA_ARG_ALIAS",
   .environmentAlias "FORTAI_PARALLEL" "LLAMA_ARG_N_PARALLEL",
   .environmentAlias "FORTAI_TENSOR_SPLIT" "LLAMA_ARG_TENSOR_SPLIT",
   .environmentAlias "FORTAI_SPLIT_MODE" "LLAMA_ARG_SPLIT_MODE",
   .environmentAlias "FORTAI_DRAFT_MODEL" "LLAMA_ARG_SPEC_DRAFT_MODEL",
   .environmentAlias "FORTAI_DRAFT_MODEL" "LLAMA_ARG_MODEL_DRAFT",
   .environmentAlias "FORTAI_SPEC_TYPE" "LLAMA_ARG_SPEC_TYPE",
   .environmentAlias "FORTAI_SPEC_DRAFT_N_MAX" "LLAMA_ARG_SPEC_DRAFT_N_MAX",
   .environmentAlias "FORTAI_FLASH_ATTN" "LLAMA_ARG_FLASH_ATTN",
   .environmentAlias "FORTAI_CACHE_TYPE_K" "LLAMA_ARG_CACHE_TYPE_K",
   .environmentAlias "FORTAI_CACHE_TYPE_V" "LLAMA_ARG_CACHE_TYPE_V",
   .environmentAlias "FORTAI_CACHE_TYPE_K_DRAFT" "LLAMA_ARG_SPEC_DRAFT_CACHE_TYPE_K",
   .environmentAlias "FORTAI_CACHE_TYPE_V_DRAFT" "LLAMA_ARG_SPEC_DRAFT_CACHE_TYPE_V",
   .environmentAlias "FORTAI_BATCH" "LLAMA_ARG_BATCH", .environmentAlias "FORTAI_UBATCH" "LLAMA_ARG_UBATCH",
   .environmentAlias "FORTAI_FIT" "LLAMA_ARG_FIT", .environmentAlias "FORTAI_CACHE_RAM" "LLAMA_ARG_CACHE_RAM",
   .environmentAlias "FORTAI_CACHE_REUSE" "LLAMA_ARG_CACHE_REUSE",
   .environmentAlias "FORTAI_N_CPU_MOE" "LLAMA_ARG_N_CPU_MOE",
   .environmentAlias "FORTAI_REASONING_BUDGET" "LLAMA_ARG_THINK_BUDGET",
   .environmentAlias "FORTAI_REASONING_EFFORT" "LLAMA_ARG_REASONING_EFFORT",
   .environmentAlias "FORTAI_REASONING" "LLAMA_ARG_REASONING",
   .environmentAlias "FORTAI_REASONING_PRESERVE" "LLAMA_ARG_REASONING_PRESERVE",
   .environmentAlias "FORTAI_MMPROJ" "LLAMA_ARG_MMPROJ",
   .environmentAlias "FORTAI_MMPROJ_OFFLOAD" "LLAMA_ARG_MMPROJ_OFFLOAD",
   .environmentAlias "FORTAI_LOAD_MODE" "LLAMA_ARG_LOAD_MODE",
   .environmentAlias "MTMD_BACKEND_DEVICE" "LLAMA_ARG_MMPROJ_DEVICE",
   .environmentAlias "FORTAI_RPC" "LLAMA_ARG_RPC",
   .environmentAlias "FORTAI_THREADS_HTTP" "LLAMA_ARG_THREADS_HTTP",
   .environmentAlias "FORTAI_CHAT_TEMPLATE_KWARGS" "LLAMA_ARG_CHAT_TEMPLATE_KWARGS",
   .environmentAlias "FORTAI_TEMPERATURE" "LLAMA_ARG_TEMP", .environmentAlias "FORTAI_TOP_K" "LLAMA_ARG_TOP_K",
   .environmentAlias "FORTAI_TOP_P" "LLAMA_ARG_TOP_P", .environmentAlias "FORTAI_MIN_P" "LLAMA_ARG_MIN_P",
   .environmentAlias "FORTAI_REPEAT_PENALTY" "LLAMA_ARG_REPEAT_PENALTY",
   .environmentAlias "FORTAI_PRESENCE_PENALTY" "LLAMA_ARG_PRESENCE_PENALTY",
   .environmentAlias "FORTAI_FREQUENCY_PENALTY" "LLAMA_ARG_FREQUENCY_PENALTY",
   .environmentAlias "FORTAI_REPEAT_LAST_N" "LLAMA_ARG_REPEAT_LAST_N",
   .environmentAlias "FORTAI_SEED" "LLAMA_ARG_SEED",
   .environmentAlias "FORTAI_REASONING_FORMAT" "LLAMA_ARG_THINK",
   .environmentAlias "FORTAI_MAX_TOKENS" "LLAMA_ARG_N_PREDICT",
   .environmentAlias "FORTAI_SERVER_DEVICE" "LLAMA_ARG_DEVICE",
   .environmentAlias "FORTAI_THREADS_BATCH" "LLAMA_ARG_THREADS_BATCH",
   .environmentAlias "FORTAI_MLOCK" "LLAMA_ARG_MLOCK",
   .environmentAlias "FORTAI_METRICS" "LLAMA_ARG_ENDPOINT_METRICS",
   .environmentAlias "FORTAI_LOG_TIMESTAMPS" "LLAMA_ARG_LOG_TIMESTAMPS",
   .inverse "FORTAI_NO_MMAP" "LLAMA_ARG_MMAP", .inverse "FORTAI_NO_KV_OFFLOAD" "LLAMA_ARG_KV_OFFLOAD",
   .inverse "FORTAI_NO_OP_OFFLOAD" "LLAMA_ARG_OP_OFFLOAD",
   .inverse "FORTAI_NO_CONTEXT_SHIFT" "LLAMA_ARG_CONTEXT_SHIFT",
   .environmentAlias "FORTAI_CPU_MASK" "LLAMA_ARG_CPU_MASK",
   .environmentAlias "FORTAI_CPU_RANGE" "LLAMA_ARG_CPU_RANGE",
   .environmentAlias "FORTAI_CPU_STRICT" "LLAMA_ARG_CPU_STRICT",
   .environmentAlias "FORTAI_PRIO" "LLAMA_ARG_PRIO", .environmentAlias "FORTAI_POLL" "LLAMA_ARG_POLL",
   .environmentAlias "FORTAI_CPU_MASK_BATCH" "LLAMA_ARG_CPU_MASK_BATCH",
   .environmentAlias "FORTAI_CPU_RANGE_BATCH" "LLAMA_ARG_CPU_RANGE_BATCH",
   .environmentAlias "FORTAI_CPU_STRICT_BATCH" "LLAMA_ARG_CPU_STRICT_BATCH",
   .environmentAlias "FORTAI_PRIO_BATCH" "LLAMA_ARG_PRIO_BATCH",
   .environmentAlias "FORTAI_POLL_BATCH" "LLAMA_ARG_POLL_BATCH",
   .environmentAlias "FORTAI_KEEP" "LLAMA_ARG_KEEP", .environmentAlias "FORTAI_SWA_FULL" "LLAMA_ARG_SWA_FULL",
   .environmentAlias "FORTAI_PERF" "LLAMA_ARG_PERF", .environmentAlias "FORTAI_ESCAPE" "LLAMA_ARG_ESCAPE",
   .environmentAlias "FORTAI_ROPE_SCALING_TYPE" "LLAMA_ARG_ROPE_SCALING_TYPE",
   .environmentAlias "FORTAI_ROPE_SCALE" "LLAMA_ARG_ROPE_SCALE",
   .environmentAlias "FORTAI_ROPE_FREQ_BASE" "LLAMA_ARG_ROPE_FREQ_BASE",
   .environmentAlias "FORTAI_ROPE_FREQ_SCALE" "LLAMA_ARG_ROPE_FREQ_SCALE",
   .environmentAlias "FORTAI_YARN_ORIG_CTX" "LLAMA_ARG_YARN_ORIG_CTX",
   .environmentAlias "FORTAI_YARN_EXT_FACTOR" "LLAMA_ARG_YARN_EXT_FACTOR",
   .environmentAlias "FORTAI_YARN_ATTN_FACTOR" "LLAMA_ARG_YARN_ATTN_FACTOR",
   .environmentAlias "FORTAI_YARN_BETA_SLOW" "LLAMA_ARG_YARN_BETA_SLOW",
   .environmentAlias "FORTAI_YARN_BETA_FAST" "LLAMA_ARG_YARN_BETA_FAST",
   .environmentAlias "FORTAI_DEFRAG_THOLD" "LLAMA_ARG_DEFRAG_THOLD",
   .environmentAlias "FORTAI_DIRECT_IO" "LLAMA_ARG_DIO", .environmentAlias "FORTAI_NUMA" "LLAMA_ARG_NUMA",
   .environmentAlias "FORTAI_OVERRIDE_TENSOR" "LLAMA_ARG_OVERRIDE_TENSOR",
   .environmentAlias "FORTAI_CPU_MOE" "LLAMA_ARG_CPU_MOE",
   .environmentAlias "FORTAI_NO_HOST" "LLAMA_ARG_NO_HOST", .environmentAlias "FORTAI_REPACK" "LLAMA_ARG_REPACK",
   .environmentAlias "FORTAI_FIT_TARGET" "LLAMA_ARG_FIT_TARGET",
   .environmentAlias "FORTAI_FIT_CTX" "LLAMA_ARG_FIT_CTX",
   .environmentAlias "FORTAI_OVERRIDE_KV" "LLAMA_ARG_OVERRIDE_KV",
   .environmentAlias "FORTAI_MODEL_URL" "LLAMA_ARG_MODEL_URL",
   .environmentAlias "FORTAI_DOCKER_REPO" "LLAMA_ARG_DOCKER_REPO",
   .environmentAlias "FORTAI_HF_REPO" "LLAMA_ARG_HF_REPO",
   .environmentAlias "FORTAI_HF_FILE" "LLAMA_ARG_HF_FILE",
   .environmentAlias "FORTAI_HF_REPO_V" "LLAMA_ARG_HF_REPO_V",
   .environmentAlias "FORTAI_HF_FILE_V" "LLAMA_ARG_HF_FILE_V",
   .environmentAlias "FORTAI_LOG_FILE" "LLAMA_ARG_LOG_FILE",
   .environmentAlias "FORTAI_LOG_COLORS" "LLAMA_ARG_LOG_COLORS",
   .environmentAlias "FORTAI_LOG_VERBOSITY" "LLAMA_ARG_LOG_VERBOSITY",
   .environmentAlias "FORTAI_SAMPLERS" "LLAMA_ARG_SAMPLERS",
   .environmentAlias "FORTAI_SAMPLING_SEQ" "LLAMA_ARG_SAMPLING_SEQ",
   .environmentAlias "FORTAI_TOP_N_SIGMA" "LLAMA_ARG_TOP_N_SIGMA",
   .environmentAlias "FORTAI_XTC_PROBABILITY" "LLAMA_ARG_XTC_PROBABILITY",
   .environmentAlias "FORTAI_XTC_THRESHOLD" "LLAMA_ARG_XTC_THRESHOLD",
   .environmentAlias "FORTAI_TYPICAL_P" "LLAMA_ARG_TYPICAL_P",
   .environmentAlias "FORTAI_DRY_MULTIPLIER" "LLAMA_ARG_DRY_MULTIPLIER",
   .environmentAlias "FORTAI_DRY_BASE" "LLAMA_ARG_DRY_BASE",
   .environmentAlias "FORTAI_DRY_ALLOWED_LENGTH" "LLAMA_ARG_DRY_ALLOWED_LENGTH",
   .environmentAlias "FORTAI_DRY_PENALTY_LAST_N" "LLAMA_ARG_DRY_PENALTY_LAST_N",
   .environmentAlias "FORTAI_DRY_SEQUENCE_BREAKER" "LLAMA_ARG_DRY_SEQUENCE_BREAKER",
   .environmentAlias "FORTAI_ADAPTIVE_TARGET" "LLAMA_ARG_ADAPTIVE_TARGET",
   .environmentAlias "FORTAI_ADAPTIVE_DECAY" "LLAMA_ARG_ADAPTIVE_DECAY",
   .environmentAlias "FORTAI_DYNATEMP_RANGE" "LLAMA_ARG_DYNATEMP_RANGE",
   .environmentAlias "FORTAI_DYNATEMP_EXP" "LLAMA_ARG_DYNATEMP_EXP",
   .environmentAlias "FORTAI_MIROSTAT" "LLAMA_ARG_MIROSTAT",
   .environmentAlias "FORTAI_MIROSTAT_LR" "LLAMA_ARG_MIROSTAT_LR",
   .environmentAlias "FORTAI_MIROSTAT_ENT" "LLAMA_ARG_MIROSTAT_ENT",
   .environmentAlias "FORTAI_LOGIT_BIAS" "LLAMA_ARG_LOGIT_BIAS",
   .environmentAlias "FORTAI_GRAMMAR" "LLAMA_ARG_GRAMMAR",
   .environmentAlias "FORTAI_GRAMMAR_FILE" "LLAMA_ARG_GRAMMAR_FILE",
   .environmentAlias "FORTAI_JSON_SCHEMA" "LLAMA_ARG_JSON_SCHEMA",
   .environmentAlias "FORTAI_JSON_SCHEMA_FILE" "LLAMA_ARG_JSON_SCHEMA_FILE",
   .environmentAlias "FORTAI_POOLING" "LLAMA_ARG_POOLING",
   .environmentAlias "FORTAI_TIMEOUT" "LLAMA_ARG_TIMEOUT",
   .environmentAlias "FORTAI_SSE_PING_INTERVAL" "LLAMA_ARG_SSE_PING_INTERVAL",
   .environmentAlias "FORTAI_CACHE_PROMPT" "LLAMA_ARG_CACHE_PROMPT",
   .environmentAlias "FORTAI_KV_UNIFIED" "LLAMA_ARG_KV_UNIFIED",
   .environmentAlias "FORTAI_CONT_BATCHING" "LLAMA_ARG_CONT_BATCHING",
   .environmentAlias "FORTAI_REUSE_PORT" "LLAMA_ARG_REUSE_PORT",
   .environmentAlias "FORTAI_STATIC_PATH" "LLAMA_ARG_STATIC_PATH",
   .environmentAlias "FORTAI_CORS_ORIGINS" "LLAMA_ARG_CORS_ORIGINS",
   .environmentAlias "FORTAI_CORS_METHODS" "LLAMA_ARG_CORS_METHODS",
   .environmentAlias "FORTAI_CORS_HEADERS" "LLAMA_ARG_CORS_HEADERS",
   .environmentAlias "FORTAI_CORS_CREDENTIALS" "LLAMA_ARG_CORS_CREDENTIALS",
   .environmentAlias "FORTAI_API_PREFIX" "LLAMA_ARG_API_PREFIX",
   .environmentAlias "FORTAI_UI_CONFIG" "LLAMA_ARG_UI_CONFIG",
   .environmentAlias "FORTAI_UI_CONFIG_FILE" "LLAMA_ARG_UI_CONFIG_FILE",
   .environmentAlias "FORTAI_ENDPOINT_PROPS" "LLAMA_ARG_ENDPOINT_PROPS",
   .environmentAlias "FORTAI_ENDPOINT_SLOTS" "LLAMA_ARG_ENDPOINT_SLOTS",
   .environmentAlias "FORTAI_EMBEDDINGS" "LLAMA_ARG_EMBEDDINGS",
   .environmentAlias "FORTAI_RERANKING" "LLAMA_ARG_RERANKING",
   .environmentAlias "FORTAI_CHAT_TEMPLATE" "LLAMA_ARG_CHAT_TEMPLATE",
   .environmentAlias "FORTAI_CHAT_TEMPLATE_FILE" "LLAMA_ARG_CHAT_TEMPLATE_FILE",
   .environmentAlias "FORTAI_SKIP_CHAT_PARSING" "LLAMA_ARG_SKIP_CHAT_PARSING",
   .environmentAlias "FORTAI_PREFILL_ASSISTANT" "LLAMA_ARG_PREFILL_ASSISTANT",
   .environmentAlias "FORTAI_OFFLINE" "LLAMA_ARG_OFFLINE",
   .environmentAlias "FORTAI_LOG_PREFIX" "LLAMA_ARG_LOG_PREFIX",
   .environmentAlias "FORTAI_BACKEND_SAMPLING" "LLAMA_ARG_BACKEND_SAMPLING",
   .environmentAlias "FORTAI_CTX_CHECKPOINTS" "LLAMA_ARG_CTX_CHECKPOINTS",
   .environmentAlias "FORTAI_CHECKPOINT_MIN_SPACING_NT" "LLAMA_ARG_CHECKPOINT_MIN_SPACING_NT",
   .environmentAlias "FORTAI_CACHE_IDLE_SLOTS" "LLAMA_ARG_CACHE_IDLE_SLOTS",
   .environmentAlias "FORTAI_MMPROJ_URL" "LLAMA_ARG_MMPROJ_URL",
   .environmentAlias "FORTAI_MMPROJ_AUTO" "LLAMA_ARG_MMPROJ_AUTO",
   .environmentAlias "FORTAI_IMAGE_MIN_TOKENS" "LLAMA_ARG_IMAGE_MIN_TOKENS",
   .environmentAlias "FORTAI_IMAGE_MAX_TOKENS" "LLAMA_ARG_IMAGE_MAX_TOKENS",
   .environmentAlias "FORTAI_MTMD_BATCH_MAX_TOKENS" "LLAMA_ARG_MTMD_BATCH_MAX_TOKENS",
   .environmentAlias "FORTAI_TAGS" "LLAMA_ARG_TAGS",
   .environmentAlias "FORTAI_UI_MCP_PROXY" "LLAMA_ARG_UI_MCP_PROXY",
   .environmentAlias "FORTAI_TOOLS" "LLAMA_ARG_TOOLS",
   .environmentAlias "FORTAI_TOOLS_RUNTIME" "LLAMA_ARG_TOOLS_RUNTIME",
   .environmentAlias "FORTAI_MCP_SERVERS_CONFIG" "LLAMA_ARG_MCP_SERVERS_CONFIG",
   .environmentAlias "FORTAI_MCP_SERVERS_JSON" "LLAMA_ARG_MCP_SERVERS_JSON",
   .environmentAlias "FORTAI_AGENT" "LLAMA_ARG_AGENT",
   .environmentAlias "FORTAI_API_KEY_FILE" "LLAMA_ARG_API_KEY_FILE",
   .environmentAlias "FORTAI_SSL_KEY_FILE" "LLAMA_ARG_SSL_KEY_FILE",
   .environmentAlias "FORTAI_SSL_CERT_FILE" "LLAMA_ARG_SSL_CERT_FILE",
   .environmentAlias "FORTAI_MODELS_DIR" "LLAMA_ARG_MODELS_DIR",
   .environmentAlias "FORTAI_MODELS_PRESET" "LLAMA_ARG_MODELS_PRESET",
   .environmentAlias "FORTAI_MODELS_MAX" "LLAMA_ARG_MODELS_MAX",
   .environmentAlias "FORTAI_MODELS_AUTOLOAD" "LLAMA_ARG_MODELS_AUTOLOAD",
   .environmentAlias "FORTAI_JINJA" "LLAMA_ARG_JINJA",
   .environmentAlias "FORTAI_REASONING_BUDGET_MESSAGE" "LLAMA_ARG_THINK_BUDGET_MESSAGE",
   .environmentAlias "FORTAI_SPEC_DRAFT_N_GPU_LAYERS" "LLAMA_ARG_N_GPU_LAYERS_DRAFT",
   .environmentAlias "FORTAI_DRAFT_MAX" "LLAMA_ARG_DRAFT_MAX",
   .environmentAlias "FORTAI_DRAFT_MIN" "LLAMA_ARG_DRAFT_MIN",
   .environmentAlias "FORTAI_NO_MMAP" "LLAMA_ARG_NO_MMAP",
   .environmentAlias "FORTAI_LOG_PROMPTS_DIR" "LLAMA_ARG_LOG_PROMPTS_DIR",
   .environmentAlias "FORTAI_SPEC_DRAFT_HF" "LLAMA_ARG_SPEC_DRAFT_HF_REPO",
   .environmentAlias "FORTAI_SPEC_DRAFT_THREADS" "LLAMA_ARG_SPEC_DRAFT_THREADS",
   .environmentAlias "FORTAI_SPEC_DRAFT_THREADS_BATCH" "LLAMA_ARG_SPEC_DRAFT_THREADS_BATCH",
   .environmentAlias "FORTAI_SPEC_DRAFT_CPU_MASK" "LLAMA_ARG_SPEC_DRAFT_CPU_MASK",
   .environmentAlias "FORTAI_SPEC_DRAFT_CPU_RANGE" "LLAMA_ARG_SPEC_DRAFT_CPU_RANGE",
   .environmentAlias "FORTAI_SPEC_DRAFT_CPU_STRICT" "LLAMA_ARG_SPEC_DRAFT_CPU_STRICT",
   .environmentAlias "FORTAI_SPEC_DRAFT_PRIO" "LLAMA_ARG_SPEC_DRAFT_PRIO",
   .environmentAlias "FORTAI_SPEC_DRAFT_POLL" "LLAMA_ARG_SPEC_DRAFT_POLL",
   .environmentAlias "FORTAI_SPEC_DRAFT_CPU_MASK_BATCH" "LLAMA_ARG_SPEC_DRAFT_CPU_MASK_BATCH",
   .environmentAlias "FORTAI_SPEC_DRAFT_CPU_STRICT_BATCH" "LLAMA_ARG_SPEC_DRAFT_CPU_STRICT_BATCH",
   .environmentAlias "FORTAI_SPEC_DRAFT_PRIO_BATCH" "LLAMA_ARG_SPEC_DRAFT_PRIO_BATCH",
   .environmentAlias "FORTAI_SPEC_DRAFT_POLL_BATCH" "LLAMA_ARG_SPEC_DRAFT_POLL_BATCH",
   .environmentAlias "FORTAI_SPEC_DRAFT_N_CPU_MOE" "LLAMA_ARG_SPEC_DRAFT_N_CPU_MOE",
   .environmentAlias "FORTAI_SPEC_DRAFT_CPU_MOE" "LLAMA_ARG_SPEC_DRAFT_CPU_MOE",
   .environmentAlias "FORTAI_SPEC_DRAFT_N_MIN" "LLAMA_ARG_SPEC_DRAFT_N_MIN",
   .environmentAlias "FORTAI_SPEC_DRAFT_P_SPLIT" "LLAMA_ARG_SPEC_DRAFT_P_SPLIT",
   .environmentAlias "FORTAI_SPEC_DRAFT_P_MIN" "LLAMA_ARG_SPEC_DRAFT_P_MIN",
   .environmentAlias "FORTAI_SPEC_DRAFT_BACKEND_SAMPLING" "LLAMA_ARG_SPEC_DRAFT_BACKEND_SAMPLING",
   .environmentAlias "FORTAI_SPEC_DRAFT_DEVICE" "LLAMA_ARG_SPEC_DRAFT_DEVICE",
   .environmentAlias "FORTAI_SPEC_DRAFT_N_GPU_LAYERS" "LLAMA_ARG_SPEC_DRAFT_N_GPU_LAYERS",
   .environmentAlias "FORTAI_SPEC_NGRAM_MOD_N_MIN" "LLAMA_ARG_SPEC_NGRAM_MOD_N_MIN",
   .environmentAlias "FORTAI_SPEC_NGRAM_MOD_N_MAX" "LLAMA_ARG_SPEC_NGRAM_MOD_N_MAX",
   .environmentAlias "FORTAI_SPEC_NGRAM_MOD_N_MATCH" "LLAMA_ARG_SPEC_NGRAM_MOD_N_MATCH",
   .environmentAlias "FORTAI_SPEC_NGRAM_SIMPLE_SIZE_N" "LLAMA_ARG_SPEC_NGRAM_SIMPLE_SIZE_N",
   .environmentAlias "FORTAI_SPEC_NGRAM_SIMPLE_SIZE_M" "LLAMA_ARG_SPEC_NGRAM_SIMPLE_SIZE_M",
   .environmentAlias "FORTAI_SPEC_NGRAM_SIMPLE_MIN_HITS" "LLAMA_ARG_SPEC_NGRAM_SIMPLE_MIN_HITS",
   .environmentAlias "FORTAI_SPEC_NGRAM_MAP_K_SIZE_N" "LLAMA_ARG_SPEC_NGRAM_MAP_K_SIZE_N",
   .environmentAlias "FORTAI_SPEC_NGRAM_MAP_K_SIZE_M" "LLAMA_ARG_SPEC_NGRAM_MAP_K_SIZE_M",
   .environmentAlias "FORTAI_SPEC_NGRAM_MAP_K_MIN_HITS" "LLAMA_ARG_SPEC_NGRAM_MAP_K_MIN_HITS",
   .environmentAlias "FORTAI_SPEC_NGRAM_MAP_K4V_SIZE_N" "LLAMA_ARG_SPEC_NGRAM_MAP_K4V_SIZE_N",
   .environmentAlias "FORTAI_SPEC_NGRAM_MAP_K4V_SIZE_M" "LLAMA_ARG_SPEC_NGRAM_MAP_K4V_SIZE_M",
   .environmentAlias "FORTAI_SPEC_NGRAM_MAP_K4V_MIN_HITS" "LLAMA_ARG_SPEC_NGRAM_MAP_K4V_MIN_HITS",
   .environmentAlias "FORTAI_MODEL_VOCODER" "LLAMA_ARG_MODEL_VOCODER", .ui]

end Settings

end FortAI
