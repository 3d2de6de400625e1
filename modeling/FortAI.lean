import FortAI.Service.Lossless
import FortAI.Service.Draft
import FortAI.Service.Schedule
import FortAI.Service.Buffers
import FortAI.Service.TopCandidates
import FortAI.Service.Generator
import FortAI.Http.Section
import FortAI.Http.Dispatch
import FortAI.Http.Routing
import FortAI.Http.Fragments
import FortAI.Http.Queue
import FortAI.Http.Keys
import FortAI.Http.Origin
import FortAI.Http.Startup
import FortAI.Chat.Extraction
import FortAI.Chat.Messages
import FortAI.Chat.History
import FortAI.Chat.Reasoning
import FortAI.Chat.Codec
import FortAI.Settings.Ranges
import FortAI.Settings.TopLevel
import FortAI.Settings.Serving
import FortAI.Llama.Mirror
import FortAI.Whisper.Safety
import FortAI.Whisper.Reply
import FortAI.Whisper.Sizes
import FortAI.Whisper.Samples
import FortAI.Gguf.Safety
import FortAI.Gguf.Encoding
import FortAI.Qwen35.HostCopy
import FortAI.Qwen35.Refusal
import FortAI.Qwen35.Rollback
import FortAI.Tokenizer.RoundTrip
import FortAI.Tokenizer.Merges
import FortAI.Tokenizer.Pretokenizer
import FortAI.Cpu.Quantize
import FortAI.Machine.Riff
import FortAI.Machine.Storage
import FortAI.Whisper.Wav
import FortAI.Whisper.Service
import FortAI.Whisper.Delimited
import FortAI.Cpu.Dot
import FortAI.Llama.Argmax
import FortAI.Llama.TensorSplit
import FortAI.Http.Timestamp
import FortAI.Qwen35.KeyValue
import FortAI.Service.Accounting
import FortAI.Qwen35.Sequence
import FortAI.Whisper.Fft
import FortAI.Whisper.Prefill
import FortAI.Strings.GrowableString
import FortAI.Http.TokenArray
import FortAI.Settings.Thinking
import FortAI.Service.Penalties
