import FortAI.Machine.CString

/-!
# The vocabulary of Whisper

The tokens of text stand first, the special tokens behind them.  One of these stands for each language, in the
order of a table of codes.

* `languageToken`, `tokenName`, `tokenPiece` : `whisper_language_token`, `whisper_token_name` and
  `whisper_token_piece`.
* `tokenName_languageToken` : the name of a language's token holds a code for it.
-/

namespace FortAI

namespace Whisper

open CString

/-! ### Tokens -/

def tokenEot : ℤ := 50257
def tokenSot : ℤ := 50258
def tokenTranslate : ℤ := 50359
def tokenTranscribe : ℤ := 50360
def tokenSolm : ℤ := 50361
def tokenPrev : ℤ := 50362
def tokenNosp : ℤ := 50363
def tokenNot : ℤ := 50364
def tokenBeg : ℤ := 50365

/-- `LANGUAGE_CODES`, without the blanks behind them. -/
def languageCodes : List String :=
  ["en", "zh", "de", "es", "ru", "ko", "fr", "ja", "pt", "tr", "pl", "ca", "nl", "ar", "sv", "it",
    "id", "hi", "fi", "vi", "he", "uk", "el", "ms", "cs", "ro", "da", "hu", "ta", "no", "th", "ur",
    "hr", "bg", "lt", "la", "mi", "ml", "cy", "sk", "te", "fa", "lv", "bn", "sr", "az", "sl", "kn",
    "et", "mk", "br", "eu", "is", "hy", "ne", "mn", "bs", "kk", "sq", "sw", "gl", "mr", "pa", "si",
    "km", "sn", "yo", "so", "af", "oc", "ka", "be", "tg", "sd", "gu", "am", "yi", "lo", "uz", "fo",
    "ht", "ps", "tk", "nn", "mt", "sa", "lb", "my", "bo", "tl", "mg", "as", "tt", "haw", "ln", "ha",
    "ba", "jw", "su", "yue"]

/-- A text in a variable of three characters. -/
def threeCharacters (s : Bytes) : Bytes := s.take 3 ++ List.replicate (3 - s.length) space

/-- `wanted`, of a language in either case. -/
def wantedCode (language : Bytes) : Bytes := threeCharacters ((trimEnd (· = space) language).map lower)

/-- `whisper_language_token`; there is none for a language that is not in the table. -/
def languageToken (language : Bytes) : Option ℤ :=
  (languageCodes.findIdx? fun code => wantedCode language = threeCharacters (ascii code)).map fun i =>
    tokenSot + (i + 1 : ℕ)

/-- `whisper_token_is_special` -/
def tokenIsSpecial (token : ℤ) : Bool := tokenEot ≤ token

/-- `whisper_token_name` -/
def tokenName (token : ℤ) : Bytes :=
  if token = tokenEot then ascii "<|endoftext|>"
  else if token = tokenSot then ascii "<|startoftranscript|>"
  else if token = tokenTranslate then ascii "<|translate|>"
  else if token = tokenTranscribe then ascii "<|transcribe|>"
  else if token = tokenSolm then ascii "<|startoflm|>"
  else if token = tokenPrev then ascii "<|startofprev|>"
  else if token = tokenNosp then ascii "<|nospeech|>"
  else if token = tokenNot then ascii "<|notimestamps|>"
  else if token = tokenBeg then ascii "<|0.00|>"
  else if tokenSot < token ∧ token < tokenTranslate then
    match languageCodes[(token - tokenSot - 1).toNat]? with
    | some code => ascii "<|" ++ (ascii code ++ ascii "|>")
    | none => []
  else []

/-- The token of a language is named after the code in the table that the language stands for. -/
theorem tokenName_languageToken {language : Bytes} {token : ℤ} (h : languageToken language = some token) :
    ∃ code ∈ languageCodes, wantedCode language = threeCharacters (ascii code) ∧
      tokenName token = ascii "<|" ++ (ascii code ++ ascii "|>") := by
  obtain ⟨i, hfind, rfl⟩ := Option.map_eq_some_iff.mp h
  obtain ⟨hi, hcode, -⟩ := List.findIdx?_eq_some_iff_getElem.mp hfind
  have hsize : i < 100 := hi
  -- The tokens of languages lie between the start of a transcript and that of a translation.
  have hdistinct : tokenName (tokenSot + (i + 1 : ℕ)) =
      match languageCodes[(tokenSot + ((i + 1 : ℕ) : ℤ) - tokenSot - 1).toNat]? with
      | some code => ascii "<|" ++ (ascii code ++ ascii "|>")
      | none => [] := by
    rw [tokenName, if_neg, if_neg, if_neg, if_neg, if_neg, if_neg, if_neg, if_neg, if_neg, if_pos] <;>
      simp only [tokenEot, tokenSot, tokenTranslate, tokenTranscribe, tokenSolm, tokenPrev, tokenNosp, tokenNot,
        tokenBeg] <;> omega
  have hindex : (tokenSot + ((i + 1 : ℕ) : ℤ) - tokenSot - 1).toNat = i := by
    rw [tokenSot]
    omega
  refine ⟨languageCodes[i], List.getElem_mem hi, of_decide_eq_true hcode, ?_⟩
  rw [hdistinct, hindex, List.getElem?_eq_getElem hi]
  rfl

/-- `whisper_token_piece`: the piece of a token, and whether it is valid. -/
def tokenPiece (vocab : Option (List Bytes)) (token : ℤ) : Bytes × Bool :=
  if token < 0 then ([], false)
  else
    match vocab with
    | none => ([], false)
    | some tokens =>
      match tokens[token.toNat]? with
      | none => ([], tokenIsSpecial token)
      | some raw => (raw, true)

end Whisper

end FortAI
