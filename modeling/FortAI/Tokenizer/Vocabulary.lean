import FortAI.Machine.Utf8

/-!
# Vocabulary, merges and the byte alphabet

The data of `fortai_native_tokenizer_t` and the functions that read it.  The texts of a vocabulary
are written in an alphabet of 256 printable characters, one for each byte (`byteUnicode`).  A
position in a text is the list of the bytes from it on.

* `utf8Decode_append` : the characters of an encoded text are read one by one.
* `pieceBytes_symbols` : what is written in the alphabet is read back.
* `lookupVocabulary_eq_some` : a text that is listed is found.
-/

namespace FortAI

namespace Tokenizer

open CString Utf8

/-- `fortai_native_tokenizer_t`, without what only the chat template is asked for.  A merge that
`native_tokenizer_open` cannot take apart is a pair of empty texts. -/
structure Vocabulary where
  tokens : List Bytes
  merges : List (Bytes × Bytes)
  bosToken : ℤ
  addBosToken : Bool
  qwen35Pretokenizer : Bool

namespace Vocabulary

/-- `lookup_vocabulary`; -1 is `none`. -/
def lookupVocabulary (self : Vocabulary) (text : Bytes) : Option ℕ :=
  self.tokens.findIdx? (· = text)

/-- `lookup_merge`; `huge(0)` is `none`. -/
def lookupMerge (self : Vocabulary) (left right : Bytes) : Option ℕ :=
  self.merges.findIdx? (· = (left, right))

theorem lookupVocabulary_eq_some {self : Vocabulary} {text : Bytes} {id : ℕ}
    (h : self.lookupVocabulary text = some id) : self.tokens[id]? = some text := by
  obtain ⟨hlt, hfound, -⟩ := List.findIdx?_eq_some_iff_getElem.mp h
  rw [List.getElem?_eq_getElem hlt, of_decide_eq_true hfound]

theorem lookupVocabulary_of_mem {self : Vocabulary} {text : Bytes} (h : text ∈ self.tokens) :
    ∃ id, self.lookupVocabulary text = some id := by
  rw [← Option.isSome_iff_exists, lookupVocabulary, List.findIdx?_isSome, List.any_eq_true]
  exact ⟨text, h, decide_eq_true rfl⟩

theorem lookupMerge_eq_some {self : Vocabulary} {left right : Bytes} {rank : ℕ}
    (h : self.lookupMerge left right = some rank) : self.merges[rank]? = some (left, right) := by
  obtain ⟨hlt, hfound, -⟩ := List.findIdx?_eq_some_iff_getElem.mp h
  rw [List.getElem?_eq_getElem hlt, of_decide_eq_true hfound]

end Vocabulary

/-! ### The byte alphabet -/

/-- `byte_unicode` -/
def byteUnicode (value : ℕ) : ℕ :=
  if 33 ≤ value ∧ value ≤ 126 ∨ 161 ≤ value ∧ value ≤ 172 ∨ 174 ≤ value ∧ value ≤ 255 then value
  else if value ≤ 32 then 256 + value
  else if 127 ≤ value ∧ value ≤ 160 then value + 162
  else if value = 173 then 323
  else value

/-- `unicode_byte` -/
def unicodeByte (value : ℕ) : ℕ :=
  if value < 256 ∨ 512 ≤ value then value
  else if value ≤ 288 then value - 256
  else if value ≤ 322 then value - 162
  else if value = 323 then 173
  else value

/-- The text of a byte in the alphabet. -/
def byteSymbol (b : Byte) : Bytes := utf8 (byteUnicode b.toNat)

/-- `utf8_decode`: the code point at a position, and its width.  The bytes behind the first one are
taken as they are, and a sequence that the end of the text cuts off is read otherwise. -/
def utf8Decode : Bytes → ℕ × ℕ
  | [] => (0, 1)
  | first :: rest =>
    if first.toNat < 128 then (first.toNat, 1)
    else if first.toNat < 224 ∧ 1 ≤ rest.length then
      (first.toNat % 32 * 64 + (rest.getD 0 0).toNat % 64, 2)
    else if first.toNat < 240 ∧ 2 ≤ rest.length then
      (first.toNat % 16 * 4096 + (rest.getD 0 0).toNat % 64 * 64 + (rest.getD 1 0).toNat % 64, 3)
    else if 3 ≤ rest.length then
      (first.toNat % 8 * 262144 + (rest.getD 0 0).toNat % 64 * 4096 +
        (rest.getD 1 0).toNat % 64 * 64 + (rest.getD 2 0).toNat % 64, 4)
    else (first.toNat, 1)

theorem utf8Decode_width_pos (s : Bytes) : 0 < (utf8Decode s).2 := by
  cases s with
  | nil => exact Nat.one_pos
  | cons a s =>
    rw [utf8Decode]
    split_ifs <;> exact Nat.succ_pos _

theorem drop_width_lt {s : Bytes} (h : s ≠ []) :
    (s.drop (utf8Decode s).2).length < s.length := by
  have := utf8Decode_width_pos s
  have := List.length_pos_iff.mpr h
  rw [List.length_drop]
  omega

/-- The bytes that a code point of a vocabulary text stands for, in `native_tokenizer_decode`. -/
def decodedBytes (codepoint : ℕ) : Bytes :=
  if 256 ≤ codepoint ∧ codepoint < 512 then [UInt8.ofNat (unicodeByte codepoint)]
  else if codepoint ≤ 255 then [UInt8.ofNat codepoint]
  else utf8 codepoint

/-- `decoded_codepoint_width` -/
def decodedCodepointWidth (codepoint : ℕ) : ℕ :=
  if codepoint ≤ 511 then 1
  else if codepoint ≤ 2047 then 2
  else if codepoint ≤ 65535 then 3
  else 4

/-- The bytes of a vocabulary text. -/
def pieceBytes (piece : Bytes) : Bytes :=
  if _h : piece = [] then []
  else decodedBytes (utf8Decode piece).1 ++ pieceBytes (piece.drop (utf8Decode piece).2)
termination_by piece.length
decreasing_by exact drop_width_lt _h

/-- The width that the first pass of `native_tokenizer_decode` reserves is the number of bytes the
second one writes. -/
theorem length_decodedBytes (codepoint : ℕ) :
    (decodedBytes codepoint).length = decodedCodepointWidth codepoint := by
  rw [decodedBytes, decodedCodepointWidth]
  by_cases h1 : codepoint ≤ 511
  · rw [if_pos h1]
    split_ifs with h2 h3
    · rfl
    · rfl
    · exact absurd ⟨by omega, by omega⟩ h2
  · rw [if_neg h1, if_neg (by omega), if_neg (by omega)]
    split_ifs with h2 h3
    · rw [utf8_two (by omega) h2]
      rfl
    · rw [utf8_three (by omega) h3]
      rfl
    · rw [utf8_four (by omega)]
      rfl

/-! ### Reading what was encoded -/

/-- The character at the start of an encoded text. -/
theorem utf8Decode_append {n : ℕ} (hn : n < 2097152) (t : Bytes) :
    utf8Decode (utf8 n ++ t) = (n, (utf8 n).length) := by
  rcases Nat.lt_or_ge 127 n with h1 | h1
  · rcases Nat.lt_or_ge 2047 n with h2 | h2
    · rcases Nat.lt_or_ge 65535 n with h3 | h3
      · rw [utf8_four h3]
        simp only [List.cons_append, List.nil_append, utf8Decode, List.length_cons, List.getD_cons_zero,
          List.getD_cons_succ]
        rw [toNat_byte (k := 240 + n / 262144) (by omega),
          toNat_byte (k := 128 + n / 4096 % 64) (by omega),
          toNat_byte (k := 128 + n / 64 % 64) (by omega), toNat_byte (k := 128 + n % 64) (by omega),
          if_neg (by omega), if_neg (by omega), if_neg (by omega), if_pos (by omega)]
        exact Prod.ext (by simp only; omega) rfl
      · rw [utf8_three h2 h3]
        simp only [List.cons_append, List.nil_append, utf8Decode, List.length_cons, List.getD_cons_zero,
          List.getD_cons_succ]
        rw [toNat_byte (k := 224 + n / 4096) (by omega),
          toNat_byte (k := 128 + n / 64 % 64) (by omega), toNat_byte (k := 128 + n % 64) (by omega),
          if_neg (by omega), if_neg (by omega), if_pos ⟨by omega, by omega⟩]
        exact Prod.ext (by simp only; omega) rfl
    · rw [utf8_two h1 h2]
      simp only [List.cons_append, List.nil_append, utf8Decode, List.length_cons, List.getD_cons_zero]
      rw [toNat_byte (k := 192 + n / 64) (by omega), toNat_byte (k := 128 + n % 64) (by omega),
        if_neg (by omega), if_pos ⟨by omega, by omega⟩]
      exact Prod.ext (by simp only; omega) rfl
  · rw [utf8_one h1]
    simp only [List.cons_append, List.nil_append, utf8Decode]
    rw [toNat_byte (k := n) (by omega), if_pos (by omega)]
    rfl

theorem utf8_ne_nil (n : ℕ) : utf8 n ≠ [] := by
  rw [utf8]
  simp only
  split_ifs <;> exact List.cons_ne_nil _ _

@[simp] theorem pieceBytes_nil : pieceBytes [] = [] := by
  rw [pieceBytes, dif_pos rfl]

theorem pieceBytes_utf8_append {n : ℕ} (hn : n < 2097152) (t : Bytes) :
    pieceBytes (utf8 n ++ t) = decodedBytes n ++ pieceBytes t := by
  have hne : utf8 n ++ t ≠ [] := List.append_ne_nil_of_left_ne_nil (utf8_ne_nil n) t
  rw [pieceBytes, dif_neg hne, utf8Decode_append hn, List.drop_left]

theorem byteUnicode_lt {value : ℕ} (h : value < 256) : byteUnicode value < 324 := by
  rw [byteUnicode]
  split_ifs <;> omega

theorem decodedBytes_byteUnicode (b : Byte) : decodedBytes (byteUnicode b.toNat) = [b] := by
  have hb : b.toNat < 256 := b.toNat_lt
  rw [decodedBytes, byteUnicode, unicodeByte]
  split_ifs <;> first | omega | (rw [← byte_eq (a := b) (by omega)])

/-- What is written in the alphabet is read back. -/
theorem pieceBytes_symbols (bytes : Bytes) : pieceBytes (bytes.flatMap byteSymbol) = bytes := by
  induction bytes with
  | nil => exact pieceBytes_nil
  | cons b bytes ih =>
    have hb := byteUnicode_lt b.toNat_lt
    rw [List.flatMap_cons, byteSymbol, pieceBytes_utf8_append (by omega), decodedBytes_byteUnicode, ih]
    rfl

/-- An ASCII text is its own bytes. -/
theorem pieceBytes_ascii {piece : Bytes} (h : ∀ b ∈ piece, b.toNat ≤ 127) : pieceBytes piece = piece := by
  induction piece with
  | nil => exact pieceBytes_nil
  | cons b piece ih =>
    obtain ⟨hb, hrest⟩ := List.forall_mem_cons.mp h
    have hdecode : utf8Decode (b :: piece) = (b.toNat, 1) := if_pos (by omega)
    rw [pieceBytes, dif_neg (List.cons_ne_nil b piece), hdecode, List.drop_one, List.tail_cons,
      ih hrest, decodedBytes, if_neg (by omega), if_pos (by omega), UInt8.ofNat_toNat]
    rfl

end Tokenizer

end FortAI
