import FortAI.Machine.Json

/-!
# Writing JSON

`jsonEscape` is `json_escape`.  It writes every text as a string of RFC 8259 that stands for the
text (`jsonEscape_eq`, `decode_escapeText`), with no byte below 32 in it (`le_of_mem_jsonEscape`).
-/

namespace FortAI

namespace Chat

open CString

/-- `hex_character` -/
def hexCharacter (value : Byte) : Byte := if value < 10 then 48 + value else 97 + (value - 10)

/-- The turn of the loop of `json_escape` for a byte. -/
def escapeByte (b : Byte) : Bytes :=
  if b = 34 || b = 92 then [92, b]
  else if b = 10 then [92, 110]
  else if b = 13 then [92, 114]
  else if b = 9 then [92, 116]
  else if b < 32 then [92, 117, 48, 48, hexCharacter (b / 16), hexCharacter (b % 16)]
  else [b]

/-- `json_escape` -/
def jsonEscape (text : Bytes) : Bytes := 34 :: (text.flatMap escapeByte ++ [34])

/-! ### The escaped text -/

def zeroDigit : Hex := ⟨48, 0, rfl⟩

/-- The digits `hex_character` makes. -/
theorem hexValue_hexCharacter {value : Byte} (h : value < 16) :
    hexValue (hexCharacter value) = some value.toNat := by
  have hdigit : ∀ n < 16, hexValue (hexCharacter (UInt8.ofNat n)) = some n := by decide
  have := hdigit value.toNat (UInt8.lt_iff_toNat_lt.mp h)
  rwa [UInt8.ofNat_toNat] at this

theorem div_lt_of_lt {b : Byte} (h : b < 32) : b / 16 < 16 := by
  rw [UInt8.lt_iff_toNat_lt] at h ⊢
  rw [UInt8.toNat_div]
  exact Nat.div_lt_of_lt_mul (Nat.lt_trans h (by decide))

theorem mod_lt_sixteen (b : Byte) : b % 16 < 16 := by
  rw [UInt8.lt_iff_toNat_lt, UInt8.toNat_mod]
  exact Nat.mod_lt _ (by decide)

/-- How a byte is written in a string. -/
def escapePiece (b : Byte) : Piece :=
  if h : isPlain b = true then .plain b h
  else if h : b = 34 then .escape 34 34 (by decide)
  else if h : b = 92 then .escape 92 92 (by decide)
  else if h : b = 10 then .escape 110 10 (by decide)
  else if h : b = 13 then .escape 114 13 (by decide)
  else if h : b = 9 then .escape 116 9 (by decide)
  else if h : b < 32 then
    .unicode zeroDigit zeroDigit ⟨_, _, hexValue_hexCharacter (div_lt_of_lt h)⟩
      ⟨_, _, hexValue_hexCharacter (mod_lt_sixteen b)⟩
  else .unicode zeroDigit zeroDigit zeroDigit zeroDigit

def escapeText (text : Bytes) : Text := text.map escapePiece

theorem isPlain_iff {b : Byte} : isPlain b = true ↔ 32 ≤ b ∧ b ≠ 34 ∧ b ≠ 92 := by
  simp [isPlain, and_assoc]

theorem escapePiece_control {b : Byte} (hplain : ¬ isPlain b = true) (h : b ∉ [34, 92, 10, 13, 9]) :
    b < 32 := by
  simp only [List.mem_cons, List.not_mem_nil, or_false, not_or] at h
  by_contra hge
  exact hplain (isPlain_iff.mpr ⟨UInt8.not_lt.mp hge, h.1, h.2.1⟩)

theorem escapeByte_eq (b : Byte) : escapeByte b = (escapePiece b).render := by
  rw [escapeByte, escapePiece]
  by_cases hplain : isPlain b = true
  · obtain ⟨hge, hquote, hslash⟩ := isPlain_iff.mp hplain
    have hcontrol : ¬ b < 32 := UInt8.not_lt.mpr hge
    have hne {c : Byte} (hc : c < 32) : b ≠ c := fun h => hcontrol (h ▸ hc)
    rw [dif_pos hplain]
    simp [hquote, hslash, hcontrol, hne (show (10 : Byte) < 32 by decide),
      hne (show (13 : Byte) < 32 by decide), hne (show (9 : Byte) < 32 by decide), Piece.render]
  rw [dif_neg hplain]
  by_cases hquote : b = 34
  · subst hquote; rfl
  by_cases hslash : b = 92
  · subst hslash; rfl
  by_cases hlf : b = 10
  · subst hlf; rfl
  by_cases hcr : b = 13
  · subst hcr; rfl
  by_cases htab : b = 9
  · subst htab; rfl
  have hcontrol := escapePiece_control hplain (by simp [hquote, hslash, hlf, hcr, htab])
  simp only [hquote, hslash, hlf, hcr, htab, hcontrol, decide_false, Bool.or_self,
    Bool.false_eq_true, if_false, dite_false, if_true, dite_true, Piece.render, zeroDigit]

/-- What `json_escape` writes is a string. -/
theorem jsonEscape_eq (text : Bytes) : jsonEscape text = (escapeText text).render := by
  have hraw : text.flatMap escapeByte = (escapeText text).raw := by
    rw [Text.raw, escapeText, List.flatMap_map]
    congr 1
    funext b
    exact escapeByte_eq b
  rw [jsonEscape, hraw, Text.render]

/-- A piece stands for its byte, whatever follows it. -/
theorem decode_escapePiece (b : Byte) (rest : Text) :
    Text.decode (escapePiece b :: rest) = b :: Text.decode rest := by
  rw [escapePiece]
  by_cases hplain : isPlain b = true
  · rw [dif_pos hplain, Text.decode]
  rw [dif_neg hplain]
  by_cases hquote : b = 34
  · rw [dif_pos hquote, Text.decode, hquote]
  rw [dif_neg hquote]
  by_cases hslash : b = 92
  · rw [dif_pos hslash, Text.decode, hslash]
  rw [dif_neg hslash]
  by_cases hlf : b = 10
  · rw [dif_pos hlf, Text.decode, hlf]
  rw [dif_neg hlf]
  by_cases hcr : b = 13
  · rw [dif_pos hcr, Text.decode, hcr]
  rw [dif_neg hcr]
  by_cases htab : b = 9
  · rw [dif_pos htab, Text.decode, htab]
  rw [dif_neg htab]
  have hcontrol := escapePiece_control hplain (by simp [hquote, hslash, hlf, hcr, htab])
  rw [dif_pos hcontrol]
  -- the code unit is below the surrogates
  have hcode (p q : Hex) (hp : p.value = (b / 16).toNat) (hq : q.value = (b % 16).toNat) :
      codeUnit zeroDigit zeroDigit p q = b.toNat := by
    rw [codeUnit, hp, hq, UInt8.toNat_div, UInt8.toNat_mod]
    show 16 * (16 * (16 * 0 + 0) + b.toNat / 16) + b.toNat % 16 = b.toNat
    omega
  have hlt : b.toNat < 32 := UInt8.lt_iff_toNat_lt.mp hcontrol
  have hhigh : isHigh b.toNat = false := by
    rw [isHigh, Bool.and_eq_false_imp, decide_eq_true_eq]
    omega
  have hbyte : utf8 b.toNat = [b] := by
    rw [utf8]
    simp only [if_pos (show b.toNat ≤ 127 by omega), UInt8.ofNat_toNat]
  rw [Text.decode.eq_def]
  split
  · rename_i heq
    exact absurd heq (List.cons_ne_nil _ _)
  · rename_i heq
    exact nomatch heq
  · rename_i heq
    exact nomatch heq
  · rename_i heq
    simp only [List.cons.injEq, Piece.unicode.injEq] at heq
    obtain ⟨⟨rfl, rfl, rfl, rfl⟩, rfl⟩ := heq
    rw [hcode _ _ rfl rfl, hhigh, Bool.false_and, hbyte]
    rfl
  · rename_i heq
    simp only [List.cons.injEq, Piece.unicode.injEq] at heq
    obtain ⟨⟨rfl, rfl, rfl, rfl⟩, rfl⟩ := heq
    rw [hcode _ _ rfl rfl, hbyte]
    rfl

/-- The string stands for the text. -/
theorem decode_escapeText (text : Bytes) : (escapeText text).decode = text := by
  induction text with
  | nil => rfl
  | cons b text ih =>
    rw [escapeText, List.map_cons, decode_escapePiece]
    exact congrArg (b :: ·) ih

theorem le_hexCharacter {value : Byte} (h : value < 16) : 32 ≤ hexCharacter value := by
  have hdigit : ∀ n < 16, 32 ≤ hexCharacter (UInt8.ofNat n) := by decide
  have := hdigit value.toNat (UInt8.lt_iff_toNat_lt.mp h)
  rwa [UInt8.ofNat_toNat] at this

/-- No byte of the string is a control character. -/
theorem le_of_mem_jsonEscape {text : Bytes} : ∀ b ∈ jsonEscape text, 32 ≤ b := by
  have hbyte (b : Byte) : ∀ c ∈ escapeByte b, 32 ≤ c := by
    intro c hc
    rw [escapeByte] at hc
    split_ifs at hc with hmark hlf hcr htab hcontrol
    all_goals simp only [List.mem_cons, List.not_mem_nil, or_false] at hc
    · simp only [Bool.or_eq_true, decide_eq_true_eq] at hmark
      rcases hc with rfl | rfl
      · decide
      · rcases hmark with rfl | rfl <;> decide
    · rcases hc with rfl | rfl <;> decide
    · rcases hc with rfl | rfl <;> decide
    · rcases hc with rfl | rfl <;> decide
    · rcases hc with rfl | rfl | rfl | rfl | rfl | rfl
      iterate 4 decide
      · exact le_hexCharacter (div_lt_of_lt hcontrol)
      · exact le_hexCharacter (mod_lt_sixteen b)
    · rw [hc]
      exact UInt8.not_lt.mp hcontrol
  intro b hb
  simp only [jsonEscape, List.mem_cons, List.mem_append, List.mem_flatMap, List.not_mem_nil,
    or_false] at hb
  rcases hb with rfl | ⟨c, -, hb⟩ | rfl
  · decide
  · exact hbyte c b hb
  · decide

end Chat

end FortAI
