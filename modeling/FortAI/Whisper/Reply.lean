import FortAI.Chat.Document

/-!
# Replies of the transcription service

`whisperJsonEscape` is `whisper_json_escape`, the inside of a string literal.  The bytes below 32
that have no letter of their own take a formatted write into six characters.  The format holds two
backslashes, so the record has seven characters, and the write is a run-time error.

* `whisperJsonEscape_of_unformatted` : without these bytes the text is escaped.
* `isReplied_iff` : and with one of them there is no reply.
-/

namespace FortAI

namespace Whisper

open CString Chat

/-! ### The formatted write -/

/-- A hexadecimal digit as a format writes it. -/
def hexUpper (value : ℕ) : Byte := UInt8.ofNat (if value < 10 then 48 + value else 55 + value)

/-- `z4.4`, for a value of at most four digits. -/
def z44 (value : ℕ) : Bytes :=
  [hexUpper (value / 4096 % 16), hexUpper (value / 256 % 16), hexUpper (value / 16 % 16),
    hexUpper (value % 16)]

/-- A `write` of one record into a variable of `width` characters: blanks fill it up, and a longer
record is a run-time error. -/
def internalWrite (width : ℕ) (record : Bytes) : Option Bytes :=
  if record.length ≤ width then some (record ++ List.replicate (width - record.length) 32) else none

/-- `write(hex, '("\\u",z4.4)') code` -/
def writeHex (code : ℕ) : Option Bytes := internalWrite 6 ([92, 92, 117] ++ z44 code)

/-! ### The service's texts -/

/-- The bytes of `case (0:7, 11, 14:31)`. -/
def IsFormatted (b : Byte) : Prop := b ≤ 7 ∨ b = 11 ∨ (14 ≤ b ∧ b ≤ 31)

instance (b : Byte) : Decidable (IsFormatted b) := inferInstanceAs (Decidable (_ ∨ _))

/-- The turn of the loop of `whisper_json_escape`; `none` is the run-time error. -/
def escapeTurn (escaped : Bytes) (b : Byte) : Option Bytes :=
  if b = 34 then some (escaped ++ [92, 34])
  else if b = 92 then some (escaped ++ [92, 92])
  else if b = 8 then some (escaped ++ [92, 98])
  else if b = 9 then some (escaped ++ [92, 116])
  else if b = 10 then some (escaped ++ [92, 110])
  else if b = 12 then some (escaped ++ [92, 102])
  else if b = 13 then some (escaped ++ [92, 114])
  else if IsFormatted b then (writeHex b.toNat).map (escaped ++ ·)
  else some (escaped ++ [b])

/-- `whisper_json_escape` -/
def whisperJsonEscape (text : Bytes) : Option Bytes := text.foldlM escapeTurn []

/-- `whisper_transcription_json` -/
def whisperTranscriptionJson (text : Bytes) : Option Bytes :=
  (whisperJsonEscape text).map fun escaped => ascii "\x7b\"text\":\"" ++ escaped ++ ascii "\"\x7d"

/-- `whisper_error_json` -/
def whisperErrorJson (message : Bytes) : Option Bytes :=
  (whisperJsonEscape message).map fun escaped =>
    ascii "\x7b\"error\":\x7b\"message\":\"" ++ escaped ++ ascii "\",\"type\":\"invalid_request_error\"\x7d\x7d"

/-- The inside of a literal that stands for the text. -/
def StandsFor (escaped text : Bytes) : Prop := ∃ t : Text, escaped = t.raw ∧ t.decode = text

/-- The text is written as a literal that stands for it, and so is its reply. -/
def IsReplied (text : Bytes) : Prop :=
  ∃ escaped, whisperJsonEscape text = some escaped ∧ StandsFor escaped text ∧
    ∃ body, whisperTranscriptionJson text = some body ∧ WellFormed body

/-! ### One turn -/

theorem writeHex_eq_none (code : ℕ) : writeHex code = none := rfl

theorem escapeTurn_of_formatted {b : Byte} (h : IsFormatted b) (escaped : Bytes) :
    escapeTurn escaped b = none := by
  have hne {c : Byte} (hc : ¬ IsFormatted c) : b ≠ c := fun heq => hc (heq ▸ h)
  rw [escapeTurn, if_neg (hne (by decide)), if_neg (hne (by decide)), if_neg (hne (by decide)),
    if_neg (hne (by decide)), if_neg (hne (by decide)), if_neg (hne (by decide)),
    if_neg (hne (by decide)), if_pos h, writeHex_eq_none, Option.map_none]

/-- A byte that the case default leaves alone is plain. -/
theorem isPlain_of_unformatted {b : Byte} (h : ¬ IsFormatted b)
    (hletter : b ∉ [34, 92, 8, 9, 10, 12, 13]) : isPlain b = true := by
  simp only [List.mem_cons, List.not_mem_nil, or_false, not_or] at hletter
  refine isPlain_iff.mpr ⟨UInt8.not_lt.mp fun hlt => ?_, hletter.1, hletter.2.1⟩
  have hall : ((List.range 32).all fun n =>
      decide (IsFormatted (UInt8.ofNat n)) || [34, 92, 8, 9, 10, 12, 13].contains (UInt8.ofNat n)) =
        true := by
    decide
  have hb := List.all_eq_true.mp hall b.toNat (List.mem_range.mpr (UInt8.lt_iff_toNat_lt.mp hlt))
  rw [UInt8.ofNat_toNat] at hb
  simp [h, hletter] at hb

/-- Any other byte is written as a piece that stands for it. -/
theorem escapeTurn_of_unformatted {b : Byte} (h : ¬ IsFormatted b) (escaped : Bytes) :
    ∃ p : Piece, escapeTurn escaped b = some (escaped ++ p.render) ∧
      ∀ rest : Text, Text.decode (p :: rest) = b :: rest.decode := by
  by_cases hletter : b ∈ [34, 92, 8, 9, 10, 12, 13]
  · have hescape (letter meaning : Byte) (hmem : (letter, meaning) ∈ escapes) (rest : Text) :
        Text.decode (.escape letter meaning hmem :: rest) = meaning :: rest.decode := by
      rw [Text.decode]
    simp only [List.mem_cons, List.not_mem_nil, or_false] at hletter
    rcases hletter with rfl | rfl | rfl | rfl | rfl | rfl | rfl
    · exact ⟨.escape 34 34 (by decide), rfl, hescape 34 34 _⟩
    · exact ⟨.escape 92 92 (by decide), rfl, hescape 92 92 _⟩
    · exact ⟨.escape 98 8 (by decide), rfl, hescape 98 8 _⟩
    · exact ⟨.escape 116 9 (by decide), rfl, hescape 116 9 _⟩
    · exact ⟨.escape 110 10 (by decide), rfl, hescape 110 10 _⟩
    · exact ⟨.escape 102 12 (by decide), rfl, hescape 102 12 _⟩
    · exact ⟨.escape 114 13 (by decide), rfl, hescape 114 13 _⟩
  · refine ⟨.plain b (isPlain_of_unformatted h hletter), ?_, fun rest => by rw [Text.decode]⟩
    simp only [List.mem_cons, List.not_mem_nil, or_false, not_or] at hletter
    obtain ⟨h34, h92, h8, h9, h10, h12, h13⟩ := hletter
    rw [escapeTurn, if_neg h34, if_neg h92, if_neg h8, if_neg h9, if_neg h10, if_neg h12, if_neg h13,
      if_neg h]
    rfl

/-! ### The loop -/

theorem foldlM_escapeTurn {text : Bytes} (h : ∀ b ∈ text, ¬ IsFormatted b) (escaped : Bytes) :
    ∃ t : Text, text.foldlM escapeTurn escaped = some (escaped ++ t.raw) ∧ t.decode = text := by
  induction text generalizing escaped with
  | nil => exact ⟨[], congrArg some (List.append_nil escaped).symm, rfl⟩
  | cons b text ih =>
    obtain ⟨p, hturn, hp⟩ := escapeTurn_of_unformatted (h b List.mem_cons_self) escaped
    obtain ⟨t, ht, hdecode⟩ := ih (fun c hc => h c (List.mem_cons_of_mem b hc)) (escaped ++ p.render)
    refine ⟨p :: t, ?_, by rw [hp, hdecode]⟩
    rw [List.foldlM_cons, hturn, Option.bind_eq_bind, Option.bind_some, ht, List.append_assoc]
    rfl

theorem foldlM_escapeTurn_eq_none {text : Bytes} {b : Byte} (hb : b ∈ text) (h : IsFormatted b)
    (escaped : Bytes) : text.foldlM escapeTurn escaped = none := by
  induction text generalizing escaped with
  | nil => cases hb
  | cons c text ih =>
    rw [List.foldlM_cons, Option.bind_eq_bind]
    rcases List.mem_cons.mp hb with rfl | hb
    · rw [escapeTurn_of_formatted h, Option.bind_none]
    · cases escapeTurn escaped c with
      | none => rfl
      | some escaped => exact ih hb escaped

/-- Without a byte that takes the formatted write, what is written is the inside of a literal that
stands for the text. -/
theorem whisperJsonEscape_of_unformatted {text : Bytes} (h : ∀ b ∈ text, ¬ IsFormatted b) :
    ∃ t : Text, whisperJsonEscape text = some t.raw ∧ t.decode = text :=
  foldlM_escapeTurn h []

theorem whisperJsonEscape_isSome_iff (text : Bytes) :
    (whisperJsonEscape text).isSome ↔ ∀ b ∈ text, ¬ IsFormatted b := by
  constructor
  · intro h b hb hformatted
    rw [whisperJsonEscape, foldlM_escapeTurn_eq_none hb hformatted] at h
    exact Bool.noConfusion h
  · intro h
    obtain ⟨t, ht, _⟩ := whisperJsonEscape_of_unformatted h
    rw [ht]
    rfl

/-! ### The replies -/

/-- The body of a transcription: an object with the text as its one member. -/
theorem transcription_body (t : Text) :
    ascii "\x7b\"text\":\"" ++ t.raw ++ ascii "\"\x7d" = (Document.object [("text", .string t)]).render := by
  have hname : jsonEscape (ascii "text") = ascii "\"text\"" := by decide
  rw [Document.render_object, Document.fieldText, hname]
  show _ = 123 :: (ascii "\"text\"" ++ 58 :: t.render ++ ([] ++ [125]))
  rw [Text.render]
  show 123 :: 34 :: 116 :: 101 :: 120 :: 116 :: 34 :: 58 :: 34 :: (t.raw ++ [34, 125]) =
    123 :: 34 :: 116 :: 101 :: 120 :: 116 :: 34 :: 58 :: 34 :: (t.raw ++ [34] ++ [125])
  rw [List.append_assoc]
  rfl

theorem error_body (t : Text) :
    ascii "\x7b\"error\":\x7b\"message\":\"" ++ t.raw ++
        ascii "\",\"type\":\"invalid_request_error\"\x7d\x7d" =
      (Document.object [("error", Document.object
        [("message", .string t), ("type", Document.word "invalid_request_error")])]).render := by
  have herror : jsonEscape (ascii "error") = ascii "\"error\"" := by decide
  have hmessage : jsonEscape (ascii "message") = ascii "\"message\"" := by decide
  have htype : Document.fieldText ("type", Document.word "invalid_request_error") =
      ascii "\"type\":\"invalid_request_error\"" := by
    decide
  have hopening : ascii "\x7b\"error\":\x7b\"message\":\"" =
      123 :: (ascii "\"error\"" ++ 58 :: 123 :: (ascii "\"message\"" ++ [58, 34])) := rfl
  have hclosing : ascii "\",\"type\":\"invalid_request_error\"\x7d\x7d" =
      34 :: 44 :: (ascii "\"type\":\"invalid_request_error\"" ++ [125, 125]) := rfl
  rw [Document.render_object, Document.fieldText, Document.render_object, Document.fieldText, herror,
    hmessage, List.flatMap_cons, htype, hopening, hclosing]
  show _ = 123 :: (ascii "\"error\"" ++ 58 :: 123 :: (ascii "\"message\"" ++ 58 :: t.render ++
    (44 :: ascii "\"type\":\"invalid_request_error\"" ++ [] ++ [125])) ++ ([] ++ [125]))
  rw [Text.render]
  simp only [List.append_assoc, List.cons_append, List.nil_append]

/-- The body of an error is well formed whenever there is one. -/
theorem wellFormed_whisperErrorJson {message body : Bytes} (h : whisperErrorJson message = some body) :
    WellFormed body := by
  obtain ⟨escaped, hescaped, rfl⟩ := Option.map_eq_some_iff.mp h
  have hunformatted := (whisperJsonEscape_isSome_iff message).mp (hescaped ▸ rfl)
  obtain ⟨t, ht, _⟩ := whisperJsonEscape_of_unformatted hunformatted
  rw [ht, Option.some.injEq] at hescaped
  rw [← hescaped, error_body]
  exact Document.wellFormed _

/-- A transcript gets an escaped text that stands for it and a well-formed body exactly when none of
its bytes takes the formatted write. -/
theorem isReplied_iff (text : Bytes) : IsReplied text ↔ ∀ b ∈ text, ¬ IsFormatted b := by
  constructor
  · rintro ⟨escaped, hescaped, _⟩
    rw [← whisperJsonEscape_isSome_iff, hescaped]
    rfl
  · intro h
    obtain ⟨t, ht, hdecode⟩ := whisperJsonEscape_of_unformatted h
    refine ⟨t.raw, ht, ⟨t, rfl, hdecode⟩, (Document.object [("text", .string t)]).render, ?_,
      Document.wellFormed _⟩
    rw [whisperTranscriptionJson, ht, Option.map_some, transcription_body]

/-- A transcript with an escape character. -/
theorem not_isReplied_escapeCharacter : ¬ IsReplied [27] := by
  rintro ⟨escaped, hescaped, _⟩
  have hnone : whisperJsonEscape [27] = none := rfl
  rw [hnone] at hescaped
  cases hescaped

end Whisper

end FortAI
