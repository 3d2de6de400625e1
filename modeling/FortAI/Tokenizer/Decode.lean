import FortAI.Tokenizer.Vocabulary

/-!
# From tokens to text

`decode` is `native_tokenizer_decode`: the bytes of the tokens one after the other, with a
replacement character for each byte that is not part of a UTF-8 sequence.  Two functions test for
such sequences, `validUtf8Width` of the tokenizer and `utf8PieceWidth` of the server.

* `validUtf8Width_eq_iff` : the test finds exactly the sequences of RFC 3629.
* `decode_replaced` : what the tokenizer returns.
-/

namespace FortAI

namespace Tokenizer

open CString Utf8

/-! ### Widths of sequences -/

/-- `valid_utf8_width`; 0 when no sequence starts here. -/
def validUtf8Width : Bytes → ℕ
  | [] => 0
  | first :: rest =>
    if first.toNat < 128 then 1
    else if 194 ≤ first.toNat ∧ first.toNat ≤ 223 then
      match rest with
      | second :: _ => if 128 ≤ second.toNat ∧ second.toNat ≤ 191 then 2 else 0
      | [] => 0
    else if 224 ≤ first.toNat ∧ first.toNat ≤ 239 then
      match rest with
      | second :: third :: _ =>
        let codepoint := first.toNat % 16 * 4096 + second.toNat % 64 * 64 + third.toNat % 64
        if second.toNat < 128 ∨ 191 < second.toNat then 0
        else if third.toNat < 128 ∨ 191 < third.toNat then 0
        else if codepoint < 2048 ∨ 55296 ≤ codepoint ∧ codepoint ≤ 57343 then 0
        else 3
      | _ => 0
    else if 240 ≤ first.toNat ∧ first.toNat ≤ 244 then
      match rest with
      | second :: third :: fourth :: _ =>
        let codepoint := first.toNat % 8 * 262144 + second.toNat % 64 * 4096 +
          third.toNat % 64 * 64 + fourth.toNat % 64
        if second.toNat < 128 ∨ 191 < second.toNat then 0
        else if third.toNat < 128 ∨ 191 < third.toNat then 0
        else if fourth.toNat < 128 ∨ 191 < fourth.toNat then 0
        else if codepoint < 65536 ∨ 1114111 < codepoint then 0
        else 4
      | _ => 0
    else 0

/-- `utf8_piece_width` -/
def utf8PieceWidth : Bytes → ℕ
  | [] => 0
  | first :: rest =>
    if first.toNat < 128 then 1
    else if 194 ≤ first.toNat ∧ first.toNat ≤ 223 then
      match rest with
      | second :: _ => if 128 ≤ second.toNat ∧ second.toNat ≤ 191 then 2 else 0
      | [] => 0
    else if 224 ≤ first.toNat ∧ first.toNat ≤ 239 then
      match rest with
      | second :: third :: _ =>
        let codepoint := first.toNat % 16 * 4096 + second.toNat % 64 * 64 + third.toNat % 64
        if second.toNat < 128 ∨ 191 < second.toNat ∨ third.toNat < 128 ∨ 191 < third.toNat then 0
        else if codepoint < 2048 ∨ 55296 ≤ codepoint ∧ codepoint ≤ 57343 then 0
        else 3
      | _ => 0
    else if 240 ≤ first.toNat ∧ first.toNat ≤ 244 then
      match rest with
      | second :: third :: fourth :: _ =>
        let codepoint := first.toNat % 8 * 262144 + second.toNat % 64 * 4096 +
          third.toNat % 64 * 64 + fourth.toNat % 64
        if second.toNat < 128 ∨ 191 < second.toNat ∨ third.toNat < 128 ∨ 191 < third.toNat ∨
            fourth.toNat < 128 ∨ 191 < fourth.toNat then 0
        else if codepoint < 65536 ∨ 1114111 < codepoint then 0
        else 4
      | _ => 0
    else 0

/-- The two tests differ in the order of their checks. -/
theorem utf8PieceWidth_eq (s : Bytes) : utf8PieceWidth s = validUtf8Width s := by
  cases s with
  | nil => rfl
  | cons first rest =>
    unfold utf8PieceWidth validUtf8Width
    refine if_congr Iff.rfl rfl (if_congr Iff.rfl rfl (if_congr Iff.rfl ?_ (if_congr Iff.rfl ?_ rfl)))
    · rcases rest with _ | ⟨second, _ | ⟨third, rest⟩⟩
      · rfl
      · rfl
      · simp only
        split_ifs <;> first | rfl | omega
    · rcases rest with _ | ⟨second, _ | ⟨third, _ | ⟨fourth, rest⟩⟩⟩
      · rfl
      · rfl
      · rfl
      · simp only
        split_ifs <;> first | rfl | omega

/-- A sequence is found with its length. -/
theorem validUtf8Width_append {q : Bytes} (h : Sequence q) (t : Bytes) :
    validUtf8Width (q ++ t) = q.length := by
  cases h with
  | one ha => exact if_pos (by omega)
  | two ha ha' hb =>
    obtain ⟨hb, hb'⟩ := hb
    simp only [List.cons_append, List.nil_append, validUtf8Width]
    rw [if_neg (by omega), if_pos ⟨ha, ha'⟩, if_pos ⟨hb, hb'⟩]
    rfl
  | three ha ha' hb hc hlow hhigh =>
    obtain ⟨hb, hb'⟩ := hb
    obtain ⟨hc, hc'⟩ := hc
    simp only [List.cons_append, List.nil_append, validUtf8Width]
    rw [if_neg (by omega), if_neg (by omega), if_pos ⟨ha, ha'⟩, if_neg (by omega), if_neg (by omega),
      if_neg (by omega)]
    rfl
  | four ha ha' hb hc hd hlow hhigh =>
    obtain ⟨hb, hb'⟩ := hb
    obtain ⟨hc, hc'⟩ := hc
    obtain ⟨hd, hd'⟩ := hd
    simp only [List.cons_append, List.nil_append, validUtf8Width]
    rw [if_neg (by omega), if_neg (by omega), if_neg (by omega), if_pos ⟨ha, ha'⟩,
      if_neg (by omega), if_neg (by omega), if_neg (by omega), if_neg (by omega)]
    rfl

/-- What is found is a sequence. -/
theorem sequence_of_validUtf8Width {s : Bytes} (h : validUtf8Width s ≠ 0) :
    ∃ q t, Sequence q ∧ s = q ++ t := by
  cases s with
  | nil => exact absurd rfl h
  | cons first rest =>
    unfold validUtf8Width at h
    simp only at h
    split_ifs at h with h1 h2 h3 h4
    · exact ⟨[first], rest, .one (by omega), rfl⟩
    · rcases rest with _ | ⟨second, rest⟩
      · exact absurd rfl h
      · simp only at h
        split_ifs at h with hsecond
        · exact ⟨[first, second], rest, .two h2.1 h2.2 hsecond, rfl⟩
        · exact absurd rfl h
    · rcases rest with _ | ⟨second, _ | ⟨third, rest⟩⟩
      · exact absurd rfl h
      · exact absurd rfl h
      · simp only at h
        split_ifs at h with hsecond hthird hcode
        · exact absurd rfl h
        · exact absurd rfl h
        · exact absurd rfl h
        · exact ⟨[first, second, third], rest, .three h3.1 h3.2 ⟨by omega, by omega⟩
            ⟨by omega, by omega⟩ (by omega) (by omega), rfl⟩
    · rcases rest with _ | ⟨second, _ | ⟨third, _ | ⟨fourth, rest⟩⟩⟩
      · exact absurd rfl h
      · exact absurd rfl h
      · exact absurd rfl h
      · simp only at h
        split_ifs at h with hsecond hthird hfourth hcode
        · exact absurd rfl h
        · exact absurd rfl h
        · exact absurd rfl h
        · exact absurd rfl h
        · exact ⟨[first, second, third, fourth], rest, .four h4.1 h4.2 ⟨by omega, by omega⟩
            ⟨by omega, by omega⟩ ⟨by omega, by omega⟩ (by omega) (by omega), rfl⟩
    · exact absurd rfl h

theorem validUtf8Width_eq_iff {s : Bytes} {width : ℕ} (hpos : 0 < width) :
    validUtf8Width s = width ↔ width ≤ s.length ∧ Sequence (s.take width) := by
  constructor
  · rintro rfl
    obtain ⟨q, t, hq, rfl⟩ := sequence_of_validUtf8Width (Nat.pos_iff_ne_zero.mp hpos)
    rw [validUtf8Width_append hq, List.length_append, List.take_left]
    exact ⟨Nat.le_add_right _ _, hq⟩
  · rintro ⟨hle, hq⟩
    rw [← List.take_append_drop width s, validUtf8Width_append hq, List.length_take,
      Nat.min_eq_left hle]

/-- `valid_utf8_piece` -/
def validUtf8Piece (text : Bytes) : Bool :=
  if _h : text = [] then true
  else if _hwidth : utf8PieceWidth text = 0 then false
  else validUtf8Piece (text.drop (utf8PieceWidth text))
termination_by text.length
decreasing_by
  have := List.length_pos_iff.mpr _h
  rw [List.length_drop]
  omega

theorem validUtf8Piece_iff (text : Bytes) : validUtf8Piece text = true ↔ Valid text := by
  induction text using validUtf8Piece.induct with
  | case1 =>
    rw [validUtf8Piece, dif_pos rfl]
    exact iff_of_true rfl valid_nil
  | case2 text hne hwidth =>
    rw [validUtf8Piece, dif_neg hne, dif_pos hwidth]
    refine iff_of_false Bool.false_ne_true fun hvalid => ?_
    obtain ⟨q, t, hq, -, rfl⟩ := hvalid.head hne
    rw [utf8PieceWidth_eq, validUtf8Width_append hq] at hwidth
    exact hq.ne_nil (List.length_eq_zero_iff.mp hwidth)
  | case3 text hne hwidth ih =>
    rw [validUtf8Piece, dif_neg hne, dif_neg hwidth, ih]
    rw [utf8PieceWidth_eq] at hwidth ⊢
    obtain ⟨q, t, hq, rfl⟩ := sequence_of_validUtf8Width hwidth
    rw [validUtf8Width_append hq, List.drop_left]
    exact ⟨hq.append_valid, fun h => h.behind hq⟩

/-! ### Decoding -/

/-- `native_tokenizer_token_piece`; `none` when it is not valid. -/
def tokenPiece (self : Vocabulary) (token : ℤ) : Option Bytes :=
  if token < 0 ∨ (self.tokens.length : ℤ) ≤ token then none
  else some (pieceBytes (self.tokens.getD token.toNat []))

/-- `raw` -/
def rawBytes (self : Vocabulary) : List ℤ → Bytes
  | [] => []
  | id :: ids =>
    if id < 0 ∨ (self.tokens.length : ℤ) ≤ id then rawBytes self ids
    else pieceBytes (self.tokens.getD id.toNat []) ++ rawBytes self ids

/-- The loop that copies the sequences of `raw` and replaces the other bytes. -/
def sanitized (raw : Bytes) : Bytes :=
  if _h : raw = [] then []
  else if _hwidth : 0 < validUtf8Width raw then
    raw.take (validUtf8Width raw) ++ sanitized (raw.drop (validUtf8Width raw))
  else [239, 191, 189] ++ sanitized (raw.drop 1)
termination_by raw.length
decreasing_by
  · have := List.length_pos_iff.mpr _h
    rw [List.length_drop]
    omega
  · have := List.length_pos_iff.mpr _h
    rw [List.length_drop]
    omega

/-- `native_tokenizer_decode` -/
def decode (self : Vocabulary) (ids : List ℤ) : Bytes := sanitized (rawBytes self ids)

theorem rawBytes_eq (self : Vocabulary) (ids : List ℤ) :
    rawBytes self ids = ids.flatMap fun id => (tokenPiece self id).getD [] := by
  induction ids with
  | nil => rfl
  | cons id ids ih =>
    rw [rawBytes, List.flatMap_cons, tokenPiece, ← ih]
    split_ifs <;> rfl

theorem sanitized_replaced (raw : Bytes) : Replaced raw (sanitized raw) := by
  induction raw using sanitized.induct with
  | case1 =>
    rw [sanitized, dif_pos rfl]
    exact .nil
  | case2 raw hne hwidth ih =>
    rw [sanitized, dif_neg hne, dif_pos hwidth]
    have hsplit := (validUtf8Width_eq_iff hwidth).mp rfl
    conv_lhs => rw [← List.take_append_drop (validUtf8Width raw) raw]
    exact .sequence hsplit.2 ih
  | case3 raw hne hwidth ih =>
    rw [sanitized, dif_neg hne, dif_neg hwidth]
    obtain ⟨b, s, rfl⟩ := List.exists_cons_of_ne_nil hne
    refine .other (fun q hq hprefix => hwidth ?_) ih
    obtain ⟨t, ht⟩ := hprefix
    rw [← ht, validUtf8Width_append hq]
    exact List.length_pos_iff.mpr hq.ne_nil

/-- Both tests find the sequences of RFC 3629 with their width, and what the tokenizer returns is
the bytes of the tokens with a replacement character for each byte outside of such a sequence: it is
valid, and the bytes themselves when these are. -/
theorem utf8_handling (self : Vocabulary) :
    (∀ (s : Bytes) (width : ℕ), 0 < width →
      (validUtf8Width s = width ↔ width ≤ s.length ∧ Sequence (s.take width)) ∧
      (utf8PieceWidth s = width ↔ width ≤ s.length ∧ Sequence (s.take width))) ∧
    ∀ ids : List ℤ,
      rawBytes self ids = (ids.flatMap fun id => (tokenPiece self id).getD []) ∧
      Replaced (rawBytes self ids) (decode self ids) ∧ Valid (decode self ids) ∧
      (Valid (rawBytes self ids) → decode self ids = rawBytes self ids) := by
  refine ⟨fun s width hpos => ?_, fun ids => ?_⟩
  · rw [utf8PieceWidth_eq]
    exact ⟨validUtf8Width_eq_iff hpos, validUtf8Width_eq_iff hpos⟩
  · have hreplaced : Replaced (rawBytes self ids) (decode self ids) := sanitized_replaced _
    exact ⟨rawBytes_eq self ids, hreplaced, hreplaced.valid, hreplaced.eq_of_valid⟩

end Tokenizer

end FortAI
