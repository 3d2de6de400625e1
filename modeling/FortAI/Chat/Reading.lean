import FortAI.Chat.Reader

/-!
# Reading what is well formed

What the readers make of the text of a syntax tree, whatever follows it.

* `jsonString_render` : a string is read to its end, and as what it stands for.
* `matchingDelimiter_render` : the bracket that closes an array or an object is found.
* `jsonRawValue_render` : a value is taken as it is written.
-/

namespace FortAI

namespace Chat

open CString

/-! ### Blanks -/

theorem skipSpace_gap (g : Gap) (s : Bytes) : skipSpace (g.bytes ++ s) = skipSpace s := by
  rw [skipSpace, List.dropWhile_append, List.dropWhile_eq_nil_iff.mpr (List.all_eq_true.mp g.blank)]
  rfl

theorem skipSpace_cons {b : Byte} (h : isGap b = false) (s : Bytes) : skipSpace (b :: s) = b :: s := by
  rw [skipSpace, List.dropWhile_cons_of_neg (by rw [h]; exact Bool.false_ne_true)]

/-- Blanks before something that is none. -/
theorem skipSpace_gap_cons (g : Gap) {b : Byte} (h : isGap b = false) (s : Bytes) :
    skipSpace (g.bytes ++ b :: s) = b :: s := by
  rw [skipSpace_gap, skipSpace_cons h]

/-! ### Strings -/

theorem hexDigit_eq (b : Byte) : hexDigit b = hexValue b := by
  have hle {k : ℕ} (hk : k < 256) : UInt8.ofNat k ≤ b ↔ k ≤ b.toNat := by
    rw [UInt8.le_iff_toNat_le, UInt8.toNat_ofNat_of_lt' hk]
  have h97 : (97 : Byte) ≤ b ↔ 97 ≤ b.toNat := hle (by decide)
  have h65 : (65 : Byte) ≤ b ↔ 65 ≤ b.toNat := hle (by decide)
  rw [hexDigit, hexValue]
  split_ifs with h h' h'
  · rfl
  · simp only [Bool.and_eq_true, decide_eq_true_eq, h97] at h'
    congr 1
    omega
  · simp only [Bool.and_eq_true, decide_eq_true_eq, h65] at h'
    congr 1
    omega
  · rfl

theorem hexFour_hex (a b c d : Hex) (s : Bytes) :
    hexFour (a.byte :: b.byte :: c.byte :: d.byte :: s) = some (codeUnit a b c d, s) := by
  simp only [hexFour, hexDigit_eq, a.hex, b.hex, c.hex, d.hex, Option.bind_eq_bind,
    Option.bind_some, Option.pure_def, codeUnit]

theorem hexValue_lt {b : Byte} {n : ℕ} (h : hexValue b = some n) : n < 16 := by
  have hlt := b.toNat_lt
  have hle {k : ℕ} (hk : k < 256) : b ≤ UInt8.ofNat k ↔ b.toNat ≤ k := by
    rw [UInt8.le_iff_toNat_le, UInt8.toNat_ofNat_of_lt' hk]
  have h57 : b ≤ (57 : Byte) ↔ b.toNat ≤ 57 := hle (by decide)
  have h102 : b ≤ (102 : Byte) ↔ b.toNat ≤ 102 := hle (by decide)
  have h70 : b ≤ (70 : Byte) ↔ b.toNat ≤ 70 := hle (by decide)
  rw [hexValue] at h
  simp only [Bool.and_eq_true, decide_eq_true_eq, h57, h102, h70] at h
  split_ifs at h
  all_goals
    rw [Option.some.injEq] at h
    omega

theorem codeUnit_lt (a b c d : Hex) : codeUnit a b c d < 65536 := by
  have ha := hexValue_lt a.hex
  have hb := hexValue_lt b.hex
  have hc := hexValue_lt c.hex
  have hd := hexValue_lt d.hex
  rw [codeUnit]
  omega

theorem codepoint_eq {code : ℕ} (h : code ≤ 1114111) : codepoint code = utf8 code := by
  rw [codepoint, utf8]
  simp only [if_neg (Nat.not_lt.mpr h)]

/-- A code unit that is not the first one of a pair. -/
theorem unicodeEscape_single (a b c d : Hex) {s : Bytes}
    (h : isHigh (codeUnit a b c d) = true → s.take 2 ≠ [92, 117]) :
    unicodeEscape (a.byte :: b.byte :: c.byte :: d.byte :: s) =
      some (utf8 (codeUnit a b c d), s) := by
  have hcode : codepoint (codeUnit a b c d) = utf8 (codeUnit a b c d) :=
    codepoint_eq (Nat.le_trans (codeUnit_lt a b c d).le (by decide))
  rw [unicodeEscape, hexFour_hex]
  simp only [hcode]
  split_ifs with hhigh hmark
  · rfl
  · refine absurd (h ?_) hmark
    rw [isHigh, Bool.and_eq_true, decide_eq_true_eq, decide_eq_true_eq]
    exact ⟨hhigh.1, hhigh.2.1⟩
  · rfl

/-- Two code units in a row: a pair, or the first on its own. -/
theorem unicodeEscape_unicode (a b c d e f g h : Hex) (s : Bytes) :
    unicodeEscape (a.byte :: b.byte :: c.byte :: d.byte :: ((Piece.unicode e f g h).render ++ s)) =
      if isHigh (codeUnit a b c d) && isLow (codeUnit e f g h) then
        some (utf8 (pair (codeUnit a b c d) (codeUnit e f g h)), s)
      else some (utf8 (codeUnit a b c d), (Piece.unicode e f g h).render ++ s) := by
  have hcode : codepoint (codeUnit a b c d) = utf8 (codeUnit a b c d) :=
    codepoint_eq (Nat.le_trans (codeUnit_lt a b c d).le (by decide))
  rw [unicodeEscape, hexFour_hex]
  have hlength : 6 ≤ ((Piece.unicode e f g h).render ++ s).length := by
    simp only [Piece.render, List.length_append, List.length_cons, List.length_nil]
    omega
  have htake : ((Piece.unicode e f g h).render ++ s).take 2 = [92, 117] := rfl
  have hfour : hexFour (((Piece.unicode e f g h).render ++ s).drop 2) =
      some (codeUnit e f g h, s) := hexFour_hex e f g h s
  simp only [hlength, and_true, htake, ne_eq, not_true, if_false, hfour, hcode]
  cases hhigh : isHigh (codeUnit a b c d) with
  | false =>
    rw [Bool.false_and, if_neg Bool.false_ne_true, if_neg]
    rw [isHigh, Bool.and_eq_false_imp, decide_eq_true_eq, decide_eq_false_iff_not] at hhigh
    exact fun h => hhigh h.1 h.2
  | true =>
    rw [isHigh, Bool.and_eq_true, decide_eq_true_eq, decide_eq_true_eq] at hhigh
    have hlow : isLow (codeUnit e f g h) = true ↔
        56320 ≤ codeUnit e f g h ∧ codeUnit e f g h ≤ 57343 := by
      rw [isLow, Bool.and_eq_true, decide_eq_true_eq, decide_eq_true_eq]
    rw [if_pos hhigh, Bool.true_and]
    by_cases hpair : isLow (codeUnit e f g h) = true
    · have hcode : codepoint (65536 + (codeUnit a b c d - 55296) * 1024 +
          (codeUnit e f g h - 56320)) = utf8 (pair (codeUnit a b c d) (codeUnit e f g h)) := by
        have hle : 65536 + (codeUnit a b c d - 55296) * 1024 + (codeUnit e f g h - 56320) ≤
            1114111 := by
          have := hlow.mp hpair
          omega
        rw [codepoint_eq hle]
        unfold pair
        with_reducible rfl
      rw [if_pos hpair, if_pos (hlow.mp hpair), hcode]
    · rw [if_neg hpair, if_neg fun h => hpair (hlow.mpr h)]

theorem stringBody_of_turn {s out rest : Bytes} (hquote : s.head? ≠ some 34)
    (hturn : stringTurn s = some (out, rest)) :
    stringBody s = (stringBody rest).map fun r => (out ++ r.1, r.2) := by
  rw [stringBody, if_neg hquote]
  split
  · rename_i heq
    rw [hturn] at heq
    exact nomatch heq
  · rename_i heq
    rw [hturn, Option.some.injEq, Prod.mk.injEq] at heq
    rw [heq.1, heq.2]

theorem stringTurn_plain {b : Byte} (h : isPlain b = true) (s : Bytes) :
    stringTurn (b :: s) = some ([b], s) := by
  simp only [isPlain, Bool.and_eq_true, decide_eq_true_eq] at h
  rw [stringTurn, if_pos h.2, if_neg (UInt8.not_lt.mpr h.1.1)]

theorem stringTurn_escape {letter meaning : Byte} (h : (letter, meaning) ∈ escapes) (s : Bytes) :
    stringTurn (92 :: letter :: s) = some ([meaning], s) := by
  simp only [escapes, List.mem_cons, Prod.mk.injEq, List.not_mem_nil, or_false] at h
  rcases h with ⟨rfl, rfl⟩ | ⟨rfl, rfl⟩ | ⟨rfl, rfl⟩ | ⟨rfl, rfl⟩ | ⟨rfl, rfl⟩ | ⟨rfl, rfl⟩ |
    ⟨rfl, rfl⟩ | ⟨rfl, rfl⟩
  all_goals rfl

theorem head_render_ne (p : Piece) (s : Bytes) : (p.render ++ s).head? ≠ some 34 := by
  cases p with
  | plain b hb =>
    simp only [isPlain, Bool.and_eq_true, decide_eq_true_eq] at hb
    exact fun h => hb.1.2 (Option.some.inj h)
  | escape letter meaning hl => exact fun h => absurd (Option.some.inj h) (by decide)
  | unicode a b c d => exact fun h => absurd (Option.some.inj h) (by decide)

theorem stringBody_piece {p : Piece} {s out rest : Bytes}
    (hturn : stringTurn (p.render ++ s) = some (out, rest)) :
    stringBody (p.render ++ s) = (stringBody rest).map fun r => (out ++ r.1, r.2) :=
  stringBody_of_turn (head_render_ne p s) hturn

/-- What follows a code unit is the mark of another one only when one is written there. -/
theorem take_two_ne {rest : Text} (h : ∀ a b c d tail, rest ≠ .unicode a b c d :: tail) (s : Bytes) :
    (rest.raw ++ 34 :: s).take 2 ≠ [92, 117] := by
  cases rest with
  | nil => exact fun h => nomatch h
  | cons p tail =>
    cases p with
    | plain b hb =>
      intro heq
      have hhead := congrArg List.head? heq
      simp only [isPlain, Bool.and_eq_true, decide_eq_true_eq] at hb
      exact hb.2 (Option.some.inj hhead)
    | escape letter meaning hl =>
      intro heq
      have hletter : letter = 117 := by
        have := congrArg (List.getLast?) heq
        exact Option.some.inj this
      subst hletter
      revert hl
      simp [escapes]
    | unicode a b c d => exact absurd rfl (h a b c d tail)

/-- A string is read to its closing quote. -/
theorem stringBody_render (text : Text) (s : Bytes) :
    stringBody (text.raw ++ 34 :: s) = some (text.decode, s) := by
  have hcons (p : Piece) (rest : Text) :
      Text.raw (p :: rest) ++ 34 :: s = p.render ++ (Text.raw rest ++ 34 :: s) := by
    rw [Text.raw, List.flatMap_cons, List.append_assoc]
    rfl
  induction text using Text.decode.induct with
  | case1 => rw [stringBody]; rfl
  | case2 b hb rest ih =>
    have hturn := stringTurn_plain hb (Text.raw rest ++ 34 :: s)
    rw [hcons, stringBody_piece hturn, ih]
    rfl
  | case3 letter meaning hl rest ih =>
    have hturn : stringTurn ((Piece.escape letter meaning hl).render ++ (Text.raw rest ++ 34 :: s)) =
        some ([meaning], Text.raw rest ++ 34 :: s) := stringTurn_escape hl _
    rw [hcons, stringBody_piece hturn, ih]
    rfl
  | case4 a b c d e f g h rest hpair ih =>
    have hturn : stringTurn ((Piece.unicode a b c d).render ++ ((Piece.unicode e f g h).render ++
        (Text.raw rest ++ 34 :: s))) = _ := unicodeEscape_unicode a b c d e f g h _
    rw [if_pos hpair] at hturn
    rw [hcons, hcons, stringBody_piece hturn, ih, Text.decode, if_pos hpair]
    rfl
  | case5 a b c d e f g h rest hpair ih =>
    have hturn : stringTurn ((Piece.unicode a b c d).render ++ ((Piece.unicode e f g h).render ++
        (Text.raw rest ++ 34 :: s))) = _ := unicodeEscape_unicode a b c d e f g h _
    rw [if_neg hpair] at hturn
    rw [hcons] at ih
    rw [hcons, hcons, stringBody_piece hturn, ih, Text.decode, if_neg hpair]
    rfl
  | case6 a b c d rest hnext ih =>
    have hturn : stringTurn ((Piece.unicode a b c d).render ++ (Text.raw rest ++ 34 :: s)) =
        some (utf8 (codeUnit a b c d), Text.raw rest ++ 34 :: s) :=
      unicodeEscape_single a b c d fun _ => take_two_ne hnext s
    have hdecode : Text.decode (.unicode a b c d :: rest) =
        utf8 (codeUnit a b c d) ++ Text.decode rest := by
      rw [Text.decode]
      exact hnext
    rw [hcons, stringBody_piece hturn, ih, hdecode]
    rfl

theorem jsonString_render (text : Text) (s : Bytes) :
    jsonString (text.render ++ s) = some (text.decode, s) := by
  rw [Text.render, List.cons_append, List.append_assoc]
  exact stringBody_render text s

/-! ### Brackets -/

/-- A byte that opens and closes nothing. -/
def isNeutral (b : Byte) : Bool := b ≠ 34 && b ≠ 91 && b ≠ 93 && b ≠ 123 && b ≠ 125

/-- The two pairs of brackets. -/
def IsPair (opening closing : Byte) : Prop :=
  opening = 91 ∧ closing = 93 ∨ opening = 123 ∧ closing = 125

section Scan

variable {opening closing : Byte} {depth : ℕ}

theorem scan_neutral (hpair : IsPair opening closing) {bytes : Bytes}
    (h : ∀ b ∈ bytes, isNeutral b = true) (s : Bytes) :
    scanDelimiter opening closing depth false false (bytes ++ s) =
      (scanDelimiter opening closing depth false false s).map (· + bytes.length) := by
  induction bytes with
  | nil => simp
  | cons b bytes ih =>
    have hb := h b List.mem_cons_self
    simp only [isNeutral, Bool.and_eq_true, decide_eq_true_eq] at hb
    have hopening : b ≠ opening := by
      rcases hpair with ⟨rfl, -⟩ | ⟨rfl, -⟩
      · exact hb.1.1.1.2
      · exact hb.1.2
    have hclosing : b ≠ closing := by
      rcases hpair with ⟨-, rfl⟩ | ⟨-, rfl⟩
      · exact hb.1.1.2
      · exact hb.2
    rw [List.cons_append, scanDelimiter, if_neg hb.1.1.1.1, if_neg hopening, if_neg hclosing,
      ih fun c hc => h c (List.mem_cons_of_mem b hc), Option.map_map]
    rfl

theorem scan_quoted_plain {b : Byte} (hslash : b ≠ 92) (hquote : b ≠ 34) (s : Bytes) :
    scanDelimiter opening closing depth true false (b :: s) =
      (scanDelimiter opening closing depth true false s).map (· + 1) := by
  rw [scanDelimiter, if_neg hslash, if_neg hquote]

theorem scan_quoted_escape (letter : Byte) (s : Bytes) :
    scanDelimiter opening closing depth true false (92 :: letter :: s) =
      (scanDelimiter opening closing depth true false s).map (· + 2) := by
  rw [scanDelimiter, if_pos rfl, scanDelimiter, Option.map_map]
  rfl

/-- A hexadecimal digit is neither a quote nor a backslash. -/
theorem hex_ne (a : Hex) : a.byte ≠ 92 ∧ a.byte ≠ 34 := by
  have h := a.hex
  constructor
  · intro heq
    rw [heq] at h
    exact nomatch h
  · intro heq
    rw [heq] at h
    exact nomatch h

theorem scan_piece (p : Piece) (s : Bytes) :
    scanDelimiter opening closing depth true false (p.render ++ s) =
      (scanDelimiter opening closing depth true false s).map (· + p.render.length) := by
  cases p with
  | plain b hb =>
    simp only [isPlain, Bool.and_eq_true, decide_eq_true_eq] at hb
    exact scan_quoted_plain hb.2 hb.1.2 s
  | escape letter meaning hl => exact scan_quoted_escape letter s
  | unicode a b c d =>
    show scanDelimiter opening closing depth true false
      (92 :: 117 :: a.byte :: b.byte :: c.byte :: d.byte :: s) = _
    rw [scan_quoted_escape, scan_quoted_plain (hex_ne a).1 (hex_ne a).2,
      scan_quoted_plain (hex_ne b).1 (hex_ne b).2, scan_quoted_plain (hex_ne c).1 (hex_ne c).2,
      scan_quoted_plain (hex_ne d).1 (hex_ne d).2]
    simp only [Option.map_map]
    rfl

/-- The scan passes over a string. -/
theorem scan_text (text : Text) (s : Bytes) :
    scanDelimiter opening closing depth false false (text.render ++ s) =
      (scanDelimiter opening closing depth false false s).map (· + text.render.length) := by
  have hbody : ∀ text : Text,
      scanDelimiter opening closing depth true false (text.raw ++ 34 :: s) =
        (scanDelimiter opening closing depth false false s).map (· + (text.raw.length + 1)) := by
    intro text
    induction text with
    | nil =>
      show scanDelimiter opening closing depth true false (34 :: s) = _
      rw [scanDelimiter, if_neg (by decide), if_pos rfl]
      rfl
    | cons p rest ih =>
      have hcons : Text.raw (p :: rest) = p.render ++ Text.raw rest := by
        rw [Text.raw, List.flatMap_cons]
        rfl
      rw [hcons, List.append_assoc, scan_piece, ih, Option.map_map]
      congr 1
      funext n
      rw [Function.comp_apply, List.length_append]
      omega
  rw [Text.render, List.cons_append, List.append_assoc, scanDelimiter, if_pos rfl]
  show Option.map _ (scanDelimiter opening closing depth true false (text.raw ++ 34 :: s)) = _
  rw [hbody, Option.map_map]
  congr 1
  funext n
  rw [Function.comp_apply, List.length_cons, List.length_append]
  rfl

end Scan

theorem isNeutral_of_isGap {b : Byte} (h : isGap b = true) : isNeutral b = true := by
  simp only [isGap, Bool.or_eq_true, decide_eq_true_eq] at h
  rcases h with ((rfl | rfl) | rfl) | rfl <;> decide

theorem neutral_gap (g : Gap) : ∀ b ∈ g.bytes, isNeutral b = true := fun b hb =>
  isNeutral_of_isGap (List.all_eq_true.mp g.blank b hb)

theorem neutral_literal (l : Literal) : ∀ b ∈ l.render, isNeutral b = true := by
  have hall : l.render.all isNeutral = true := by cases l <;> rfl
  exact List.all_eq_true.mp hall

/-- The bytes of a number. -/
def isNumeric (b : Byte) : Bool :=
  isDigit b || b = 45 || b = 43 || b = 46 || b = 101 || b = 69

theorem numeric_render (n : Number) : ∀ b ∈ n.render, isNumeric b = true := by
  have hdigits (d : Digits) : ∀ b ∈ d.bytes, isNumeric b = true := fun b hb => by
    rw [isNumeric, List.all_eq_true.mp d.digit b hb]
    rfl
  intro b hb
  simp only [Number.render, List.mem_append] at hb
  rcases hb with ((hb | hb) | hb) | hb
  · split_ifs at hb
    · rw [List.mem_singleton.mp hb]
      rfl
    · exact absurd hb List.not_mem_nil
  · exact hdigits _ b hb
  · cases hf : n.fraction with
    | none =>
      rw [hf] at hb
      exact absurd hb List.not_mem_nil
    | some d =>
      rw [hf] at hb
      rcases List.mem_cons.mp hb with rfl | hb
      · rfl
      · exact hdigits d b hb
  · cases he : n.exponent with
    | none =>
      rw [he] at hb
      exact absurd hb List.not_mem_nil
    | some e =>
      obtain ⟨hmark, hsign⟩ := n.mark e he
      rw [he] at hb
      rcases List.mem_cons.mp hb with rfl | hb
      · rcases hmark with h | h <;> rw [h] <;> rfl
      rcases List.mem_append.mp hb with hb | hb
      · rcases hsign with h | h | h
        · rw [h] at hb
          exact absurd hb List.not_mem_nil
        · rw [h, List.mem_singleton] at hb
          rw [hb]
          rfl
        · rw [h, List.mem_singleton] at hb
          rw [hb]
          rfl
      · exact hdigits _ b hb

theorem isNeutral_of_isNumeric {b : Byte} (h : isNumeric b = true) : isNeutral b = true := by
  have hne {c : Byte} (hc : isNumeric c = false) : b ≠ c := by
    rintro rfl
    rw [hc] at h
    exact Bool.noConfusion h
  have h34 : b ≠ 34 := hne (by decide)
  have h91 : b ≠ 91 := hne (by decide)
  have h93 : b ≠ 93 := hne (by decide)
  have h123 : b ≠ 123 := hne (by decide)
  have h125 : b ≠ 125 := hne (by decide)
  simp [isNeutral, h34, h91, h93, h123, h125]

theorem neutral_comma {k : Kind} (j : Json k) : ∀ b ∈ j.comma, isNeutral b = true := by
  intro b hb
  cases j <;> simp only [Json.comma, List.mem_singleton, List.not_mem_nil] at hb <;> rw [hb] <;> rfl

section Scan

variable {opening closing : Byte}

theorem scan_opening (s : Bytes) (hpair : IsPair opening closing) (depth : ℕ) :
    scanDelimiter opening closing depth false false (opening :: s) =
      (scanDelimiter opening closing (depth + 1) false false s).map (· + 1) := by
  have hquote : opening ≠ 34 := by rcases hpair with ⟨rfl, -⟩ | ⟨rfl, -⟩ <;> decide
  rw [scanDelimiter, if_neg hquote, if_pos rfl]

theorem scan_closing (s : Bytes) (hpair : IsPair opening closing) (depth : ℕ) :
    scanDelimiter opening closing (depth + 1) false false (closing :: s) =
      if depth = 0 then some 1
      else (scanDelimiter opening closing depth false false s).map (· + 1) := by
  have hquote : closing ≠ 34 := by rcases hpair with ⟨-, rfl⟩ | ⟨-, rfl⟩ <;> decide
  have hopening : closing ≠ opening := by
    rcases hpair with ⟨rfl, rfl⟩ | ⟨rfl, rfl⟩ <;> decide
  rw [scanDelimiter, if_neg hquote, if_neg hopening, if_pos rfl, Nat.add_sub_cancel]

/-- A text that the scan passes over inside of a bracket. -/
def Passed (opening closing : Byte) (text : Bytes) : Prop :=
  ∀ (depth : ℕ) (s : Bytes),
    scanDelimiter opening closing (depth + 1) false false (text ++ s) =
      (scanDelimiter opening closing (depth + 1) false false s).map (· + text.length)

theorem Passed.append {a b : Bytes} (ha : Passed opening closing a) (hb : Passed opening closing b) :
    Passed opening closing (a ++ b) := by
  intro depth s
  rw [List.append_assoc, ha, hb, Option.map_map]
  congr 1
  funext n
  rw [Function.comp_apply, List.length_append]
  omega

theorem passed_neutral (hpair : IsPair opening closing) {text : Bytes}
    (h : ∀ b ∈ text, isNeutral b = true) : Passed opening closing text :=
  fun _ s => scan_neutral hpair h s

theorem passed_text (text : Text) : Passed opening closing text.render :=
  fun _ s => scan_text text s

/-- A text between brackets, of this pair or of the other. -/
theorem passed_enclosed (hpair : IsPair opening closing) {left right : Byte}
    (hpair' : IsPair left right) {inner : Bytes} (h : Passed opening closing inner) :
    Passed opening closing (left :: (inner ++ [right])) := by
  intro depth s
  have hlength : (left :: (inner ++ [right])).length = inner.length + 2 := by
    rw [List.length_cons, List.length_append]
    rfl
  have hshape : left :: (inner ++ [right]) ++ s = left :: (inner ++ right :: s) := by
    rw [List.cons_append, List.append_assoc]
    rfl
  rw [hshape, hlength]
  by_cases hsame : left = opening
  · subst hsame
    have hright : right = closing := by
      rcases hpair with ⟨h1, rfl⟩ | ⟨h1, rfl⟩ <;> rcases hpair' with ⟨h2, rfl⟩ | ⟨h2, rfl⟩
      · rfl
      · exact absurd (h1.symm.trans h2) (by decide)
      · exact absurd (h1.symm.trans h2) (by decide)
      · rfl
    subst hright
    rw [scan_opening _ hpair, h (depth + 1), scan_closing _ hpair, if_neg (Nat.succ_ne_zero depth)]
    simp only [Option.map_map]
    congr 1
    funext n
    simp only [Function.comp_apply]
    omega
  · have hother {b : Byte} (hb : b = left ∨ b = right) (t : Bytes) :
        scanDelimiter opening closing (depth + 1) false false (b :: t) =
          (scanDelimiter opening closing (depth + 1) false false t).map (· + 1) := by
      have hne : b ≠ 34 ∧ b ≠ opening ∧ b ≠ closing := by
        rcases hpair with ⟨rfl, rfl⟩ | ⟨rfl, rfl⟩ <;> rcases hpair' with ⟨rfl, rfl⟩ | ⟨rfl, rfl⟩ <;>
          rcases hb with rfl | rfl
        all_goals first
          | exact absurd rfl hsame
          | decide
      rw [scanDelimiter, if_neg hne.1, if_neg hne.2.1, if_neg hne.2.2]
    rw [hother (Or.inl rfl), h depth, hother (Or.inr rfl)]
    simp only [Option.map_map]
    congr 1
    funext n
    simp only [Function.comp_apply]
    omega

/-- Inside of a bracket, the scan passes over whatever is well formed. -/
theorem passed_render (hpair : IsPair opening closing) {k : Kind} (j : Json k) :
    Passed opening closing j.render := by
  have hgap (g : Gap) : Passed opening closing g.bytes := passed_neutral hpair (neutral_gap g)
  have hcomma {k : Kind} (j : Json k) : Passed opening closing j.comma :=
    passed_neutral hpair (neutral_comma j)
  induction j with
  | literal l => exact passed_neutral hpair (neutral_literal l)
  | number n =>
    exact passed_neutral hpair fun b hb => isNeutral_of_isNumeric (numeric_render n b hb)
  | string text => exact passed_text text
  | array gap elements ih =>
    rw [Json.render, ← List.append_assoc]
    exact passed_enclosed hpair (Or.inl ⟨rfl, rfl⟩) ((hgap gap).append ih)
  | object gap members ih =>
    rw [Json.render, ← List.append_assoc]
    exact passed_enclosed hpair (Or.inr ⟨rfl, rfl⟩) ((hgap gap).append ih)
  | noElement => exact passed_neutral hpair fun b hb => absurd hb List.not_mem_nil
  | element before v after rest ihv ihrest =>
    exact (hgap before).append (ihv.append ((hgap after).append ((hcomma rest).append ihrest)))
  | noMember => exact passed_neutral hpair fun b hb => absurd hb List.not_mem_nil
  | member before name beforeColon afterColon v after rest ihv ihrest =>
    have hcolon : Passed opening closing [58] :=
      passed_neutral hpair fun b hb => by rw [List.mem_singleton.mp hb]; rfl
    exact (hgap before).append ((passed_text name).append ((hgap beforeColon).append
      (hcolon.append ((hgap afterColon).append (ihv.append ((hgap after).append
        ((hcomma rest).append ihrest)))))))

theorem matchingDelimiter_enclosed (hpair : IsPair opening closing) {inner : Bytes}
    (h : Passed opening closing inner) (s : Bytes) :
    matchingDelimiter (opening :: (inner ++ [closing]) ++ s) opening closing =
      some (opening :: (inner ++ [closing])).length := by
  have hshape : opening :: (inner ++ [closing]) ++ s = opening :: (inner ++ closing :: s) := by
    rw [List.cons_append, List.append_assoc]
    rfl
  rw [hshape, matchingDelimiter, if_pos List.head?_cons, scan_opening _ hpair, h 0,
    scan_closing _ hpair, if_pos rfl]
  simp only [Option.map_some, List.length_cons, List.length_append, List.length_nil]
  congr 1
  omega

end Scan

/-- The bracket that closes an object. -/
theorem matchingDelimiter_object (gap : Gap) (members : Json .members) (s : Bytes) :
    matchingDelimiter ((Json.object gap members).render ++ s) 123 125 =
      some (Json.object gap members).render.length := by
  have hpair : IsPair 123 125 := Or.inr ⟨rfl, rfl⟩
  rw [Json.render, ← List.append_assoc]
  exact matchingDelimiter_enclosed hpair
    ((passed_neutral hpair (neutral_gap gap)).append (passed_render hpair members)) s

/-- The bracket that closes an array. -/
theorem matchingDelimiter_array (gap : Gap) (elements : Json .elements) (s : Bytes) :
    matchingDelimiter ((Json.array gap elements).render ++ s) 91 93 =
      some (Json.array gap elements).render.length := by
  have hpair : IsPair 91 93 := Or.inl ⟨rfl, rfl⟩
  rw [Json.render, ← List.append_assoc]
  exact matchingDelimiter_enclosed hpair
    ((passed_neutral hpair (neutral_gap gap)).append (passed_render hpair elements)) s

/-! ### Values -/

theorem not_endsValue_of_isNumeric {b : Byte} (h : isNumeric b = true) : endsValue b = false := by
  rw [Bool.eq_false_iff]
  intro hends
  simp only [endsValue, Bool.or_eq_true, decide_eq_true_eq] at hends
  rcases hends with (((((rfl | rfl) | rfl) | rfl) | rfl) | rfl) | rfl <;> exact absurd h (by decide)

theorem number_ne_nil (n : Number) : ∃ b rest, n.render = b :: rest ∧ isNumeric b = true ∧
    (b = 45 ∨ isDigit b = true) := by
  have hmem : ∀ b rest, n.render = b :: rest → isNumeric b = true := fun b rest h =>
    numeric_render n b (h ▸ List.mem_cons_self)
  cases hm : n.minus with
  | true =>
    have : n.render = 45 :: (n.int.bytes ++ (n.fraction.elim [] fun d => 46 :: d.bytes) ++
        (n.exponent.elim [] fun e => e.1 :: (e.2.1 ++ e.2.2.bytes))) := by
      rw [Number.render, hm]
      simp only [if_true, List.append_assoc]
      rfl
    exact ⟨_, _, this, hmem _ _ this, Or.inl rfl⟩
  | false =>
    obtain ⟨d, ds, hint⟩ := List.exists_cons_of_ne_nil n.int.ne_nil
    have : n.render = d :: (ds ++ (n.fraction.elim [] fun d => 46 :: d.bytes) ++
        (n.exponent.elim [] fun e => e.1 :: (e.2.1 ++ e.2.2.bytes))) := by
      rw [Number.render, hm, hint]
      simp only [Bool.false_eq_true, if_false, List.nil_append, List.cons_append]
    refine ⟨_, _, this, hmem _ _ this, Or.inr ?_⟩
    exact List.all_eq_true.mp n.int.digit d (hint ▸ List.mem_cons_self)

/-- Where a value without brackets or quotes can end. -/
def Ended (s : Bytes) : Prop := ∀ b ∈ s.head?, endsValue b = true

/-- A value is taken as it is written. -/
theorem jsonRawValue_scalar {text s : Bytes} (hne : text ≠ [])
    (h : ∀ b ∈ text, endsValue b = false) (hfirst : ∀ b ∈ text.head?, isNeutral b = true)
    (hs : Ended s) : jsonRawValue (text ++ s) = some (text, s) := by
  obtain ⟨b, rest, rfl⟩ := List.exists_cons_of_ne_nil hne
  have hb := hfirst b rfl
  simp only [isNeutral, Bool.and_eq_true, decide_eq_true_eq] at hb
  have hends := h b List.mem_cons_self
  have htake : ((b :: rest) ++ s).takeWhile (!endsValue ·) = b :: rest := by
    rw [List.takeWhile_append_of_pos fun c hc => by rw [h c hc]; rfl]
    cases s with
    | nil => simp
    | cons c s =>
      rw [List.takeWhile_cons_of_neg (by rw [hs c rfl]; simp), List.append_nil]
  have hdrop : ((b :: rest) ++ s).dropWhile (!endsValue ·) = s := by
    have := List.takeWhile_append_dropWhile (p := (!endsValue ·)) (l := (b :: rest) ++ s)
    rw [htake] at this
    exact List.append_cancel_left this
  rw [List.cons_append] at htake hdrop ⊢
  rw [jsonRawValue, if_neg hb.1.1.1.1, if_neg (not_or.mpr ⟨hb.1.1.1.2, hb.1.2⟩),
    if_neg (by rw [hends]; exact Bool.false_ne_true), htake, hdrop]

theorem jsonRawValue_render (v : Json .value) {s : Bytes} (hs : Ended s) :
    jsonRawValue (v.render ++ s) = some (v.render, s) := by
  cases v with
  | literal l =>
    have hne : l.render ≠ [] := by cases l <;> exact List.cons_ne_nil _ _
    have hall : l.render.all (!endsValue ·) = true := by cases l <;> rfl
    refine jsonRawValue_scalar hne (fun b hb => ?_)
      (fun b hb => neutral_literal l b (List.mem_of_mem_head? hb)) hs
    have := List.all_eq_true.mp hall b hb
    rwa [Bool.not_eq_true'] at this
  | number n =>
    obtain ⟨b, rest, hn, -⟩ := number_ne_nil n
    refine jsonRawValue_scalar ?_ (fun b hb => not_endsValue_of_isNumeric (numeric_render n b hb))
      (fun b hb => isNeutral_of_isNumeric (numeric_render n b (List.mem_of_mem_head? hb))) hs
    rw [Json.render, hn]
    exact List.cons_ne_nil b rest
  | string text =>
    have hlength : ((Json.string text).render ++ s).length - s.length =
        (Json.string text).render.length := by
      rw [List.length_append, Nat.add_sub_cancel]
    have hread : jsonString ((Json.string text).render ++ s) = some (text.decode, s) :=
      jsonString_render text s
    show Option.map _ (jsonString ((Json.string text).render ++ s)) = _
    rw [hread, Option.map_some]
    show some (((Json.string text).render ++ s).take _, s) = _
    rw [hlength, List.take_left]
  | array gap elements =>
    show Option.map _ (matchingDelimiter ((Json.array gap elements).render ++ s) 91 93) = _
    rw [matchingDelimiter_array, Option.map_some]
    show some (((Json.array gap elements).render ++ s).take _,
      ((Json.array gap elements).render ++ s).drop _) = _
    rw [List.take_left, List.drop_left]
  | object gap members =>
    show Option.map _ (matchingDelimiter ((Json.object gap members).render ++ s) 123 125) = _
    rw [matchingDelimiter_object, Option.map_some]
    show some (((Json.object gap members).render ++ s).take _,
      ((Json.object gap members).render ++ s).drop _) = _
    rw [List.take_left, List.drop_left]

end Chat

end FortAI
