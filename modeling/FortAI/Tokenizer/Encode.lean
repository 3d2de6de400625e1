import FortAI.Tokenizer.Vocabulary

/-!
# From text to tokens

`encode` is `native_tokenizer_encode`: the special tokens are cut out of the text, what is between
them is cut into pieces (`plainPieceLength`, or `qwen35PieceLength` for models of that kind), and the
byte symbols of each piece are merged (`encodePiece`).

* `scanPairs_eq_some` : the pair that is merged is one of the list.
* `qwen35PieceLength_pos`, `plainPieceLength_pos` : each piece takes something of the text.
-/

namespace FortAI

namespace Tokenizer

open CString Utf8

/-! ### Merging the symbols of a piece -/

/-- The comparison in the loop over the adjacent symbols: the lower rank is kept with its position. -/
def lower (candidate : Option ℕ) (i : ℕ) (best : Option (ℕ × ℕ)) : Option (ℕ × ℕ) :=
  match candidate with
  | none => best
  | some candidate => if best.all (candidate < ·.1) then some (candidate, i) else best

/-- The loop over the adjacent symbols: the rank and the position of the pair that has the lowest rank
so far. -/
def scanPairs (self : Vocabulary) : List Bytes → ℕ → Option (ℕ × ℕ) → Option (ℕ × ℕ)
  | left :: right :: rest, i, best =>
    scanPairs self (right :: rest) (i + 1) (lower (self.lookupMerge left right) i best)
  | _, _, best => best

/-- The symbols with those at `best` and behind it made one. -/
def mergeAt (symbols : List Bytes) (best : ℕ) : List Bytes :=
  symbols.take best ++ (symbols.getD best [] ++ symbols.getD (best + 1) []) ::
    symbols.drop (best + 2)

/-- The pair that is merged is one of the list. -/
theorem scanPairs_eq_some {self : Vocabulary} :
    ∀ {symbols : List Bytes} {i : ℕ} {best : Option (ℕ × ℕ)} {rank j : ℕ},
      scanPairs self symbols i best = some (rank, j) →
        best = some (rank, j) ∨ ∃ u x y t, symbols = u ++ x :: y :: t ∧ j = i + u.length ∧
          self.lookupMerge x y = some rank := by
  intro symbols
  induction symbols with
  | nil => intro i best rank j h; exact .inl h
  | cons left symbols ih =>
    intro i best rank j h
    cases symbols with
    | nil => exact .inl h
    | cons right rest =>
      rw [scanPairs] at h
      rcases ih h with hbest | ⟨u, x, y, t, heq, hj, hxy⟩
      · cases hrank : self.lookupMerge left right with
        | none =>
          rw [hrank] at hbest
          exact .inl hbest
        | some candidate =>
          simp only [hrank, lower] at hbest
          split_ifs at hbest with hlower
          · simp only [Option.some.injEq, Prod.mk.injEq] at hbest
            obtain ⟨rfl, rfl⟩ := hbest
            exact .inr ⟨[], left, right, rest, rfl, rfl, hrank⟩
          · exact .inl hbest
      · refine .inr ⟨left :: u, x, y, t, by rw [heq]; rfl, ?_, hxy⟩
        rw [hj, List.length_cons]
        omega

theorem mergeAt_append (u : List Bytes) (x y : Bytes) (t : List Bytes) :
    mergeAt (u ++ x :: y :: t) u.length = u ++ (x ++ y) :: t := by
  have hx : (u ++ x :: y :: t).getD u.length [] = x := by simp
  have hy : (u ++ x :: y :: t).getD (u.length + 1) [] = y := by
    simp [List.getD_eq_getElem?_getD]
  have hdrop : (u ++ x :: y :: t).drop (u.length + 2) = t := by
    rw [← List.drop_drop, List.drop_left]
    rfl
  rw [mergeAt, hx, hy, hdrop, List.take_left]

/-- The loop over the symbols: the first pair of lowest rank is merged until no pair has a rank. -/
def mergeSymbols (self : Vocabulary) (symbols : List Bytes) : List Bytes :=
  match _h : scanPairs self symbols 0 none with
  | none => symbols
  | some (_, best) => mergeSymbols self (mergeAt symbols best)
termination_by symbols.length
decreasing_by
  obtain hnone | ⟨u, x, y, t, rfl, rfl, -⟩ := scanPairs_eq_some _h
  · cases hnone
  · rw [Nat.zero_add, mergeAt_append, List.length_append, List.length_append, List.length_cons,
      List.length_cons, List.length_cons]
    omega

/-- A token is written to the output while there is room. -/
def push (capacity : ℕ) (output : List ℤ) (id : ℕ) : List ℤ :=
  if output.length < capacity then output ++ [(id : ℤ)] else output

/-- The token of a symbol, or else that of `<unk>`. -/
def symbolToken (self : Vocabulary) (symbol : Bytes) : Option ℕ :=
  (self.lookupVocabulary symbol).or (self.lookupVocabulary (ascii "<unk>"))

/-- `encode_piece` -/
def encodePiece (self : Vocabulary) (capacity : ℕ) (output : List ℤ) (raw : Bytes) : List ℤ :=
  (mergeSymbols self (raw.map byteSymbol)).foldl
    (fun output symbol =>
      match symbolToken self symbol with
      | some id => push capacity output id
      | none => output) output

/-! ### Pieces of a plain text -/

/-- `ascii_word_byte` -/
def asciiWordByte (b : Byte) : Bool :=
  (65 ≤ b.toNat && b.toNat ≤ 90) || (97 ≤ b.toNat && b.toNat ≤ 122) ||
    (48 ≤ b.toNat && b.toNat ≤ 57) || 128 ≤ b.toNat

/-- The length of the piece at the start of a text, in the loop of `encode_plain`. -/
def plainPieceLength (text : Bytes) : ℕ :=
  let first := text.getD 0 0
  let finish := if first = 32 ∧ 1 < text.length ∧ asciiWordByte (text.getD 1 0) then 1 else 0
  let rest := text.drop (finish + 1)
  if asciiWordByte (text.getD finish 0) then
    finish + 1 + (rest.takeWhile asciiWordByte).length
  else if first = 32 ∨ first = 10 then
    finish + 1 + (rest.takeWhile (· = first)).length
  else
    finish + 1 + (rest.takeWhile fun b => !asciiWordByte b && b ≠ 32 && b ≠ 10).length

theorem plainPieceLength_pos (text : Bytes) : 0 < plainPieceLength text := by
  unfold plainPieceLength
  extract_lets
  split_ifs <;> omega

/-! ### Pieces for Qwen3.5 -/

/-- `qwen35_lower_ascii` -/
def qwen35LowerAscii (value : ℕ) : ℕ := if 65 ≤ value ∧ value ≤ 90 then value + 32 else value

/-- `qwen35_contraction_length` -/
def qwen35ContractionLength (text : Bytes) : ℕ :=
  if text.getD 0 0 ≠ 39 then 0
  else if text.length < 2 then 0
  else
    let first := qwen35LowerAscii (text.getD 1 0).toNat
    if first = 115 ∨ first = 116 ∨ first = 109 ∨ first = 100 then 2
    else if first = 114 ∨ first = 118 ∨ first = 108 then
      if text.length < 3 then 0
      else
        let second := qwen35LowerAscii (text.getD 2 0).toNat
        if (first = 114 ∨ first = 118) ∧ second = 101 then 3
        else if first = 108 ∧ second = 108 then 3
        else 0
    else 0

/-- The code points of the pairs `(first, last)`. -/
def inRanges (ranges : List (ℕ × ℕ)) (codepoint : ℕ) : Bool :=
  ranges.any fun range => range.1 ≤ codepoint && codepoint ≤ range.2

/-- `qwen35_is_number` -/
def qwen35IsNumber : ℕ → Bool := inRanges
  [(0x30, 0x39), (0x0660, 0x0669), (0x06f0, 0x06f9), (0x0966, 0x096f), (0x09e6, 0x09ef),
    (0x0a66, 0x0a6f), (0x0ae6, 0x0aef), (0x0b66, 0x0b6f), (0x0be6, 0x0bef), (0x0c66, 0x0c6f),
    (0x0ce6, 0x0cef), (0x0d66, 0x0d6f), (0x0e50, 0x0e59), (0x0ed0, 0x0ed9), (0x0f20, 0x0f29),
    (0x1040, 0x1049), (0x17e0, 0x17e9), (0x1810, 0x1819), (0xff10, 0xff19)]

/-- `qwen35_is_mark` -/
def qwen35IsMark : ℕ → Bool := inRanges
  [(0x0300, 0x036f), (0x0483, 0x0489), (0x0591, 0x05bd), (0x0610, 0x061a), (0x064b, 0x065f),
    (0x0900, 0x0903), (0x093a, 0x094f), (0x0981, 0x0983), (0x09bc, 0x09cd), (0x0a01, 0x0a03),
    (0x0abc, 0x0acd), (0x0b01, 0x0b03), (0x0b3c, 0x0bcd), (0x0c00, 0x0c04), (0x0c3e, 0x0c4d),
    (0x0d3b, 0x0d4d), (0x0e31, 0x0e4d), (0x0f18, 0x0f39)]

/-- `qwen35_is_letter` -/
def qwen35IsLetter : ℕ → Bool := inRanges
  [(0x41, 0x5a), (0x61, 0x7a), (0x00c0, 0x02af), (0x0370, 0x052f), (0x0531, 0x058f),
    (0x0590, 0x06ff), (0x0700, 0x074f), (0x0780, 0x07bf), (0x0900, 0x0d7f), (0x0e80, 0x0eff),
    (0x1000, 0x1fff), (0x2e80, 0x9fff), (0xac00, 0xd7af), (0xf900, 0xfaff), (0xff21, 0xff5a),
    (0x20000, 0x2ffff)]

/-- `qwen35_is_word` -/
def qwen35IsWord (codepoint : ℕ) : Bool :=
  !qwen35IsNumber codepoint && (qwen35IsLetter codepoint || qwen35IsMark codepoint)

/-- `qwen35_is_newline` -/
def qwen35IsNewline (codepoint : ℕ) : Bool := codepoint = 10 || codepoint = 13

/-- `qwen35_is_whitespace` -/
def qwen35IsWhitespace : ℕ → Bool := inRanges
  [(9, 13), (32, 32), (0x0085, 0x0085), (0x00a0, 0x00a0), (0x2000, 0x200a), (0x2028, 0x2028),
    (0x2029, 0x2029), (0x202f, 0x202f), (0x205f, 0x205f), (0x3000, 0x3000)]

/-- `qwen35_is_optional_prefix` -/
def qwen35IsOptionalPrefix (codepoint : ℕ) : Bool :=
  !qwen35IsNewline codepoint && !qwen35IsNumber codepoint && !qwen35IsWord codepoint

/-- What ends a run of punctuation: white space, words and numbers. -/
def qwen35IsPunctuation (codepoint : ℕ) : Bool :=
  !(qwen35IsWhitespace codepoint || qwen35IsWord codepoint || qwen35IsNumber codepoint)

/-- The number of bytes of the characters at the start of a text that are in a class. -/
def runLength (inClass : ℕ → Bool) (text : Bytes) : ℕ :=
  if _h : text = [] then 0
  else if inClass (utf8Decode text).1 then
    (utf8Decode text).2 + runLength inClass (text.drop (utf8Decode text).2)
  else 0
termination_by text.length
decreasing_by exact drop_width_lt _h

/-- White space up to the end of its first newlines. -/
def blankLength (text : Bytes) : ℕ :=
  if _h : text = [] then 0
  else if !qwen35IsWhitespace (utf8Decode text).1 then 0
  else if qwen35IsNewline (utf8Decode text).1 then
    (utf8Decode text).2 + runLength qwen35IsNewline (text.drop (utf8Decode text).2)
  else (utf8Decode text).2 + blankLength (text.drop (utf8Decode text).2)
termination_by text.length
decreasing_by exact drop_width_lt _h

/-- The width of the character at the start of a text when it is in a class, and else 0. -/
def oneLength (inClass : ℕ → Bool) (text : Bytes) : ℕ :=
  if text ≠ [] ∧ inClass (utf8Decode text).1 then (utf8Decode text).2 else 0

/-- The length of the piece at the start of a text, in the loop of `encode_plain_qwen35`. -/
def qwen35PieceLength (text : Bytes) : ℕ :=
  let codepoint := (utf8Decode text).1
  let width := (utf8Decode text).2
  let rest := text.drop width
  let next := (utf8Decode rest).1
  let prefixWord := qwen35IsOptionalPrefix codepoint && decide (rest ≠ []) && qwen35IsWord next
  let prefixPunctuation := qwen35IsOptionalPrefix codepoint && decide (rest ≠ []) &&
    !qwen35IsWord next && decide (codepoint = 32) && !qwen35IsWhitespace next && !qwen35IsNumber next
  if 0 < qwen35ContractionLength text then qwen35ContractionLength text
  else if qwen35IsNumber codepoint then width
  else if qwen35IsWord codepoint then width + runLength qwen35IsWord rest
  else if prefixWord then
    width + (utf8Decode rest).2 + runLength qwen35IsWord (rest.drop (utf8Decode rest).2)
  else if prefixPunctuation then
    let run := runLength qwen35IsPunctuation rest
    width + run + oneLength qwen35IsNewline (rest.drop run)
  else if qwen35IsWhitespace codepoint then
    if qwen35IsNewline codepoint then width + runLength qwen35IsNewline rest else blankLength text
  else
    -- an optional ASCII space before a punctuation run
    let cursor :=
      if codepoint = 32 ∧ (rest = [] ∨ qwen35IsPunctuation next) then width else 0
    let run := runLength qwen35IsPunctuation (text.drop cursor)
    let behind := oneLength (fun c => qwen35IsNewline c || c = 47) (text.drop (cursor + run))
    if 0 < behind then cursor + run + behind
    else if run = 0 then width
    else cursor + run

theorem qwen35PieceLength_pos (text : Bytes) : 0 < qwen35PieceLength text := by
  have hwidth := utf8Decode_width_pos text
  rw [qwen35PieceLength]
  simp only
  split_ifs with h1 h2 h3 h4 h5 h6 h7 h8 h9
  any_goals omega
  · -- a blank that is not a newline is part of its run
    rw [blankLength]
    split_ifs with hnil hspace
    · subst hnil
      exact absurd h6 (by decide)
    · rw [h6] at hspace
      exact absurd hspace (by decide)
    · omega

/-- The pieces that a text is cut into, given the length of the first one. -/
def piecesOf (pieceLength : Bytes → ℕ) (hpos : ∀ text, 0 < pieceLength text) (text : Bytes) :
    List Bytes :=
  if _h : text = [] then []
  else
    text.take (pieceLength text) :: piecesOf pieceLength hpos (text.drop (pieceLength text))
termination_by text.length
decreasing_by
  have := hpos text
  have := List.length_pos_iff.mpr _h
  rw [List.length_drop]
  omega

/-- The pieces of `encode_plain` and `encode_plain_qwen35`. -/
def plainPieces (self : Vocabulary) (text : Bytes) : List Bytes :=
  if self.qwen35Pretokenizer then piecesOf qwen35PieceLength qwen35PieceLength_pos text
  else piecesOf plainPieceLength plainPieceLength_pos text

/-- `encode_plain` -/
def encodePlain (self : Vocabulary) (capacity : ℕ) (output : List ℤ) (text : Bytes) : List ℤ :=
  (plainPieces self text).foldl (encodePiece self capacity) output

/-! ### Special tokens -/

/-- `inline_specials` -/
def inlineSpecials : List Bytes :=
  [ascii "<think>", ascii "</think>", ascii "<tool_call>", ascii "</tool_call>",
    ascii "<tool_response>", ascii "</tool_response>"]

/-- A pass of the loop over the inline tags: a tag that stands before what was found so far. -/
def nearer (text : Bytes) (found : Option ℕ × ℕ) (marker : Bytes) : Option ℕ × ℕ :=
  match find marker text with
  | some position => if found.1.all (position < ·) then (some position, marker.length) else found
  | none => found

/-- Where the first marker stands, and its length; the length of a control token is not known yet and
counts as 0. -/
def firstMarker (text : Bytes) : Option ℕ × ℕ :=
  inlineSpecials.foldl (nearer text) (find (ascii "<|") text, 0)

/-- The length of the special token at the start of a text; `none` when it has no end. -/
def specialLength (markerLength : ℕ) (text : Bytes) : Option ℕ :=
  if 0 < markerLength then some markerLength
  else if 3 ≤ text.length then (find (ascii "|>") (text.drop 2)).map (· + 4)
  else none

theorem specialLength_pos {markerLength length : ℕ} {text : Bytes}
    (h : specialLength markerLength text = some length) : 0 < length := by
  rw [specialLength] at h
  split_ifs at h with hmarker hlength
  · cases h
    exact hmarker
  · obtain ⟨e, -, rfl⟩ := Option.map_eq_some_iff.mp h
    omega

/-- The token of a special text, or else its pieces. -/
def encodeSpecial (self : Vocabulary) (capacity : ℕ) (output : List ℤ) (special : Bytes) : List ℤ :=
  match self.lookupVocabulary special with
  | none => encodePlain self capacity output special
  | some id => push capacity output id

/-- The plain text in front of a marker. -/
def encodeBefore (self : Vocabulary) (capacity : ℕ) (output : List ℤ) (text : Bytes) (relative : ℕ) :
    List ℤ :=
  if 0 < relative then encodePlain self capacity output (text.take relative) else output

/-- The loop of `native_tokenizer_encode`. -/
def encodeText (self : Vocabulary) (capacity : ℕ) (output : List ℤ) (text : Bytes) : List ℤ :=
  if _h : text = [] then output
  else
    match _hmarker : firstMarker text with
    | (none, _) => encodePlain self capacity output text
    | (some relative, markerLength) =>
      match _hlength : specialLength markerLength (text.drop relative) with
      | none =>
        encodePlain self capacity (encodeBefore self capacity output text relative)
          (text.drop relative)
      | some length =>
        encodeText self capacity
          (encodeSpecial self capacity (encodeBefore self capacity output text relative)
            ((text.drop relative).take length))
          ((text.drop relative).drop length)
termination_by text.length
decreasing_by
  have := specialLength_pos _hlength
  have := List.length_pos_iff.mpr _h
  rw [List.length_drop, List.length_drop]
  omega

/-- `native_tokenizer_encode`; the options are `none` when they are not present. -/
def encode (self : Vocabulary) (text : Bytes) (addSpecial parseSpecial : Option Bool) : List ℤ :=
  let capacity := Nat.max 32 (4 * text.length + 8)
  let output :=
    if addSpecial.getD self.addBosToken ∧ 0 ≤ self.bosToken then [self.bosToken] else []
  if !parseSpecial.getD true then encodePlain self capacity output text
  else encodeText self capacity output text

end Tokenizer

end FortAI
