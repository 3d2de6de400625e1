import FortAI.Tokenizer.Decode
import FortAI.Tokenizer.Encode
import Mathlib.Data.List.Nodup

/-!
# Encoding and decoding

A vocabulary is `Complete` when it lists the byte symbols and what the merges make of them.  Every
function of the encoder then adds tokens for just the bytes it is given (`Adds`).

* `mergeSymbols_induction` : what a merge of listed symbols keeps.
* `encodePiece_adds`, `encodePlain_adds`, `encodeText_adds` : from the piece to the text.
* `round_trip` : a text comes back from its tokens.
-/

namespace FortAI

namespace Tokenizer

open CString Utf8

/-- A text that the encoder may take for a control token. -/
def IsSpecial (text : Bytes) : Prop := ascii "<|" <+: text ∧ ascii "|>" <:+ text

def IsAscii (text : Bytes) : Prop := ∀ b ∈ text, b.toNat ≤ 127

/-- The vocabulary lists every byte symbol and the result of every merge. -/
structure Listed (tokenizer : Vocabulary) : Prop where
  bytes : ∀ b : Byte, byteSymbol b ∈ tokenizer.tokens
  merges : ∀ pair ∈ tokenizer.merges, pair.1 ++ pair.2 ∈ tokenizer.tokens

/-- Besides, its texts are distinct, and its special tokens are ASCII. -/
structure Complete (tokenizer : Vocabulary) : Prop extends Listed tokenizer where
  distinct : tokenizer.tokens.Nodup
  special : ∀ text ∈ tokenizer.tokens, IsSpecial text → IsAscii text

/-- The tokens of `result` are those of `output` and tokens for the bytes of `text`. -/
structure Adds (tokenizer : Vocabulary) (output : List ℤ) (text : Bytes) (result : List ℤ) :
    Prop where
  bytes : rawBytes tokenizer result = rawBytes tokenizer output ++ text
  room : result.length ≤ output.length + text.length

namespace Adds

variable {self : Vocabulary} {output middle result : List ℤ} {text rest : Bytes}

theorem refl (output : List ℤ) : Adds self output [] output :=
  ⟨(List.append_nil _).symm, Nat.le_refl _⟩

theorem trans (h : Adds self output text middle) (h' : Adds self middle rest result) :
    Adds self output (text ++ rest) result where
  bytes := by rw [h'.bytes, h.bytes, List.append_assoc]
  room := by
    have hroom := h.room
    have hroom' := h'.room
    rw [List.length_append]
    omega

end Adds

section
variable {self : Vocabulary}

theorem rawBytes_append (a b : List ℤ) : rawBytes self (a ++ b) = rawBytes self a ++ rawBytes self b := by
  rw [rawBytes_eq, rawBytes_eq, rawBytes_eq, List.flatMap_append]

theorem tokenPiece_of_lookup {text : Bytes} {id : ℕ} (h : self.tokens[id]? = some text) :
    tokenPiece self id = some (pieceBytes text) := by
  obtain ⟨hlt, hget⟩ := List.getElem?_eq_some_iff.mp h
  rw [tokenPiece, if_neg (by omega), Int.toNat_natCast, List.getD_eq_getElem?_getD, h]
  rfl

/-- A listed text is added as the bytes it stands for. -/
theorem push_adds {capacity : ℕ} {output : List ℤ} {text : Bytes} {id : ℕ}
    (hroom : output.length < capacity) (hid : self.tokens[id]? = some text)
    (hne : pieceBytes text ≠ []) : Adds self output (pieceBytes text) (push capacity output id) := by
  rw [push, if_pos hroom]
  refine ⟨?_, ?_⟩
  · rw [rawBytes_append, rawBytes_eq self [(id : ℤ)], List.flatMap_cons, tokenPiece_of_lookup hid]
    simp
  · have := List.length_pos_iff.mpr hne
    rw [List.length_append, List.length_singleton]
    omega

/-! ### Pieces -/

/-- The symbols are listed, and stand for bytes that make up `raw`. -/
def Spell (self : Vocabulary) (raw : Bytes) (symbols : List Bytes) : Prop :=
  ∃ parts : List Bytes, symbols = parts.map (·.flatMap byteSymbol) ∧ parts.flatten = raw ∧
    (∀ part ∈ parts, part ≠ []) ∧ ∀ symbol ∈ symbols, symbol ∈ self.tokens

theorem spell_bytes (h : Listed self) (raw : Bytes) : Spell self raw (raw.map byteSymbol) := by
  refine ⟨raw.map fun b => [b], ?_, ?_, ?_, ?_⟩
  · rw [List.map_map]
    congr 1
    funext b
    exact (List.append_nil _).symm
  · induction raw with
    | nil => rfl
    | cons b raw ih => rw [List.map_cons, List.flatten_cons, ih]; rfl
  · intro part hpart
    obtain ⟨b, -, rfl⟩ := List.mem_map.mp hpart
    exact List.cons_ne_nil b []
  · intro symbol hsymbol
    obtain ⟨b, -, rfl⟩ := List.mem_map.mp hsymbol
    exact h.bytes b

/-- A merge joins two parts. -/
theorem spell_merge (h : Listed self) {raw : Bytes} {u t : List Bytes} {x y : Bytes} {rank : ℕ}
    (hrank : self.lookupMerge x y = some rank) (hspell : Spell self raw (u ++ x :: y :: t)) :
    Spell self raw (u ++ (x ++ y) :: t) := by
  obtain ⟨parts, hparts, hflatten, hne, htokens⟩ := hspell
  obtain ⟨before, behind, rfl, rfl, hbehind⟩ := List.map_eq_append_iff.mp hparts.symm
  obtain ⟨first, others, rfl, rfl, hothers⟩ := List.map_eq_cons_iff.mp hbehind
  obtain ⟨second, rest, rfl, rfl, rfl⟩ := List.map_eq_cons_iff.mp hothers
  refine ⟨before ++ (first ++ second) :: rest, ?_, ?_, ?_, ?_⟩
  · simp only [List.map_append, List.map_cons, List.flatMap_append]
  · rw [← hflatten]
    simp only [List.flatten_append, List.flatten_cons, List.append_assoc]
  · intro part hpart
    simp only [List.mem_append, List.mem_cons] at hpart hne
    rcases hpart with hpart | rfl | hpart
    · exact hne part (.inl hpart)
    · exact List.append_ne_nil_of_left_ne_nil (hne first (.inr (.inl rfl))) second
    · exact hne part (.inr (.inr (.inr hpart)))
  · intro symbol hsymbol
    simp only [List.mem_append, List.mem_cons] at hsymbol htokens
    rcases hsymbol with hsymbol | rfl | hsymbol
    · exact htokens symbol (.inl hsymbol)
    · exact h.merges _ (List.mem_of_getElem? (Vocabulary.lookupMerge_eq_some hrank))
    · exact htokens symbol (.inr (.inr (.inr hsymbol)))

theorem mergeSymbols_spell (h : Listed self) {raw : Bytes} (symbols : List Bytes)
    (hspell : Spell self raw symbols) : Spell self raw (mergeSymbols self symbols) := by
  induction symbols using mergeSymbols.induct self with
  | case1 symbols hnone =>
    rw [mergeSymbols]
    split
    · exact hspell
    · next hsome =>
      rw [hnone] at hsome
      cases hsome
  | case2 symbols rank best hsome ih =>
    rw [mergeSymbols]
    split
    · exact hspell
    · next rank' best' hsome' =>
      rw [hsome] at hsome'
      cases hsome'
      refine ih ?_
      rcases scanPairs_eq_some hsome with hnone | ⟨u, x, y, t, rfl, rfl, hrank⟩
      · cases hnone
      · rw [Nat.zero_add, mergeAt_append]
        exact spell_merge h hrank hspell

theorem encodePiece_adds (h : Listed self) {capacity : ℕ} (raw : Bytes) {output : List ℤ}
    (hroom : output.length + raw.length ≤ capacity) :
    Adds self output raw (encodePiece self capacity output raw) := by
  have hspell := mergeSymbols_spell h _ (spell_bytes h raw)
  obtain ⟨parts, hparts, rfl, hne, htokens⟩ := hspell
  rw [encodePiece, hparts]
  rw [hparts] at htokens
  clear hparts
  induction parts generalizing output with
  | nil => exact .refl output
  | cons part parts ih =>
    rw [List.map_cons, List.forall_mem_cons] at htokens
    rw [List.flatten_cons, List.length_append] at hroom
    obtain ⟨hpart, hparts⟩ := List.forall_mem_cons.mp hne
    obtain ⟨id, hid⟩ := Vocabulary.lookupVocabulary_of_mem htokens.1
    have htoken : symbolToken self (part.flatMap byteSymbol) = some id := by
      rw [symbolToken, hid]
      rfl
    have hpos := List.length_pos_iff.mpr hpart
    have hpush : Adds self output _ (push capacity output id) :=
      push_adds (by omega) (Vocabulary.lookupVocabulary_eq_some hid)
        (by rw [pieceBytes_symbols]; exact hpart)
    rw [pieceBytes_symbols] at hpush
    rw [List.map_cons, List.foldl_cons, htoken, List.flatten_cons]
    have hlength := hpush.room
    exact hpush.trans (ih (by omega) hparts htokens.2)

/-! ### Plain texts -/

theorem flatten_piecesOf {pieceLength : Bytes → ℕ} (hpos : ∀ text, 0 < pieceLength text)
    (text : Bytes) : (piecesOf pieceLength hpos text).flatten = text := by
  induction text using piecesOf.induct pieceLength hpos with
  | case1 => rw [piecesOf, dif_pos rfl]; rfl
  | case2 text hne ih => rw [piecesOf, dif_neg hne, List.flatten_cons, ih, List.take_append_drop]

/-- The pieces partition the text. -/
theorem flatten_plainPieces (text : Bytes) : (plainPieces self text).flatten = text := by
  rw [plainPieces]
  split_ifs
  · exact flatten_piecesOf qwen35PieceLength_pos text
  · exact flatten_piecesOf plainPieceLength_pos text

theorem encodePlain_adds (h : Listed self) {capacity : ℕ} (text : Bytes) {output : List ℤ}
    (hroom : output.length + text.length ≤ capacity) :
    Adds self output text (encodePlain self capacity output text) := by
  rw [← @flatten_plainPieces self text] at hroom
  have hpieces (pieces : List Bytes) :
      ∀ {output : List ℤ}, output.length + pieces.flatten.length ≤ capacity →
        Adds self output pieces.flatten (pieces.foldl (encodePiece self capacity) output) := by
    induction pieces with
    | nil => exact fun _ => .refl _
    | cons piece pieces ih =>
      intro output hroom
      rw [List.flatten_cons, List.length_append] at hroom
      have hpiece : Adds self output piece (encodePiece self capacity output piece) :=
        encodePiece_adds h piece (by omega)
      have hlength := hpiece.room
      exact hpiece.trans (ih (by omega))
  have hall := hpieces (plainPieces self text) hroom
  rwa [flatten_plainPieces] at hall

/-! ### Special tokens -/

/-- What was found is `<|`, or one of the inline tags, which comes with its length. -/
def Marks (text : Bytes) (found : Option ℕ × ℕ) : Prop :=
  ∀ position, found.1 = some position →
    found.2 = 0 ∧ find (ascii "<|") text = some position ∨
      ∃ marker ∈ inlineSpecials, found.2 = marker.length ∧ find marker text = some position

theorem nearer_marks {text marker : Bytes} (hmarker : marker ∈ inlineSpecials) {found : Option ℕ × ℕ}
    (h : Marks text found) : Marks text (nearer text found marker) := by
  rw [nearer]
  cases hfind : find marker text with
  | none => exact h
  | some here =>
    simp only
    split_ifs
    · intro position hposition
      cases hposition
      exact .inr ⟨marker, hmarker, rfl, hfind⟩
    · exact h

theorem firstMarker_marks (text : Bytes) : Marks text (firstMarker text) := by
  have hfold (markers : List Bytes) : markers ⊆ inlineSpecials →
      ∀ found, Marks text found → Marks text (markers.foldl (nearer text) found) := by
    induction markers with
    | nil => exact fun _ _ h => h
    | cons marker markers ih =>
      intro hsubset found h
      rw [List.cons_subset] at hsubset
      exact ih hsubset.2 _ (nearer_marks hsubset.1 h)
  exact hfold inlineSpecials (List.Subset.refl _) _ fun position h => .inl ⟨rfl, h⟩

theorem inlineSpecials_ascii {marker : Bytes} (h : marker ∈ inlineSpecials) : IsAscii marker := by
  have hall : inlineSpecials.all (fun marker => marker.all fun b => b.toNat ≤ 127) = true := by decide
  intro b hb
  exact of_decide_eq_true (List.all_eq_true.mp (List.all_eq_true.mp hall marker h) b hb)

/-- The special text that is cut out is an inline tag, or has the form of a control token. -/
theorem special_cases {text : Bytes} {relative markerLength length : ℕ}
    (hmarker : firstMarker text = (some relative, markerLength))
    (hlength : specialLength markerLength (text.drop relative) = some length) :
    IsAscii ((text.drop relative).take length) ∨ IsSpecial ((text.drop relative).take length) := by
  have hmarks := firstMarker_marks text relative (by rw [hmarker])
  rw [hmarker] at hmarks
  rcases hmarks with ⟨hzero, hfind⟩ | ⟨marker, hinline, hmarkerLength, hfind⟩
  · right
    have hopen : ascii "<|" <+: text.drop relative := prefix_of_find hfind
    simp only at hzero
    rw [specialLength, if_neg (by omega)] at hlength
    split_ifs at hlength
    obtain ⟨e, he, rfl⟩ := Option.map_eq_some_iff.mp hlength
    have hclose : ascii "|>" <+: ((text.drop relative).drop 2).drop e := prefix_of_find he
    obtain ⟨s, hs⟩ := hopen
    obtain ⟨t, ht⟩ := hclose
    rw [← hs, show (ascii "<|" ++ s).drop 2 = s from rfl] at ht
    have hlen : (s.take e).length = e := by
      have hle := find_add_length_le (by decide) he
      rw [← hs, show (ascii "<|" ++ s).drop 2 = s from rfl] at hle
      exact List.length_take_of_le (by omega)
    have hspecial : (text.drop relative).take (e + 4) = ascii "<|" ++ (s.take e ++ ascii "|>") := by
      have hall : text.drop relative = ascii "<|" ++ (s.take e ++ ascii "|>") ++ t := by
        rw [List.append_assoc, List.append_assoc, ht, List.take_append_drop, hs]
      have hwidth : (ascii "<|" ++ (s.take e ++ ascii "|>")).length = e + 4 := by
        rw [List.length_append, List.length_append, hlen]
        exact Nat.add_comm 2 (e + 2)
      rw [hall, ← hwidth, List.take_left]
    rw [hspecial]
    exact ⟨List.prefix_append _ _, (List.suffix_append _ _).trans (List.suffix_append _ _)⟩
  · left
    have hpos : 0 < marker.length := by
      have hall : inlineSpecials.all (fun marker => 0 < marker.length) = true := by decide
      exact of_decide_eq_true (List.all_eq_true.mp hall marker hinline)
    simp only at hmarkerLength
    rw [specialLength, if_pos (by omega), Option.some.injEq] at hlength
    obtain ⟨s, hs⟩ := prefix_of_find hfind
    rw [← hs, ← hlength, hmarkerLength, List.take_left]
    exact inlineSpecials_ascii hinline

theorem encodeSpecial_adds (h : Complete self) {capacity : ℕ} {special : Bytes} {output : List ℤ}
    (hne : special ≠ []) (hspecial : IsAscii special ∨ IsSpecial special)
    (hroom : output.length + special.length ≤ capacity) :
    Adds self output special (encodeSpecial self capacity output special) := by
  have hpos := List.length_pos_iff.mpr hne
  rw [encodeSpecial]
  cases hlookup : self.lookupVocabulary special with
  | none => exact encodePlain_adds h.toListed special hroom
  | some id =>
    have htoken := Vocabulary.lookupVocabulary_eq_some hlookup
    have hascii : IsAscii special := 
      hspecial.elim (fun h => h) (h.special special (List.mem_of_getElem? htoken))
    have hbytes : pieceBytes special = special := pieceBytes_ascii hascii
    have hpush : Adds self output _ (push capacity output id) :=
      push_adds (by omega) htoken (by rw [hbytes]; exact hne)
    rwa [hbytes] at hpush

theorem drop_ne_nil_of_marker {text : Bytes} {relative markerLength : ℕ}
    (h : firstMarker text = (some relative, markerLength)) : text.drop relative ≠ [] := by
  have hmarks := firstMarker_marks text relative (by rw [h])
  have hprefix : ∃ needle : Bytes, needle ≠ [] ∧ needle <+: text.drop relative := by
    rcases hmarks with ⟨-, hfind⟩ | ⟨marker, hinline, -, hfind⟩
    · exact ⟨_, by decide, prefix_of_find hfind⟩
    · have hall : inlineSpecials.all (fun marker => marker ≠ []) = true := by decide
      exact ⟨marker, of_decide_eq_true (List.all_eq_true.mp hall marker hinline),
        prefix_of_find hfind⟩
  obtain ⟨needle, hne, hprefix⟩ := hprefix
  intro hnil
  rw [hnil] at hprefix
  exact hne (List.prefix_nil.mp hprefix)

theorem encodeBefore_adds (h : Listed self) {capacity relative : ℕ} {text : Bytes} {output : List ℤ}
    (hroom : output.length + text.length ≤ capacity) :
    Adds self output (text.take relative) (encodeBefore self capacity output text relative) := by
  have hle : (text.take relative).length ≤ text.length := List.length_take_le' _ _
  rw [encodeBefore]
  split_ifs with hrelative
  · exact encodePlain_adds h _ (by omega)
  · rw [Nat.eq_zero_of_not_pos hrelative, List.take_zero]
    exact .refl output

theorem encodeText_adds (h : Complete self) {capacity : ℕ} (text : Bytes) {output : List ℤ}
    (hroom : output.length + text.length ≤ capacity) :
    Adds self output text (encodeText self capacity output text) := by
  induction hn : text.length using Nat.strong_induction_on generalizing text output with
  | _ n ih =>
    by_cases hne : text = []
    · rw [encodeText, dif_pos hne, hne]
      exact .refl output
    rw [encodeText, dif_neg hne]
    split
    · exact encodePlain_adds h.toListed text hroom
    · next relative markerLength hmarker =>
      have hbefore := @encodeBefore_adds _ h.toListed _ relative _ _ hroom
      have hroom' := hbefore.room
      have hlen : (text.take relative).length + (text.drop relative).length = text.length := by
        rw [← List.length_append, List.take_append_drop]
      split
      · have hplain := hbefore.trans (@encodePlain_adds _ h.toListed capacity (text.drop relative) _
          (by omega))
        rwa [List.take_append_drop] at hplain
      · next length hlength =>
        have hpos := specialLength_pos hlength
        have hcut : ((text.drop relative).take length).length +
            ((text.drop relative).drop length).length = (text.drop relative).length := by
          rw [← List.length_append, List.take_append_drop]
        have hspecialne : (text.drop relative).take length ≠ [] := fun hnil =>
          drop_ne_nil_of_marker hmarker ((List.take_eq_nil_iff.mp hnil).resolve_left (by omega))
        have hspecialpos := List.length_pos_iff.mpr hspecialne
        have hspecial : Adds self (encodeBefore self capacity output text relative)
            ((text.drop relative).take length) _ :=
          @encodeSpecial_adds _ h capacity _ _ hspecialne (special_cases hmarker hlength) (by omega)
        have hroom'' := hspecial.room
        have hrest := hbefore.trans (hspecial.trans
          (ih _ (by omega) ((text.drop relative).drop length) (by omega) rfl))
        rwa [List.take_append_drop, List.take_append_drop] at hrest

theorem encode_adds (h : Complete self) (text : Bytes) (parseSpecial : Option Bool) :
    Adds self [] text (encode self text (some false) parseSpecial) := by
  have hroom : ([] : List ℤ).length + text.length ≤ Nat.max 32 (4 * text.length + 8) := by
    have : 4 * text.length + 8 ≤ Nat.max 32 (4 * text.length + 8) := Nat.le_max_right _ _
    rw [List.length_nil]
    omega
  rw [encode]
  simp only [Option.getD_some, Bool.false_eq_true, false_and, if_false]
  split_ifs
  · exact encodePlain_adds h.toListed text hroom
  · exact encodeText_adds h text hroom

end

/-- Encoding and decoding gives a text back, with a replacement character for each byte outside of a
UTF-8 sequence; the pieces partition the text, and the tokens stand for all of its bytes. -/
theorem round_trip (self : Vocabulary) (h : Complete self) (text : Bytes) (parseSpecial : Option Bool) :
    (Valid text → decode self (encode self text (some false) parseSpecial) = text) ∧
      Replaced text (decode self (encode self text (some false) parseSpecial)) ∧
      (plainPieces self text).flatten = text ∧
      rawBytes self (encode self text (some false) parseSpecial) = text := by
  have hraw : rawBytes self (encode self text (some false) parseSpecial) = text :=
    (encode_adds h text parseSpecial).bytes
  have hreplaced := sanitized_replaced (rawBytes self (encode self text (some false) parseSpecial))
  rw [hraw] at hreplaced
  have hdecode : decode self (encode self text (some false) parseSpecial) = sanitized text := by
    rw [decode, hraw]
  rw [hdecode]
  exact ⟨hreplaced.eq_of_valid, hreplaced, flatten_plainPieces text, hraw⟩

/-! ### A vocabulary of bytes -/

/-- The byte symbols and nothing else. -/
def byteVocabulary : Vocabulary where
  tokens := (List.range 256).map fun n => byteSymbol (UInt8.ofNat n)
  merges := []
  bosToken := -1
  addBosToken := false
  qwen35Pretokenizer := true

theorem byteSymbol_injective : Function.Injective byteSymbol := by
  intro a b h
  have ha := pieceBytes_symbols [a]
  have hb := pieceBytes_symbols [b]
  rw [List.flatMap_singleton] at ha hb
  rw [h, hb] at ha
  exact (List.cons.inj ha).1.symm

theorem byteVocabulary_complete : Complete byteVocabulary where
  bytes b := List.mem_map.mpr ⟨b.toNat, List.mem_range.mpr b.toNat_lt, by rw [UInt8.ofNat_toNat]⟩
  merges pair hpair := absurd hpair List.not_mem_nil
  distinct := by
    refine List.Nodup.map_on ?_ List.nodup_range
    intro m hm n hn heq
    have hbyte := congrArg UInt8.toNat (byteSymbol_injective heq)
    rwa [toNat_byte (List.mem_range.mp hm), toNat_byte (List.mem_range.mp hn)] at hbyte
  special := by
    intro text htext hspecial
    obtain ⟨n, -, rfl⟩ := List.mem_map.mp htext
    obtain ⟨t, ht⟩ := hspecial.1
    have hlt := byteUnicode_lt (UInt8.ofNat n).toNat_lt
    have hlen : (byteSymbol (UInt8.ofNat n)).length ≤ 2 := by
      rw [byteSymbol]
      rcases Nat.lt_or_ge 127 (byteUnicode (UInt8.ofNat n).toNat) with h | h
      · rw [utf8_two h (by omega)]
        exact Nat.le_refl 2
      · rw [utf8_one h]
        exact Nat.le_succ 1
    rw [← ht, List.length_append] at hlen
    have hnil : t = [] := List.length_eq_zero_iff.mp (by
      rw [show (ascii "<|").length = 2 from rfl] at hlen
      omega)
    rw [← ht, hnil]
    intro b hb
    have hall : (ascii "<|" ++ []).all (fun b => b.toNat ≤ 127) = true := by decide
    exact of_decide_eq_true (List.all_eq_true.mp hall b hb)

theorem round_trip_byteVocabulary :
    (Valid (ascii "a <|b|>") → decode byteVocabulary
        (encode byteVocabulary (ascii "a <|b|>") (some false) none) = ascii "a <|b|>") ∧
      Replaced (ascii "a <|b|>") (decode byteVocabulary
        (encode byteVocabulary (ascii "a <|b|>") (some false) none)) ∧
      (plainPieces byteVocabulary (ascii "a <|b|>")).flatten = ascii "a <|b|>" ∧
      rawBytes byteVocabulary (encode byteVocabulary (ascii "a <|b|>") (some false) none) =
        ascii "a <|b|>" :=
  round_trip byteVocabulary byteVocabulary_complete (ascii "a <|b|>") none

end Tokenizer

end FortAI
