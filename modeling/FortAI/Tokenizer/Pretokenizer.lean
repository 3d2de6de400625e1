import FortAI.Machine.Pattern
import FortAI.Tokenizer.Encode

/-!
# The Qwen3.5 pre-tokenizer and its regular expression

The scanner of `encode_plain_qwen35` stands for a regular expression (`splitter`), whose classes are the
character predicates of the scanner.  The two are compared on the characters of a valid text.

* `qwen35PieceLength_text` : the scanner as a function on characters (`pieceChars`).
* `first_splitter_iff` : where the two take the same piece.
* `pretokenizer_exact_iff` : the scanner cuts a text like the expression just when it agrees with it on
  every piece of the expression.
-/

namespace FortAI

namespace Tokenizer

open CString Utf8 Pattern

/-! ### The regular expression -/

/-- `[\p{L}\p{M}]` -/
def isLetterOrMark (c : ℕ) : Bool := qwen35IsLetter c || qwen35IsMark c

/-- `[^\r\n\p{L}\p{N}]` -/
def mayLead (c : ℕ) : Bool := !(qwen35IsNewline c || qwen35IsLetter c || qwen35IsNumber c)

/-- `[^\s\p{L}\p{M}\p{N}]` -/
def isSymbol (c : ℕ) : Bool := !(qwen35IsWhitespace c || isLetterOrMark c || qwen35IsNumber c)

/-- A letter in either case; `c` is the small one. -/
def letter (c : ℕ) : Pattern ℕ := one fun d => qwen35LowerAscii d = c

/-- An apostrophe and a rest. -/
def apostrophe (p : Pattern ℕ) : Pattern ℕ := seq (one fun c => c = 39) p

/-- `(?i:'s|'t|'re|'ve|'m|'ll|'d)` -/
def contraction : Pattern ℕ :=
  alts (apostrophe (letter 115))
    [apostrophe (letter 116), apostrophe (seq (letter 114) (letter 101)),
      apostrophe (seq (letter 118) (letter 101)), apostrophe (letter 109),
      apostrophe (seq (letter 108) (letter 108)), apostrophe (letter 100)]

/-- `[^\r\n\p{L}\p{N}]?[\p{L}\p{M}]+` -/
def word : Pattern ℕ := seq (optional (one mayLead)) (plus isLetterOrMark)

/-- `\p{N}` -/
def number : Pattern ℕ := one qwen35IsNumber

/-- ` ?[^\s\p{L}\p{M}\p{N}]+[\r\n]*` -/
def symbols : Pattern ℕ :=
  seq (optional (one fun c => c = 32)) (seq (plus isSymbol) (star qwen35IsNewline))

/-- `\s*[\r\n]+` -/
def lineEnd : Pattern ℕ := seq (star qwen35IsWhitespace) (plus qwen35IsNewline)

/-- `\s+(?!\S)` -/
def trailing : Pattern ℕ := seq (plus qwen35IsWhitespace) (notAhead fun c => !qwen35IsWhitespace c)

/-- `\s+` -/
def blanks : Pattern ℕ := plus qwen35IsWhitespace

/-- The regular expression of the pre-tokenizer. -/
def splitter : Pattern ℕ := alts contraction [word, number, symbols, lineEnd, trailing, blanks]

/-! ### The scanner on characters -/

/-- The bytes of a text. -/
def text (s : List ℕ) : Bytes := s.flatMap utf8

/-- Punctuation with a newline behind it. -/
def punctuationChars (s : List ℕ) : ℕ :=
  (s.takeWhile qwen35IsPunctuation).length +
    if (s.dropWhile qwen35IsPunctuation).head?.any qwen35IsNewline then 1 else 0

/-- White space that is no newline. -/
def isBlank (c : ℕ) : Bool := qwen35IsWhitespace c && !qwen35IsNewline c

/-- White space up to the end of its first newlines. -/
def blankChars (s : List ℕ) : ℕ :=
  (s.takeWhile isBlank).length + ((s.dropWhile isBlank).takeWhile qwen35IsNewline).length

/-- What is taken where no word starts. -/
def otherChars (c : ℕ) (s : List ℕ) : ℕ :=
  if c = 32 ∧ s.head?.any qwen35IsPunctuation then 1 + punctuationChars s
  else if qwen35IsWhitespace c then blankChars (c :: s)
  else punctuationChars (c :: s)

/-- `qwen35PieceLength` in characters. -/
def pieceChars : List ℕ → ℕ
  | [] => 0
  | c :: s =>
    if (first contraction (c :: s)).isSome then (first contraction (c :: s)).getD 0
    else if qwen35IsNumber c then 1
    else if qwen35IsWord c then 1 + (s.takeWhile qwen35IsWord).length
    else if !qwen35IsNewline c && s.head?.any qwen35IsWord then
      1 + (s.takeWhile qwen35IsWord).length
    else otherChars c s

section

variable {s t : List ℕ} {c : ℕ} {inClass : ℕ → Bool}

theorem text_cons : text (c :: s) = utf8 c ++ text s := List.flatMap_cons

theorem text_append : text (s ++ t) = text s ++ text t := List.flatMap_append

theorem text_eq_nil_iff : text s = [] ↔ s = [] := by
  cases s with
  | nil => simp [text]
  | cons c s => simp [text_cons, utf8_ne_nil]

theorem drop_text (n : ℕ) : (text s).drop (text (s.take n)).length = text (s.drop n) := by
  calc (text s).drop (text (s.take n)).length
      = (text (s.take n) ++ text (s.drop n)).drop (text (s.take n)).length := by
        rw [← text_append, List.take_append_drop]
    _ = text (s.drop n) := List.drop_left

theorem take_text (n : ℕ) : (text s).take (text (s.take n)).length = text (s.take n) := by
  calc (text s).take (text (s.take n)).length
      = (text (s.take n) ++ text (s.drop n)).take (text (s.take n)).length := by
        rw [← text_append, List.take_append_drop]
    _ = text (s.take n) := List.take_left

theorem scalar_lt (h : IsScalar c) : c < 2097152 := by
  have := h.1
  omega

theorem utf8Decode_text (hc : IsScalar c) : utf8Decode (text (c :: s)) = (c, (utf8 c).length) := by
  rw [text_cons, utf8Decode_append (scalar_lt hc)]

theorem runLength_text_cons (hc : IsScalar c) : runLength inClass (text (c :: s)) =
    if inClass c then (utf8 c).length + runLength inClass (text s) else 0 := by
  rw [runLength, dif_neg (mt text_eq_nil_iff.mp (List.cons_ne_nil c s)), utf8Decode_text hc, text_cons,
    List.drop_left]

theorem runLength_text (hs : ∀ c ∈ s, IsScalar c) :
    runLength inClass (text s) = (text (s.takeWhile inClass)).length := by
  induction s with
  | nil =>
    rw [runLength]
    exact dif_pos rfl
  | cons c s ih =>
    obtain ⟨hc, hs⟩ := List.forall_mem_cons.mp hs
    rw [runLength_text_cons hc, ih hs]
    cases h : inClass c with
    | true => rw [if_pos rfl, List.takeWhile_cons_of_pos h, text_cons, List.length_append]
    | false =>
      rw [if_neg Bool.false_ne_true, List.takeWhile_cons_of_neg (by rw [h]; exact Bool.false_ne_true)]
      rfl

theorem oneLength_text (hs : ∀ c ∈ s, IsScalar c) : oneLength inClass (text s) =
    (text (s.take (if s.head?.any inClass then 1 else 0))).length := by
  cases s with
  | nil => exact if_neg fun h => h.1 rfl
  | cons c s =>
    rw [oneLength, utf8Decode_text (hs c List.mem_cons_self)]
    cases h : inClass c with
    | true => simp [h, utf8_ne_nil, text]
    | false => simp [h, text]

theorem whitespace_of_newline (h : qwen35IsNewline c = true) : qwen35IsWhitespace c = true := by
  simp only [qwen35IsNewline, Bool.or_eq_true, decide_eq_true_eq] at h
  rcases h with rfl | rfl <;> decide

theorem newline_eq_false (h : qwen35IsWhitespace c = false) : qwen35IsNewline c = false := by
  cases hnewline : qwen35IsNewline c with
  | false => rfl
  | true => rw [whitespace_of_newline hnewline] at h; cases h

theorem blankLength_text_cons (hc : IsScalar c) : blankLength (text (c :: s)) =
    if isBlank c then (utf8 c).length + blankLength (text s)
    else runLength qwen35IsNewline (text (c :: s)) := by
  rw [blankLength, dif_neg (mt text_eq_nil_iff.mp (List.cons_ne_nil c s)), utf8Decode_text hc,
    runLength_text_cons hc, text_cons, List.drop_left, isBlank]
  cases hspace : qwen35IsWhitespace c with
  | true => cases hnewline : qwen35IsNewline c <;> simp
  | false =>
    simp [newline_eq_false hspace]

theorem takeWhile_eq_take : s.takeWhile inClass = s.take (s.takeWhile inClass).length :=
  List.prefix_iff_eq_take.mp (List.takeWhile_prefix inClass)

theorem dropWhile_eq_drop : s.dropWhile inClass = s.drop (s.takeWhile inClass).length := by
  have h : s.takeWhile inClass ++ s.dropWhile inClass = s := List.takeWhile_append_dropWhile
  calc s.dropWhile inClass
      = (s.takeWhile inClass ++ s.dropWhile inClass).drop (s.takeWhile inClass).length :=
        List.drop_left.symm
    _ = s.drop (s.takeWhile inClass).length := by rw [h]

/-- The bytes of the first characters, one part after the other. -/
theorem length_text_take_add {m n : ℕ} : (text (s.take (m + n))).length =
    (text (s.take m)).length + (text ((s.drop m).take n)).length := by
  rw [List.take_add, text_append, List.length_append]

theorem blankLength_text (hs : ∀ c ∈ s, IsScalar c) :
    blankLength (text s) = (text (s.take (blankChars s))).length := by
  rw [blankChars, length_text_take_add, ← takeWhile_eq_take, ← dropWhile_eq_drop, ← takeWhile_eq_take]
  induction s with
  | nil =>
    rw [blankLength]
    exact dif_pos rfl
  | cons c s ih =>
    obtain ⟨hc, hrest⟩ := List.forall_mem_cons.mp hs
    rw [blankLength_text_cons hc]
    by_cases h : isBlank c = true
    · rw [if_pos h, ih hrest, List.takeWhile_cons_of_pos h, List.dropWhile_cons_of_pos h, text_cons,
        List.length_append, Nat.add_assoc]
    · rw [if_neg h, runLength_text hs, List.takeWhile_cons_of_neg h, List.dropWhile_cons_of_neg h]
      exact (Nat.zero_add _).symm

/-! ### Contractions -/

/-- The first byte of a character says whether it is an ASCII letter. -/
theorem exists_lead (hc : IsScalar c) : ∃ b t, utf8 c = b :: t ∧ ∀ x ≤ 127,
    (qwen35LowerAscii b.toNat = x ↔ qwen35LowerAscii c = x) ∧ (qwen35LowerAscii c = x → t = []) := by
  have hlt := hc.1
  rcases Nat.lt_or_ge 127 c with h1 | h1
  · obtain ⟨b, t, hbt, hb⟩ : ∃ b t, utf8 c = b :: t ∧ 128 ≤ b.toNat := by
      rcases Nat.lt_or_ge 2047 c with h2 | h2
      · rcases Nat.lt_or_ge 65535 c with h3 | h3
        · exact ⟨_, _, utf8_four h3, by rw [toNat_byte (by omega)]; omega⟩
        · exact ⟨_, _, utf8_three h2 h3, by rw [toNat_byte (by omega)]; omega⟩
      · exact ⟨_, _, utf8_two h1 h2, by rw [toNat_byte (by omega)]; omega⟩
    refine ⟨b, t, hbt, fun x hx => ?_⟩
    rw [qwen35LowerAscii, qwen35LowerAscii, if_neg (by omega), if_neg (by omega)]
    exact ⟨by omega, by omega⟩
  · exact ⟨_, _, utf8_one h1, fun x _ => ⟨by rw [toNat_byte (by omega)], fun _ => rfl⟩⟩

theorem first_letter_cons {x : ℕ} :
    first (letter x) (c :: s) = if qwen35LowerAscii c = x then some 1 else none := by
  rw [letter, first_one]
  simp

theorem first_apostrophe {p : Pattern ℕ} : first (apostrophe p) (c :: s) =
    if c = 39 then (first p s).map (1 + ·) else none := by
  rw [apostrophe, first_seq_one]
  simp

theorem first_seq_letter {x : ℕ} {p : Pattern ℕ} : first (seq (letter x) p) (c :: s) =
    if qwen35LowerAscii c = x then (first p s).map (1 + ·) else none := by
  rw [letter, first_seq_one]
  simp

/-- The contractions, by the letter behind the apostrophe. -/
theorem first_contraction : first contraction (39 :: c :: s) =
    if qwen35LowerAscii c = 115 ∨ qwen35LowerAscii c = 116 ∨ qwen35LowerAscii c = 109 ∨
        qwen35LowerAscii c = 100 then some 2
    else if (qwen35LowerAscii c = 114 ∨ qwen35LowerAscii c = 118) ∧
          (first (letter 101) s).isSome ∨
        qwen35LowerAscii c = 108 ∧ (first (letter 108) s).isSome then some 3
    else none := by
  have hone (x : ℕ) : first (letter x) s = if (first (letter x) s).isSome then some 1 else none := by
    rw [letter, first_one]
    cases s.head?.any _ <;> rfl
  simp only [contraction, alts, first_alt, first_apostrophe, first_letter_cons, first_seq_letter, if_pos]
  rw [hone 101, hone 108]
  generalize (first (letter 101) s).isSome = e
  generalize (first (letter 108) s).isSome = l
  by_cases h : qwen35LowerAscii c ∈ [115, 116, 109, 100, 114, 118, 108]
  · simp only [List.mem_cons, List.not_mem_nil, or_false] at h
    rcases h with h | h | h | h | h | h | h <;> cases e <;> cases l <;> simp [h]
  · simp only [List.mem_cons, List.not_mem_nil, or_false, not_or] at h
    simp [h]

theorem first_contraction_of_ne (hc : c ≠ 39) : first contraction (c :: s) = none := by
  simp [contraction, alts, first_alt, first_apostrophe, hc]

/-- The same on bytes. -/
theorem qwen35ContractionLength_cons (b : Byte) (u : Bytes) : qwen35ContractionLength (39 :: b :: u) =
    if qwen35LowerAscii b.toNat = 115 ∨ qwen35LowerAscii b.toNat = 116 ∨
        qwen35LowerAscii b.toNat = 109 ∨ qwen35LowerAscii b.toNat = 100 then 2
    else if (qwen35LowerAscii b.toNat = 114 ∨ qwen35LowerAscii b.toNat = 118) ∧
          u.head?.any (fun d => qwen35LowerAscii d.toNat = 101) ∨
        qwen35LowerAscii b.toNat = 108 ∧ u.head?.any (fun d => qwen35LowerAscii d.toNat = 108) then 3
    else 0 := by
  rw [qwen35ContractionLength]
  simp only [List.getD_cons_zero, List.getD_cons_succ]
  generalize qwen35LowerAscii b.toNat = x
  cases u with
  | nil => simp
  | cons d u =>
    simp only [List.getD_cons_zero, List.head?_cons, Option.any_some, decide_eq_true_eq, List.length_cons]
    generalize qwen35LowerAscii d.toNat = y
    grind

theorem contraction_pos {k : ℕ} (h : first contraction s = some k) : 0 < k := by
  cases s with
  | nil => cases h
  | cons a s =>
    by_cases ha : a = 39
    · subst ha
      cases s with
      | nil => cases h
      | cons c s =>
        rw [first_contraction] at h
        split_ifs at h <;> cases h <;> omega
    · rw [first_contraction_of_ne ha] at h
      cases h

/-- A letter behind the apostrophe is the same one in the bytes. -/
theorem head_text_letter (hs : ∀ c ∈ s, IsScalar c) {x : ℕ} (hx : x ≤ 127) :
    (text s).head?.any (fun d => qwen35LowerAscii d.toNat = x) = (first (letter x) s).isSome := by
  cases s with
  | nil => rfl
  | cons d s =>
    obtain ⟨b, u, hbu, hb⟩ := exists_lead (hs d List.mem_cons_self)
    rw [first_letter_cons, text_cons, hbu]
    simp only [List.cons_append, List.head?_cons, Option.any_some, (hb x hx).1]
    split_ifs with h <;> simp [h]

theorem length_utf8_letter {x : ℕ} (hc : IsScalar c) (hx : x ≤ 127) (h : qwen35LowerAscii c = x) :
    (utf8 c).length = 1 := by
  obtain ⟨b, u, hbu, hb⟩ := exists_lead hc
  rw [hbu, (hb x hx).2 h]
  rfl

theorem qwen35ContractionLength_text_of_ne (hc : IsScalar c) (h : c ≠ 39) :
    qwen35ContractionLength (text (c :: s)) = 0 := by
  obtain ⟨b, u, hbu, hb⟩ := exists_lead hc
  have hb39 : b ≠ 39 := by
    rintro rfl
    have hlower : qwen35LowerAscii c = 39 := (hb 39 (by omega)).1.mp rfl
    rw [qwen35LowerAscii] at hlower
    split_ifs at hlower <;> omega
  rw [text_cons, hbu]
  exact if_pos hb39

theorem qwen35ContractionLength_text_quote (hc : IsScalar c) (hs : ∀ c ∈ s, IsScalar c) :
    qwen35ContractionLength (text (39 :: c :: s)) =
      (text ((39 :: c :: s).take ((first contraction (39 :: c :: s)).getD 0))).length := by
  obtain ⟨b, u, hbu, hb⟩ := exists_lead hc
  have htext : text (39 :: c :: s) = 39 :: b :: (u ++ text s) := by
    rw [text_cons, text_cons, hbu]
    rfl
  rw [htext, qwen35ContractionLength_cons, first_contraction]
  simp only [(hb 115 (by omega)).1, (hb 116 (by omega)).1, (hb 109 (by omega)).1,
    (hb 100 (by omega)).1, (hb 114 (by omega)).1, (hb 118 (by omega)).1, (hb 108 (by omega)).1]
  by_cases hu : u = []
  · subst hu
    have htwo (t : List ℕ) : (text (39 :: c :: t)).length = 2 + (text t).length := by
      rw [text_cons, text_cons, hbu, List.length_append, List.length_append]
      exact (Nat.add_assoc 1 1 _).symm
    rw [List.nil_append, head_text_letter hs (by omega), head_text_letter hs (by omega)]
    split_ifs with h2 h3
    · exact (htwo []).symm
    · obtain ⟨x, hx, hsome⟩ : ∃ x ≤ 127, (first (letter x) s).isSome := by
        rcases h3 with h3 | h3
        · exact ⟨101, by omega, h3.2⟩
        · exact ⟨108, by omega, h3.2⟩
      cases s with
      | nil => cases hsome
      | cons d s =>
        have hd : qwen35LowerAscii d = x := by
          rw [first_letter_cons] at hsome
          by_contra hne
          rw [if_neg hne] at hsome
          cases hsome
        have hwidth := length_utf8_letter (hs d List.mem_cons_self) hx hd
        refine ((htwo [d]).trans ?_).symm
        rw [text_cons, List.length_append, hwidth]
        rfl
    · rfl
  · -- a character of several bytes is none of the letters
    have hne (x : ℕ) (hx : x ≤ 127) : ¬ qwen35LowerAscii c = x := mt (hb x hx).2 hu
    simp [hne, text]

/-- The scanner takes a contraction where the expression does. -/
theorem qwen35ContractionLength_text (hs : ∀ c ∈ s, IsScalar c) : qwen35ContractionLength (text s) =
    (text (s.take ((first contraction s).getD 0))).length := by
  match s, hs with
  | [], _ => rfl
  | [a], hs =>
    by_cases ha : a = 39
    · subst ha
      rfl
    · rw [qwen35ContractionLength_text_of_ne (hs a List.mem_cons_self) ha, first_contraction_of_ne ha]
      rfl
  | a :: c :: s, hs =>
    obtain ⟨ha, hrest⟩ := List.forall_mem_cons.mp hs
    obtain ⟨hc, hbehind⟩ := List.forall_mem_cons.mp hrest
    by_cases h39 : a = 39
    · subst h39
      exact qwen35ContractionLength_text_quote hc hbehind
    · rw [qwen35ContractionLength_text_of_ne ha h39, first_contraction_of_ne h39]
      rfl

/-! ### The scanner reads characters -/

theorem decode_rest (hs : ∀ c ∈ s, IsScalar c) (inClass : ℕ → Bool) :
    (decide (text s ≠ []) && inClass (utf8Decode (text s)).1) = s.head?.any inClass := by
  cases s with
  | nil => rfl
  | cons d s =>
    rw [utf8Decode_text (hs d List.mem_cons_self)]
    simp [text_eq_nil_iff]

theorem drop_runLength_text (hs : ∀ c ∈ s, IsScalar c) :
    (text s).drop (runLength inClass (text s)) = text (s.dropWhile inClass) := by
  rw [runLength_text hs, takeWhile_eq_take, drop_text, dropWhile_eq_drop]

theorem scalar_dropWhile (hs : ∀ c ∈ s, IsScalar c) : ∀ c ∈ s.dropWhile inClass, IsScalar c :=
  fun c hc => hs c ((List.dropWhile_suffix inClass).subset hc)

theorem punctuation_text (hs : ∀ c ∈ s, IsScalar c) :
    runLength qwen35IsPunctuation (text s) +
        oneLength qwen35IsNewline ((text s).drop (runLength qwen35IsPunctuation (text s))) =
      (text (s.take (punctuationChars s))).length := by
  rw [drop_runLength_text hs, runLength_text hs, oneLength_text (scalar_dropWhile hs), punctuationChars,
    length_text_take_add, ← takeWhile_eq_take, ← dropWhile_eq_drop]

/-- A slash behind punctuation is a part of it. -/
theorem oneLength_slash (hs : ∀ c ∈ s, IsScalar c) :
    oneLength (fun c => qwen35IsNewline c || c = 47) (text (s.dropWhile qwen35IsPunctuation)) =
      oneLength qwen35IsNewline (text (s.dropWhile qwen35IsPunctuation)) := by
  have hhead : (s.dropWhile qwen35IsPunctuation).head?.any (fun c => qwen35IsNewline c || c = 47) =
      (s.dropWhile qwen35IsPunctuation).head?.any qwen35IsNewline := by
    cases hbehind : s.dropWhile qwen35IsPunctuation with
    | nil => rfl
    | cons d t =>
      have hd : d ≠ 47 := by
        rintro rfl
        have hnot := List.head_dropWhile_not qwen35IsPunctuation (l := s) (by simp [hbehind])
        simp only [hbehind, List.head_cons] at hnot
        exact absurd hnot (by decide)
      simp [hd]
  rw [oneLength_text (scalar_dropWhile hs), oneLength_text (scalar_dropWhile hs), hhead]

/-- The scanner looks for a word behind the character that may lead it. -/
theorem prefixWord_text (hs : ∀ c ∈ s, IsScalar c) (hnumber : ¬ qwen35IsNumber c = true)
    (hword : ¬ qwen35IsWord c = true) :
    (qwen35IsOptionalPrefix c && decide (text s ≠ []) && qwen35IsWord (utf8Decode (text s)).1) =
      (!qwen35IsNewline c && s.head?.any qwen35IsWord) := by
  have hlead : qwen35IsOptionalPrefix c = !qwen35IsNewline c := by
    simp [qwen35IsOptionalPrefix, hnumber, hword]
  rw [Bool.and_assoc, decode_rest hs, hlead]

/-- And for punctuation behind a space. -/
theorem prefixPunctuation_text (hs : ∀ c ∈ s, IsScalar c) :
    (qwen35IsOptionalPrefix c && decide (text s ≠ []) && !qwen35IsWord (utf8Decode (text s)).1 &&
        decide (c = 32) && !qwen35IsWhitespace (utf8Decode (text s)).1 &&
        !qwen35IsNumber (utf8Decode (text s)).1) = true ↔
      c = 32 ∧ s.head?.any qwen35IsPunctuation := by
  by_cases hc : c = 32
  · subst hc
    have hlead : qwen35IsOptionalPrefix 32 = true := by decide
    rw [← decode_rest hs, hlead, qwen35IsPunctuation]
    cases decide (text s ≠ []) <;> cases qwen35IsWord _ <;> simp
  · simp [hc]

/-- The scanner is a function on characters. -/
theorem qwen35PieceLength_text (hs : ∀ c ∈ s, IsScalar c) (hne : s ≠ []) :
    qwen35PieceLength (text s) = (text (s.take (pieceChars s))).length := by
  cases s with
  | nil => exact absurd rfl hne
  | cons c s =>
    obtain ⟨hc, hrest⟩ := List.forall_mem_cons.mp hs
    have hwidth (n : ℕ) : (text ((c :: s).take (1 + n))).length =
        (utf8 c).length + (text (s.take n)).length := by
      rw [Nat.add_comm 1 n, List.take_succ_cons, text_cons, List.length_append]
    have hdrop : (text (c :: s)).drop (utf8 c).length = text s := by rw [text_cons, List.drop_left]
    rw [qwen35PieceLength, qwen35ContractionLength_text hs, utf8Decode_text hc]
    simp only [hdrop, pieceChars]
    by_cases hcontraction : (first contraction (c :: s)).isSome
    · obtain ⟨k, hk⟩ := Option.isSome_iff_exists.mp hcontraction
      have hpos : 0 < (text ((c :: s).take k)).length := by
        rw [← Nat.add_sub_cancel' (contraction_pos hk), hwidth]
        have := List.length_pos_iff.mpr (utf8_ne_nil c)
        omega
      rw [if_pos hcontraction, hk, Option.getD_some, if_pos hpos]
    have hnone : first contraction (c :: s) = none := Option.not_isSome_iff_eq_none.mp hcontraction
    have hzero : ¬ 0 < (text ((c :: s).take 0)).length := Nat.lt_irrefl 0
    rw [if_neg hcontraction, hnone, Option.getD_none, if_neg hzero]
    by_cases hnumber : qwen35IsNumber c = true
    · rw [if_pos hnumber, if_pos hnumber]
      exact (hwidth 0).symm
    rw [if_neg hnumber, if_neg hnumber]
    by_cases hword : qwen35IsWord c = true
    · rw [if_pos hword, if_pos hword, hwidth, runLength_text hrest, ← takeWhile_eq_take]
    rw [if_neg hword, if_neg hword, prefixWord_text hrest hnumber hword]
    by_cases hlead : (!qwen35IsNewline c && s.head?.any qwen35IsWord) = true
    · rw [if_pos hlead, if_pos hlead]
      cases s with
      | nil => simp at hlead
      | cons d s =>
        obtain ⟨hd, hbehind⟩ := List.forall_mem_cons.mp hrest
        have hdword : qwen35IsWord d = true := ((Bool.and_eq_true _ _).mp hlead).2
        rw [hwidth, ← takeWhile_eq_take, List.takeWhile_cons_of_pos hdword, utf8Decode_text hd, text_cons,
          text_cons, List.drop_left, runLength_text hbehind, List.length_append, Nat.add_assoc]
    rw [if_neg hlead, if_neg hlead, otherChars]
    by_cases hpunctuation : c = 32 ∧ s.head?.any qwen35IsPunctuation
    · rw [if_pos ((prefixPunctuation_text hrest).mpr hpunctuation), if_pos hpunctuation, hwidth,
        ← punctuation_text hrest, Nat.add_assoc]
    rw [if_neg (mt (prefixPunctuation_text hrest).mp hpunctuation), if_neg hpunctuation]
    by_cases hspace : qwen35IsWhitespace c = true
    · rw [if_pos hspace, if_pos hspace, ← blankLength_text hs]
      split_ifs with hnewline
      · have hblank : ¬ isBlank c = true := by simp [isBlank, hnewline]
        rw [blankLength_text_cons hc, if_neg hblank, runLength_text_cons hc, if_pos hnewline]
      · rfl
    -- the scanner also looks for a space here, which is white space
    have hc32 : ¬ (c = 32 ∧ (text s = [] ∨ qwen35IsPunctuation (utf8Decode (text s)).1 = true)) := by
      rintro ⟨rfl, -⟩
      exact hspace (by decide)
    have hrun : ¬ runLength qwen35IsPunctuation (text (c :: s)) = 0 := by
      have hpunctuation : qwen35IsPunctuation c = true := by
        simp [qwen35IsPunctuation, hspace, hword, hnumber]
      have hpos := List.length_pos_iff.mpr (utf8_ne_nil c)
      rw [runLength_text_cons hc, if_pos hpunctuation]
      omega
    rw [if_neg hspace, if_neg hspace, if_neg hc32, List.drop_zero, Nat.zero_add, if_neg hrun,
      drop_runLength_text hs, oneLength_slash hs, ← drop_runLength_text hs, ← punctuation_text hs]
    split_ifs
    · rfl
    · omega

/-! ### The matches of the expression -/

/-- Symbols and the newlines behind them. -/
def symbolChars (s : List ℕ) : ℕ :=
  (s.takeWhile isSymbol).length + ((s.dropWhile isSymbol).takeWhile qwen35IsNewline).length

theorem first_word : first word (c :: s) =
    if isLetterOrMark c then some (1 + (s.takeWhile isLetterOrMark).length)
    else if mayLead c && s.head?.any isLetterOrMark then
      some (1 + (s.takeWhile isLetterOrMark).length)
    else none := by
  rw [word, first_seq_optional, first_plus_cons, first_plus]
  cases isLetterOrMark c <;> cases mayLead c <;> cases s.head?.any isLetterOrMark <;> rfl

theorem first_symbolRun : first (seq (plus isSymbol) (star qwen35IsNewline)) s =
    if s.head?.any isSymbol then some (symbolChars s) else none := by
  rw [first_seq_of_isSome (fun t => by rw [first_star]; rfl), first_plus]
  split_ifs with h
  · rw [Option.bind_some, first_star, ← dropWhile_eq_drop]
    rfl
  · rfl

theorem first_symbols : first symbols (c :: s) =
    if c = 32 ∧ s.head?.any isSymbol then some (1 + symbolChars s)
    else if isSymbol c then some (symbolChars (c :: s)) else none := by
  rw [symbols, first_seq_optional, first_symbolRun, first_symbolRun]
  by_cases hc : c = 32
  · subst hc
    have hnot : isSymbol 32 = false := by decide
    cases s.head?.any isSymbol <;> simp [hnot]
  · have hnot : ¬ (c = 32 ∧ s.head?.any isSymbol = true) := fun h => hc h.1
    rw [if_neg hnot, decide_eq_false hc, if_neg Bool.false_ne_true, Option.none_or]
    rfl

theorem first_lineEnd_cons : first lineEnd (c :: s) =
    (if qwen35IsWhitespace c then (first lineEnd s).map (· + 1) else none).or
      (if qwen35IsNewline c then some (1 + (s.takeWhile qwen35IsNewline).length) else none) := by
  rw [lineEnd, first_seq_star, first_plus_cons]

theorem lineEnd_pos {n : ℕ} (h : first lineEnd s = some n) : 0 < n := by
  cases s with
  | nil => cases h
  | cons c s =>
    rw [first_lineEnd_cons] at h
    rcases Option.or_eq_some_iff.mp h with h | ⟨-, h⟩
    · split_ifs at h
      obtain ⟨m, -, rfl⟩ := Option.map_eq_some_iff.mp h
      exact Nat.succ_pos m
    · split_ifs at h
      cases h
      omega

/-- White space with a newline in it is cut behind a newline. -/
theorem lineEnd_isSome : (first lineEnd s).isSome = (s.takeWhile qwen35IsWhitespace).any qwen35IsNewline := by
  induction s with
  | nil => rfl
  | cons c s ih =>
    rw [first_lineEnd_cons]
    cases hspace : qwen35IsWhitespace c with
    | true =>
      rw [List.takeWhile_cons_of_pos hspace, List.any_cons, ← ih]
      cases first lineEnd s <;> cases qwen35IsNewline c <;> simp
    | false =>
      simp [hspace, newline_eq_false hspace]

/-- White space at its end: all of it at the end of the text, and else all but its last character. -/
theorem first_trailing (hspace : qwen35IsWhitespace c = true) :
    (first trailing (c :: s)).or (first blanks (c :: s)) =
      some (if s.all qwen35IsWhitespace then 1 + s.length
        else if s.head?.any qwen35IsWhitespace then (s.takeWhile qwen35IsWhitespace).length
        else 1) := by
  rw [trailing, plus, first_seq_assoc, first_seq_one, if_pos hspace, first_star_notAhead, blanks,
    first_plus_cons, if_pos hspace]
  cases s with
  | nil => rfl
  | cons d s =>
    split_ifs with hall hhead
    · rfl
    · have hd : qwen35IsWhitespace d = true := hhead
      rw [List.takeWhile_cons_of_pos hd]
      simp [Nat.add_comm]
    · have hd : ¬ qwen35IsWhitespace d = true := hhead
      rw [List.takeWhile_cons_of_neg hd]
      rfl

/-! ### Where the two agree -/

/-- The white space behind the first newlines of a run. -/
def behindLine (s : List ℕ) : List ℕ :=
  ((s.dropWhile isBlank).dropWhile qwen35IsNewline).takeWhile qwen35IsWhitespace

/-- The newlines behind a run of symbols. -/
def newlinesBehind (s : List ℕ) : List ℕ := (s.dropWhile isSymbol).takeWhile qwen35IsNewline

/-- The white space at the start of a text: all its newlines stand together, and without a newline it is
a single character or reaches the end of the text. -/
def RegularSpace (s : List ℕ) : Prop :=
  if (s.takeWhile qwen35IsWhitespace).any qwen35IsNewline then
    (behindLine s).any qwen35IsNewline = false
  else s.all qwen35IsWhitespace ∨ (s.takeWhile qwen35IsWhitespace).length ≤ 1

/-- What stands at the start of a text is read alike: there is no numeral among the letters and marks of
a word, at most one newline behind symbols, and white space is `RegularSpace`. -/
def Regular : List ℕ → Prop
  | [] => True
  | c :: s =>
    if (first contraction (c :: s)).isSome then True
    else if isLetterOrMark c then
      s.head?.any isLetterOrMark →
        ((c :: s).takeWhile isLetterOrMark).any qwen35IsNumber = false
    else if qwen35IsNumber c then True
    else if !qwen35IsNewline c && s.head?.any isLetterOrMark then
      (s.takeWhile isLetterOrMark).any qwen35IsNumber = false
    else if c = 32 ∧ s.head?.any isSymbol then (newlinesBehind s).length ≤ 1
    else if qwen35IsWhitespace c then RegularSpace (c :: s)
    else (newlinesBehind (c :: s)).length ≤ 1

theorem isSymbol_eq : isSymbol = qwen35IsPunctuation := by
  funext c
  rw [isSymbol, qwen35IsPunctuation, qwen35IsWord, isLetterOrMark]
  cases qwen35IsWhitespace c <;> cases qwen35IsNumber c <;> simp

theorem word_eq : qwen35IsWord c = (!qwen35IsNumber c && isLetterOrMark c) := rfl

/-- The word that the scanner takes is the one of the expression when it has no numeral. -/
theorem wordRun_iff : (s.takeWhile qwen35IsWord).length = (s.takeWhile isLetterOrMark).length ↔
    (s.takeWhile isLetterOrMark).any qwen35IsNumber = false := by
  induction s with
  | nil => simp
  | cons c s ih =>
    cases hletter : isLetterOrMark c with
    | false =>
      have hword : qwen35IsWord c = false := by rw [word_eq, hletter, Bool.and_false]
      simp [hletter, hword]
    | true =>
      cases hnumber : qwen35IsNumber c with
      | true =>
        have hword : qwen35IsWord c = false := by rw [word_eq, hnumber]; rfl
        simp [hletter, hword, hnumber]
      | false =>
        have hword : qwen35IsWord c = true := by rw [word_eq, hletter, hnumber]; rfl
        simp [hletter, hword, hnumber, ih]

theorem punctuationChars_iff : symbolChars s = punctuationChars s ↔ (newlinesBehind s).length ≤ 1 := by
  rw [symbolChars, punctuationChars, newlinesBehind, isSymbol_eq, Nat.add_left_cancel_iff]
  cases s.dropWhile qwen35IsPunctuation with
  | nil => simp
  | cons c s =>
    cases h : qwen35IsNewline c with
    | true => simp [h]
    | false => simp [h]

/-- From a newline on, the expression stops behind the newlines when no other one follows. -/
theorem newlines_iff (hc : qwen35IsNewline c = true) :
    first lineEnd (c :: s) = some (1 + (s.takeWhile qwen35IsNewline).length) ↔
      ((s.dropWhile qwen35IsNewline).takeWhile qwen35IsWhitespace).any qwen35IsNewline = false := by
  induction s generalizing c with
  | nil =>
    rw [first_lineEnd_cons, if_pos hc, if_pos (whitespace_of_newline hc)]
    exact ⟨fun _ => rfl, fun _ => rfl⟩
  | cons d s ih =>
    have hsome : (first lineEnd (d :: s)).isSome = _ := lineEnd_isSome
    rw [first_lineEnd_cons, if_pos hc, if_pos (whitespace_of_newline hc)]
    by_cases hd : qwen35IsNewline d = true
    · rw [List.takeWhile_cons_of_pos (whitespace_of_newline hd), List.any_cons, hd, Bool.true_or] at hsome
      obtain ⟨n, hn⟩ := Option.isSome_iff_exists.mp hsome
      rw [List.takeWhile_cons_of_pos hd, List.dropWhile_cons_of_pos hd, ← ih hd, hn, List.length_cons]
      simp only [Option.map_some, Option.some_or, Option.some.injEq]
      omega
    · rw [List.takeWhile_cons_of_neg hd, List.dropWhile_cons_of_neg hd, ← hsome]
      cases hn : first lineEnd (d :: s) with
      | none => simp
      | some n =>
        have hpos := lineEnd_pos hn
        simp
        omega

theorem blankChars_iff (h : (s.takeWhile qwen35IsWhitespace).any qwen35IsNewline = true) :
    first lineEnd s = some (blankChars s) ↔ (behindLine s).any qwen35IsNewline = false := by
  induction s with
  | nil => cases h
  | cons c s ih =>
    by_cases hnewline : qwen35IsNewline c = true
    · have hblank : ¬ isBlank c = true := by simp [isBlank, hnewline]
      rw [blankChars, behindLine, List.takeWhile_cons_of_neg hblank, List.dropWhile_cons_of_neg hblank,
        List.takeWhile_cons_of_pos hnewline, List.dropWhile_cons_of_pos hnewline, ← newlines_iff hnewline,
        List.length_nil, List.length_cons, Nat.zero_add, Nat.add_comm 1]
    · have hspace : qwen35IsWhitespace c = true := by
        by_contra hno
        rw [List.takeWhile_cons_of_neg hno] at h
        cases h
      have hblank : isBlank c = true := by simp [isBlank, hspace, hnewline]
      rw [List.takeWhile_cons_of_pos hspace, List.any_cons, Bool.eq_false_iff.mpr hnewline,
        Bool.false_or] at h
      obtain ⟨n, hn⟩ := Option.isSome_iff_exists.mp (lineEnd_isSome.trans h)
      have hbehind : behindLine (c :: s) = behindLine s := by
        rw [behindLine, List.dropWhile_cons_of_pos hblank]
        rfl
      have hchars : blankChars (c :: s) = blankChars s + 1 := by
        rw [blankChars, List.takeWhile_cons_of_pos hblank, List.dropWhile_cons_of_pos hblank,
          List.length_cons, Nat.add_right_comm]
        rfl
      rw [first_lineEnd_cons, if_pos hspace, if_neg hnewline, Option.or_none, hbehind, ← ih h, hn, hchars]
      simp

/-- White space without a newline. -/
theorem blankChars_of_none (h : (s.takeWhile qwen35IsWhitespace).any qwen35IsNewline = false) :
    blankChars s = (s.takeWhile qwen35IsWhitespace).length := by
  induction s with
  | nil => rfl
  | cons c s ih =>
    by_cases hspace : qwen35IsWhitespace c = true
    · rw [List.takeWhile_cons_of_pos hspace, List.any_cons, Bool.or_eq_false_iff] at h
      have hblank : isBlank c = true := by simp [isBlank, hspace, h.1]
      rw [List.takeWhile_cons_of_pos hspace, List.length_cons, ← ih h.2, blankChars,
        List.takeWhile_cons_of_pos hblank, List.dropWhile_cons_of_pos hblank, List.length_cons,
        Nat.add_right_comm]
      rfl
    · have hnewline : ¬ qwen35IsNewline c = true := mt whitespace_of_newline hspace
      have hblank : ¬ isBlank c = true := by simp [isBlank, hspace]
      rw [blankChars, List.takeWhile_cons_of_neg hspace, List.takeWhile_cons_of_neg hblank,
        List.dropWhile_cons_of_neg hblank, List.takeWhile_cons_of_neg hnewline]
      rfl

theorem regularSpace_iff (hspace : qwen35IsWhitespace c = true) :
    (first lineEnd (c :: s)).or ((first trailing (c :: s)).or (first blanks (c :: s))) =
        some (blankChars (c :: s)) ↔ RegularSpace (c :: s) := by
  rw [RegularSpace, first_trailing hspace]
  by_cases h : ((c :: s).takeWhile qwen35IsWhitespace).any qwen35IsNewline = true
  · obtain ⟨n, hn⟩ := Option.isSome_iff_exists.mp (lineEnd_isSome.trans h)
    rw [if_pos h, ← blankChars_iff h, hn, Option.some_or]
  · have hnone : first lineEnd (c :: s) = none := by
      rw [← Option.not_isSome_iff_eq_none, lineEnd_isSome]
      exact h
    rw [if_neg h, hnone, Option.none_or, blankChars_of_none (Bool.eq_false_iff.mpr h),
      List.takeWhile_cons_of_pos hspace, List.all_cons, hspace, Bool.true_and, List.length_cons,
      Option.some.injEq]
    cases s with
    | nil => simp
    | cons d s =>
      split_ifs with hall hhead
      · have hrun : ((d :: s).takeWhile qwen35IsWhitespace) = d :: s :=
          List.takeWhile_eq_self_iff.mpr (List.all_eq_true.mp hall)
        rw [hrun, Nat.add_comm]
        simp [hall]
      · have hd : qwen35IsWhitespace d = true := hhead
        rw [List.takeWhile_cons_of_pos hd, List.length_cons]
        constructor
        · omega
        · rintro (hyes | hle)
          · exact absurd hyes hall
          · omega
      · have hd : ¬ qwen35IsWhitespace d = true := hhead
        rw [List.takeWhile_cons_of_neg hd]
        simp

theorem takeWhile_of_head (h : ¬ s.head?.any inClass = true) : s.takeWhile inClass = [] := by
  cases s with
  | nil => rfl
  | cons d s => exact List.takeWhile_cons_of_neg h

theorem whitespace_of_number (h : qwen35IsNumber c = true) : qwen35IsWhitespace c = false := by
  simp only [qwen35IsNumber, inRanges, List.any_cons, List.any_nil, Bool.or_eq_true, Bool.and_eq_true,
    decide_eq_true_eq, Bool.false_eq_true, or_false] at h
  simp only [qwen35IsWhitespace, inRanges, List.any_cons, List.any_nil, Bool.or_eq_false_iff,
    Bool.and_eq_false_iff, decide_eq_false_iff_not, and_true]
  omega

theorem length_takeWhile_pos (h : s.head?.any inClass = true) : 0 < (s.takeWhile inClass).length := by
  cases s with
  | nil => cases h
  | cons d s =>
    have hd : inClass d = true := h
    rw [List.takeWhile_cons_of_pos hd]
    exact Nat.succ_pos _

theorem head_letter (h : s.head?.any qwen35IsWord = true) : s.head?.any isLetterOrMark = true := by
  cases s with
  | nil => cases h
  | cons d s => exact ((Bool.and_eq_true _ _).mp h).2

/-- A letter or a mark is read as a word, or as a number. -/
theorem letter_iff : some (1 + (s.takeWhile isLetterOrMark).length) =
      some (if qwen35IsNumber c = true then 1 else 1 + (s.takeWhile qwen35IsWord).length) ↔
    (s.head?.any isLetterOrMark →
      (c :: s.takeWhile isLetterOrMark).any qwen35IsNumber = false) := by
  rw [List.any_cons, Option.some.injEq]
  by_cases hhead : s.head?.any isLetterOrMark = true
  · by_cases hnumber : qwen35IsNumber c = true
    · have hpos := length_takeWhile_pos hhead
      rw [if_pos hnumber, hnumber, Bool.true_or]
      exact ⟨by omega, fun h => absurd (h hhead) (by decide)⟩
    · rw [if_neg hnumber, Nat.add_left_cancel_iff, eq_comm, wordRun_iff, Bool.eq_false_iff.mpr hnumber,
        Bool.false_or]
      exact ⟨fun h _ => h, fun h => h hhead⟩
  · rw [takeWhile_of_head hhead, takeWhile_of_head (mt head_letter hhead)]
    simp [hhead]

/-- A numeral ends what is taken where no word starts. -/
theorem otherChars_number {d : ℕ} (hd : qwen35IsNumber d = true) (hc : qwen35IsNewline c = false)
    (hletter : ¬ isLetterOrMark c = true) (hnumber : ¬ qwen35IsNumber c = true) :
    otherChars c (d :: s) = 1 := by
  have hspace := whitespace_of_number hd
  have hnewline : ¬ qwen35IsNewline d = true := by rw [newline_eq_false hspace]; exact Bool.false_ne_true
  have hpunctuation : ¬ qwen35IsPunctuation d = true := by simp [qwen35IsPunctuation, hd]
  have hnot : ¬ (c = 32 ∧ (d :: s).head?.any qwen35IsPunctuation = true) := fun h => hpunctuation h.2
  rw [otherChars, if_neg hnot]
  split_ifs with h
  · have hblank : isBlank c = true := by simp [isBlank, h, hc]
    have hrest : ¬ isBlank d = true := by simp [isBlank, hspace]
    rw [blankChars, List.takeWhile_cons_of_pos hblank, List.takeWhile_cons_of_neg hrest,
      List.dropWhile_cons_of_pos hblank, List.dropWhile_cons_of_neg hrest,
      List.takeWhile_cons_of_neg hnewline]
    rfl
  · have hsymbol : qwen35IsPunctuation c = true := by simp [← isSymbol_eq, isSymbol, h, hletter, hnumber]
    rw [punctuationChars, List.takeWhile_cons_of_pos hsymbol, List.takeWhile_cons_of_neg hpunctuation,
      List.dropWhile_cons_of_pos hsymbol, List.dropWhile_cons_of_neg hpunctuation, List.head?_cons,
      Option.any_some, if_neg hnewline]
    rfl

/-- A word behind the character that may lead it. -/
theorem lead_iff (hc : qwen35IsNewline c = false) (hletter : ¬ isLetterOrMark c = true)
    (hnumber : ¬ qwen35IsNumber c = true) (hhead : s.head?.any isLetterOrMark = true) :
    some (1 + (s.takeWhile isLetterOrMark).length) =
        some (if s.head?.any qwen35IsWord then 1 + (s.takeWhile qwen35IsWord).length
          else otherChars c s) ↔
      (s.takeWhile isLetterOrMark).any qwen35IsNumber = false := by
  rw [Option.some.injEq]
  by_cases hword : s.head?.any qwen35IsWord = true
  · rw [if_pos hword, Nat.add_left_cancel_iff, eq_comm, wordRun_iff]
  · rw [if_neg hword]
    cases s with
    | nil => cases hhead
    | cons d s =>
      have hd : isLetterOrMark d = true := hhead
      have hdnumber : qwen35IsNumber d = true := by
        by_contra hno
        refine hword ?_
        rw [List.head?_cons, Option.any_some, word_eq, hd, Bool.eq_false_iff.mpr hno]
        rfl
      rw [otherChars_number hdnumber hc hletter hnumber, List.takeWhile_cons_of_pos hd, List.any_cons,
        hdnumber, Bool.true_or, List.length_cons]
      simp

/-- The expression, where neither a word nor a number starts. -/
def other : Pattern ℕ := alts symbols [lineEnd, trailing, blanks]

theorem first_other : first other (c :: s) = (first symbols (c :: s)).or
    ((first lineEnd (c :: s)).or ((first trailing (c :: s)).or (first blanks (c :: s)))) := by
  rw [other, alts, first_alt, alts, first_alt, alts, first_alt]
  rfl

theorem first_splitter : first splitter (c :: s) =
    if (first contraction (c :: s)).isSome then first contraction (c :: s)
    else if isLetterOrMark c then some (1 + (s.takeWhile isLetterOrMark).length)
    else if qwen35IsNumber c then some 1
    else if !qwen35IsNewline c && s.head?.any isLetterOrMark then
      some (1 + (s.takeWhile isLetterOrMark).length)
    else first other (c :: s) := by
  have hnumber : first number (c :: s) = if qwen35IsNumber c then some 1 else none := first_one
  rw [splitter, alts, first_alt, alts, first_alt, alts, first_alt, first_word, hnumber, mayLead]
  cases first contraction (c :: s) with
  | some k => rfl
  | none =>
    have hletter : isLetterOrMark c = false → qwen35IsLetter c = false := fun h =>
      (Bool.or_eq_false_iff.mp h).1
    cases hc : isLetterOrMark c with
    | true => rfl
    | false =>
      rw [hletter hc]
      cases qwen35IsNumber c <;> cases qwen35IsNewline c <;>
        cases s.head?.any isLetterOrMark <;> rfl

/-- Where the scanner takes what the expression takes when no word starts. -/
theorem other_iff (hletter : ¬ isLetterOrMark c = true) (hnumber : ¬ qwen35IsNumber c = true) :
    first other (c :: s) = some (otherChars c s) ↔
      if c = 32 ∧ s.head?.any isSymbol then (newlinesBehind s).length ≤ 1
      else if qwen35IsWhitespace c then RegularSpace (c :: s)
      else (newlinesBehind (c :: s)).length ≤ 1 := by
  rw [first_other, first_symbols, otherChars, ← isSymbol_eq]
  by_cases hsymbol : c = 32 ∧ s.head?.any isSymbol
  · rw [if_pos hsymbol, if_pos hsymbol, if_pos hsymbol, Option.some_or, Option.some.injEq,
      Nat.add_left_cancel_iff, punctuationChars_iff]
  rw [if_neg hsymbol, if_neg hsymbol, if_neg hsymbol]
  by_cases hspace : qwen35IsWhitespace c = true
  · have hnot : ¬ isSymbol c = true := by simp [isSymbol, hspace]
    rw [if_pos hspace, if_pos hspace, if_neg hnot, Option.none_or, regularSpace_iff hspace]
  · have hyes : isSymbol c = true := by simp [isSymbol, hspace, hletter, hnumber]
    rw [if_neg hspace, if_neg hspace, if_pos hyes, Option.some_or, Option.some.injEq, punctuationChars_iff]

/-- Where the scanner takes the piece of the expression. -/
theorem first_splitter_iff : first splitter (c :: s) = some (pieceChars (c :: s)) ↔ Regular (c :: s) := by
  rw [first_splitter, Regular, pieceChars]
  by_cases hcontraction : (first contraction (c :: s)).isSome
  · obtain ⟨k, hk⟩ := Option.isSome_iff_exists.mp hcontraction
    rw [if_pos hcontraction, if_pos hcontraction, if_pos hcontraction, hk]
    exact ⟨fun _ => trivial, fun _ => rfl⟩
  rw [if_neg hcontraction, if_neg hcontraction, if_neg hcontraction]
  by_cases hletter : isLetterOrMark c = true
  · rw [if_pos hletter, if_pos hletter, List.takeWhile_cons_of_pos hletter, ← letter_iff, word_eq, hletter]
    cases hnumber : qwen35IsNumber c with
    | true => rfl
    | false => rfl
  rw [if_neg hletter, if_neg hletter]
  by_cases hnumber : qwen35IsNumber c = true
  · rw [if_pos hnumber, if_pos hnumber, if_pos hnumber]
    exact ⟨fun _ => trivial, fun _ => rfl⟩
  have hword : ¬ qwen35IsWord c = true := by simp [word_eq, hletter]
  rw [if_neg hnumber, if_neg hnumber, if_neg hnumber, if_neg hword]
  by_cases hlead : (!qwen35IsNewline c && s.head?.any isLetterOrMark) = true
  · obtain ⟨hc, hhead⟩ := (Bool.and_eq_true _ _).mp hlead
    rw [Bool.not_eq_true'] at hc
    rw [if_pos hlead, if_pos hlead, hc]
    exact lead_iff hc hletter hnumber hhead
  · have hnoword : ¬ (!qwen35IsNewline c && s.head?.any qwen35IsWord) = true := fun h =>
      hlead ((Bool.and_eq_true _ _).mpr (((Bool.and_eq_true _ _).mp h).imp_right head_letter))
    rw [if_neg hlead, if_neg hlead, if_neg hnoword]
    exact other_iff hletter hnumber

/-! ### Pieces -/

theorem symbolChars_pos (hc : isSymbol c = true) : 0 < symbolChars (c :: s) := by
  rw [symbolChars, List.takeWhile_cons_of_pos hc, List.length_cons]
  omega

/-- The expression takes something of every text. -/
theorem first_splitter_pos : ∃ n, first splitter (c :: s) = some (n + 1) := by
  suffices h : ∃ n, first splitter (c :: s) = some n ∧ 0 < n by
    obtain ⟨n, hn, hpos⟩ := h
    exact ⟨n - 1, by rw [hn, Nat.sub_add_cancel hpos]⟩
  rw [first_splitter]
  split_ifs with hcontraction hletter hnumber hlead
  · obtain ⟨k, hk⟩ := Option.isSome_iff_exists.mp hcontraction
    exact ⟨k, hk, contraction_pos hk⟩
  · exact ⟨_, rfl, by omega⟩
  · exact ⟨_, rfl, Nat.one_pos⟩
  · exact ⟨_, rfl, by omega⟩
  rw [first_other, first_symbols]
  split_ifs with h1 h2
  · exact ⟨_, rfl, by omega⟩
  · exact ⟨_, rfl, symbolChars_pos h2⟩
  have hspace : qwen35IsWhitespace c = true := by
    by_contra hno
    exact h2 (by simp [isSymbol, hno, hletter, hnumber])
  rw [Option.none_or]
  cases hn : first lineEnd (c :: s) with
  | some n => exact ⟨n, rfl, lineEnd_pos hn⟩
  | none =>
    rw [first_trailing hspace]
    refine ⟨_, rfl, ?_⟩
    split_ifs with hall hhead
    · omega
    · exact length_takeWhile_pos hhead
    · exact Nat.one_pos

theorem cuts_splitter : Cuts (first splitter) := by
  intro s hne
  obtain ⟨c, s, rfl⟩ := List.exists_cons_of_ne_nil hne
  obtain ⟨n, hn⟩ := @first_splitter_pos s c
  exact ⟨n, hn, first_le hn⟩

theorem length_takeWhile_add : (s.takeWhile inClass).length + (s.dropWhile inClass).length = s.length := by
  rw [← List.length_append, List.takeWhile_append_dropWhile]

theorem punctuationChars_le : punctuationChars s ≤ s.length := by
  rw [punctuationChars, ← @length_takeWhile_add s qwen35IsPunctuation]
  cases s.dropWhile qwen35IsPunctuation with
  | nil => simp
  | cons d t =>
    rw [List.length_cons]
    split_ifs <;> omega

theorem blankChars_le : blankChars s ≤ s.length := by
  rw [blankChars, ← @length_takeWhile_add s isBlank]
  exact Nat.add_le_add_left (List.takeWhile_prefix _).length_le _

theorem pieceChars_le : pieceChars (c :: s) ≤ (c :: s).length := by
  have hrun : 1 + (s.takeWhile qwen35IsWord).length ≤ (c :: s).length := by
    rw [List.length_cons, Nat.add_comm]
    exact Nat.succ_le_succ (List.takeWhile_prefix _).length_le
  have hbehind : 1 + punctuationChars s ≤ (c :: s).length := by
    rw [List.length_cons, Nat.add_comm]
    exact Nat.succ_le_succ punctuationChars_le
  rw [pieceChars, otherChars]
  split_ifs with hcontraction
  · obtain ⟨k, hk⟩ := Option.isSome_iff_exists.mp hcontraction
    rw [hk]
    exact first_le hk
  · exact Nat.succ_le_succ (Nat.zero_le _)
  · exact hrun
  · exact hrun
  · exact hbehind
  · exact blankChars_le
  · exact punctuationChars_le

theorem pieceChars_pos : 0 < pieceChars (c :: s) := by
  rw [pieceChars, otherChars]
  split_ifs with hcontraction hnumber hword hlead hpunctuation hspace
  · obtain ⟨k, hk⟩ := Option.isSome_iff_exists.mp hcontraction
    rw [hk]
    exact contraction_pos hk
  any_goals omega
  · by_cases hblank : isBlank c = true
    · rw [blankChars, List.takeWhile_cons_of_pos hblank, List.length_cons]
      omega
    · have hnewline : qwen35IsNewline c = true := by simpa [isBlank, hspace] using hblank
      rw [blankChars, List.dropWhile_cons_of_neg hblank, List.takeWhile_cons_of_pos hnewline,
        List.length_cons]
      omega
  · have hsymbol : qwen35IsPunctuation c = true := by simp [qwen35IsPunctuation, hspace, hword, hnumber]
    rw [punctuationChars, List.takeWhile_cons_of_pos hsymbol, List.length_cons]
    omega

theorem cuts_pieceChars : Cuts fun s => some (pieceChars s) := by
  intro s hne
  obtain ⟨c, s, rfl⟩ := List.exists_cons_of_ne_nil hne
  refine ⟨pieceChars (c :: s) - 1, ?_, ?_⟩
  · rw [Nat.sub_add_cancel pieceChars_pos]
  · rw [Nat.sub_add_cancel pieceChars_pos]
    exact pieceChars_le

theorem piecesOf_text (hs : ∀ c ∈ s, IsScalar c) :
    piecesOf qwen35PieceLength qwen35PieceLength_pos (text s) =
      (cut (fun s => some (pieceChars s)) s).map text := by
  induction hn : s.length using Nat.strong_induction_on generalizing s with
  | _ k ih =>
    by_cases hne : s = []
    · subst hne
      rw [piecesOf, cut]
      rfl
    · obtain ⟨n, hpiece, hle⟩ := cuts_pieceChars s hne
      have hlt : (s.drop (n + 1)).length < k := by
        have := List.length_pos_iff.mpr hne
        rw [List.length_drop]
        omega
      have hrest : ∀ c ∈ s.drop (n + 1), IsScalar c := fun c hc => hs c (List.mem_of_mem_drop hc)
      rw [piecesOf, dif_neg (mt text_eq_nil_iff.mp hne), qwen35PieceLength_text hs hne,
        cut_of_some hne hpiece, Option.some.inj hpiece, take_text, drop_text, ih _ hlt hrest rfl,
        List.map_cons]

theorem text_inj (hs : ∀ c ∈ s, IsScalar c) (ht : ∀ c ∈ t, IsScalar c) (h : text s = text t) : s = t := by
  induction s generalizing t with
  | nil => exact (text_eq_nil_iff.mp h.symm).symm
  | cons c s ih =>
    cases t with
    | nil => exact text_eq_nil_iff.mp h
    | cons d t =>
      obtain ⟨hc, hs⟩ := List.forall_mem_cons.mp hs
      obtain ⟨hd, ht⟩ := List.forall_mem_cons.mp ht
      rw [text_cons, text_cons] at h
      obtain ⟨hcd, hrest⟩ := (sequence_utf8 hc).append_inj (sequence_utf8 hd) h
      have hvalue := congrArg Utf8.value hcd
      rw [value_utf8 (scalar_lt hc), value_utf8 (scalar_lt hd)] at hvalue
      rw [hvalue, ih hs ht hrest]

theorem map_text_inj {u v : List (List ℕ)} (hu : ∀ c ∈ u.flatten, IsScalar c)
    (hv : ∀ c ∈ v.flatten, IsScalar c) (h : u.map text = v.map text) : u = v := by
  induction u generalizing v with
  | nil => exact (List.map_eq_nil_iff.mp h.symm).symm
  | cons s u ih =>
    cases v with
    | nil => exact List.map_eq_nil_iff.mp h
    | cons t v =>
      rw [List.flatten_cons, List.forall_mem_append] at hu hv
      obtain ⟨hst, huv⟩ := List.cons.inj h
      rw [text_inj hu.1 hv.1 hst, ih hu.2 hv.2 huv]

/-- The scanner cuts a text like the expression just when it agrees with it on every piece of the
expression. -/
theorem pretokenizer_exact_iff (self : Vocabulary) (hself : self.qwen35Pretokenizer = true) (s : List ℕ)
    (hs : ∀ c ∈ s, IsScalar c) :
    plainPieces self (text s) = (cut (first splitter) s).map text ↔
      ∀ t ∈ starts (first splitter) s, Regular t := by
  rw [plainPieces, if_pos hself, piecesOf_text hs]
  have hcut (f : List ℕ → Option ℕ) : ∀ c ∈ (cut f s).flatten, IsScalar c := by
    rw [flatten_cut]
    exact hs
  have hinj : (cut (fun s => some (pieceChars s)) s).map text = (cut (first splitter) s).map text ↔
      cut (first splitter) s = cut (fun s => some (pieceChars s)) s :=
    ⟨fun h => (map_text_inj (hcut _) (hcut _) h).symm, fun h => by rw [h]⟩
  rw [hinj, cut_eq_iff cuts_splitter cuts_pieceChars]
  refine forall₂_congr fun t ht => ?_
  obtain ⟨c, t, rfl⟩ := List.exists_cons_of_ne_nil (ne_nil_of_mem_starts ht)
  exact first_splitter_iff

/-- A word with a contraction behind it. -/
theorem pretokenizer_exact_iff_contraction :
    plainPieces ⟨[], [], 0, false, true⟩ (text [105, 116, 39, 115]) =
        (cut (first splitter) [105, 116, 39, 115]).map text ↔
      ∀ t ∈ starts (first splitter) [105, 116, 39, 115], Regular t :=
  pretokenizer_exact_iff ⟨[], [], 0, false, true⟩ rfl [105, 116, 39, 115] (by decide)

/-- Of two blanks in front of a word the expression leaves the second one to the word, and the scanner
takes both. -/
theorem two_blanks_not_splitter : ¬ ∀ (self : Vocabulary) (s : List ℕ), self.qwen35Pretokenizer = true →
    (∀ c ∈ s, IsScalar c) → plainPieces self (text s) = (cut (first splitter) s).map text := by
  intro h
  have hself := h ⟨[], [], 0, false, true⟩ [32, 32, 120] rfl (by decide)
  have hcode : (fun s => some (pieceChars s)) [32, 32, 120] = some (1 + 1) := rfl
  have hexpression : first splitter [32, 32, 120] = some (0 + 1) := rfl
  rw [plainPieces, if_pos rfl, piecesOf_text (by decide), cut_of_some (List.cons_ne_nil _ _) hcode,
    cut_of_some (List.cons_ne_nil _ _) hexpression, List.map_cons, List.map_cons] at hself
  exact absurd (List.cons.inj hself).1 (by decide)

end

end Tokenizer

end FortAI
