import FortAI.Chat.Reading
import FortAI.Chat.Writer
import FortAI.Machine.Utf8

/-!
# Strings of JSON, there and back

`json_string` reads what `json_escape` writes.  Of the literals that others write, it reads those
whose surrogates come in pairs as the characters they stand for; an unpaired surrogate it takes for a
character and encodes, which is no UTF-8.

* `Denotes` : the characters a literal stands for.
* `denotes_of_paired` : a literal of valid UTF-8 without unpaired surrogates stands for characters.
* `codec_iff` : `json_string` answers with these characters, or not at all, exactly for such literals.
-/

namespace FortAI

namespace Chat

open CString Utf8

/-- The literal stands for these scalar values: the characters that are written as such, the ones that
the escapes stand for, and one for a pair of surrogates. -/
inductive Denotes : Text → List ℕ → Prop
  | nil : Denotes [] []
  | plain {run rest : Text} {n : ℕ} {ns : List ℕ} (scalar : IsScalar n)
      (plain : ∀ p ∈ run, ∃ b h, p = .plain b h) (raw : Text.raw run = utf8 n)
      (behind : Denotes rest ns) : Denotes (run ++ rest) (n :: ns)
  | escape {letter meaning : Byte} {h : (letter, meaning) ∈ escapes} {rest : Text} {ns : List ℕ}
      (behind : Denotes rest ns) : Denotes (.escape letter meaning h :: rest) (meaning.toNat :: ns)
  | unicode {a b c d : Hex} {rest : Text} {ns : List ℕ} (notHigh : isHigh (codeUnit a b c d) = false)
      (notLow : isLow (codeUnit a b c d) = false) (behind : Denotes rest ns) :
      Denotes (.unicode a b c d :: rest) (codeUnit a b c d :: ns)
  | pair {a b c d e f g h : Hex} {rest : Text} {ns : List ℕ} (high : isHigh (codeUnit a b c d) = true)
      (low : isLow (codeUnit e f g h) = true) (behind : Denotes rest ns) :
      Denotes (.unicode a b c d :: .unicode e f g h :: rest)
        (pair (codeUnit a b c d) (codeUnit e f g h) :: ns)

/-- Surrogates come in pairs; `owed` when a high one has just been read. -/
def pairedFrom (owed : Bool) : Text → Prop
  | [] => owed = false
  | .unicode a b c d :: rest =>
    if owed then isLow (codeUnit a b c d) = true ∧ pairedFrom false rest
    else isLow (codeUnit a b c d) = false ∧ pairedFrom (isHigh (codeUnit a b c d)) rest
  | .plain _ _ :: rest => owed = false ∧ pairedFrom false rest
  | .escape _ _ _ :: rest => owed = false ∧ pairedFrom false rest

instance decidablePairedFrom : (owed : Bool) → (text : Text) → Decidable (pairedFrom owed text)
  | owed, [] => inferInstanceAs (Decidable (owed = false))
  | true, .unicode a b c d :: rest =>
    have := decidablePairedFrom false rest
    inferInstanceAs (Decidable (isLow (codeUnit a b c d) = true ∧ pairedFrom false rest))
  | false, .unicode a b c d :: rest =>
    have := decidablePairedFrom (isHigh (codeUnit a b c d)) rest
    inferInstanceAs (Decidable (isLow (codeUnit a b c d) = false ∧
      pairedFrom (isHigh (codeUnit a b c d)) rest))
  | owed, .plain _ _ :: rest =>
    have := decidablePairedFrom false rest
    inferInstanceAs (Decidable (owed = false ∧ pairedFrom false rest))
  | owed, .escape _ _ _ :: rest =>
    have := decidablePairedFrom false rest
    inferInstanceAs (Decidable (owed = false ∧ pairedFrom false rest))

/-- Every high surrogate is followed by a low one, and every low one follows a high one. -/
def Paired (text : Text) : Prop := pairedFrom false text

instance (text : Text) : Decidable (Paired text) := inferInstanceAs (Decidable (pairedFrom false text))

/-- At the opening quote of the literal, `json_string` fails, or it reads up to the closing quote and
gives the UTF-8 encoding of what the literal stands for. -/
def DecodesRight (text : Text) : Prop :=
  ∀ s, jsonString (text.render ++ s) = none ∨
    ∃ ns, Denotes text ns ∧ jsonString (text.render ++ s) = some (ns.flatMap utf8, s)

/-! ### What a literal stands for -/

theorem isScalar_codeUnit {a b c d : Hex} (hhigh : isHigh (codeUnit a b c d) = false)
    (hlow : isLow (codeUnit a b c d) = false) : IsScalar (codeUnit a b c d) := by
  have hlt := codeUnit_lt a b c d
  rw [isHigh, Bool.and_eq_false_imp, decide_eq_true_eq, decide_eq_false_iff_not] at hhigh
  rw [isLow, Bool.and_eq_false_imp, decide_eq_true_eq, decide_eq_false_iff_not] at hlow
  exact ⟨by omega, by omega⟩

theorem isScalar_pair {high low : ℕ} (hhigh : isHigh high = true) (hlow : isLow low = true) :
    IsScalar (pair high low) := by
  simp only [isHigh, isLow, Bool.and_eq_true, decide_eq_true_eq] at hhigh hlow
  unfold IsScalar pair
  omega

/-- The meaning of an escape is an ASCII character, as its letter is. -/
theorem escape_ascii {letter meaning : Byte} (h : (letter, meaning) ∈ escapes) :
    letter.toNat ≤ 127 ∧ meaning.toNat ≤ 127 := by
  have hall : (escapes.all fun e => e.1.toNat ≤ 127 ∧ e.2.toNat ≤ 127) = true := by decide
  simpa using List.all_eq_true.mp hall _ h

theorem decode_plain {run : Text} (h : ∀ p ∈ run, ∃ b h, p = Piece.plain b h) (rest : Text) :
    Text.decode (run ++ rest) = Text.raw run ++ Text.decode rest := by
  induction run with
  | nil => rfl
  | cons p run ih =>
    obtain ⟨b, hb, rfl⟩ := h p List.mem_cons_self
    rw [List.cons_append, Text.decode, ih fun q hq => h q (List.mem_cons_of_mem _ hq)]
    rfl

/-- A code unit that does not start a pair. -/
theorem decode_unicode {a b c d : Hex} (h : isHigh (codeUnit a b c d) = false) (rest : Text) :
    Text.decode (.unicode a b c d :: rest) = utf8 (codeUnit a b c d) ++ Text.decode rest := by
  cases rest with
  | nil => rfl
  | cons p rest =>
    cases p with
    | plain | escape => rfl
    | unicode e f g i =>
      rw [Text.decode, h, Bool.false_and]
      rfl

/-- The string a literal is read as is the encoding of what it stands for. -/
theorem Denotes.decode {text : Text} {ns : List ℕ} (h : Denotes text ns) :
    (∀ n ∈ ns, IsScalar n) ∧ text.decode = ns.flatMap utf8 := by
  induction h with
  | nil => exact ⟨fun n hn => absurd hn List.not_mem_nil, rfl⟩
  | plain hscalar hplain hraw _ ih =>
    refine ⟨List.forall_mem_cons.mpr ⟨hscalar, ih.1⟩, ?_⟩
    rw [decode_plain hplain, hraw, ih.2, List.flatMap_cons]
  | @escape letter meaning hmem rest ns _ ih =>
    have hascii := (escape_ascii hmem).2
    refine ⟨List.forall_mem_cons.mpr ⟨⟨by omega, by omega⟩, ih.1⟩, ?_⟩
    rw [Text.decode, ih.2, List.flatMap_cons, utf8_one hascii, UInt8.ofNat_toNat]
    rfl
  | unicode hhigh hlow _ ih =>
    refine ⟨List.forall_mem_cons.mpr ⟨isScalar_codeUnit hhigh hlow, ih.1⟩, ?_⟩
    rw [decode_unicode hhigh, ih.2, List.flatMap_cons]
  | pair hhigh hlow _ ih =>
    refine ⟨List.forall_mem_cons.mpr ⟨isScalar_pair hhigh hlow, ih.1⟩, ?_⟩
    rw [Text.decode, hhigh, hlow, Bool.true_and, if_pos rfl, ih.2, List.flatMap_cons]

/-! ### Pairs of surrogates -/

theorem pairedFrom_plain {run : Text} (h : ∀ p ∈ run, ∃ b h, p = Piece.plain b h) (rest : Text) :
    pairedFrom false (run ++ rest) ↔ pairedFrom false rest := by
  induction run with
  | nil => rfl
  | cons p run ih =>
    obtain ⟨b, hb, rfl⟩ := h p List.mem_cons_self
    rw [List.cons_append, pairedFrom, ih fun q hq => h q (List.mem_cons_of_mem _ hq)]
    exact and_iff_right rfl

theorem Denotes.paired {text : Text} {ns : List ℕ} (h : Denotes text ns) : Paired text := by
  induction h with
  | nil => rfl
  | plain hscalar hplain hraw _ ih => exact (pairedFrom_plain hplain _).mpr ih
  | escape _ ih => exact ⟨rfl, ih⟩
  | unicode hhigh hlow _ ih =>
    rw [Paired, pairedFrom, hhigh]
    exact ⟨hlow, ih⟩
  | @pair a b c d e f g i rest ns hhigh hlow _ ih =>
    have hnot : isLow (codeUnit a b c d) = false := by
      simp only [isHigh, Bool.and_eq_true, decide_eq_true_eq] at hhigh
      rw [isLow, Bool.and_eq_false_imp, decide_eq_true_eq, decide_eq_false_iff_not]
      omega
    rw [Paired, pairedFrom, hhigh]
    exact ⟨hnot, hlow, ih⟩

/-! ### Literals of valid UTF-8 -/

theorem raw_cons (p : Piece) (rest : Text) : Text.raw (p :: rest) = p.render ++ Text.raw rest := by
  rw [Text.raw, List.flatMap_cons]
  rfl

/-- Bytes that are no ASCII are written as they are. -/
theorem exists_run {q t : Bytes} :
    ∀ {text : Text}, (∀ b ∈ q, 128 ≤ b.toNat) → text.raw = q ++ t →
      ∃ run rest, text = run ++ rest ∧ (∀ p ∈ run, ∃ b h, p = Piece.plain b h) ∧
        Text.raw run = q ∧ Text.raw rest = t := by
  induction q with
  | nil =>
    intro text _ hraw
    exact ⟨[], text, rfl, fun p hp => absurd hp List.not_mem_nil, rfl, hraw⟩
  | cons b q ih =>
    intro text hq hraw
    have hb := hq b List.mem_cons_self
    cases text with
    | nil => exact absurd hraw.symm (List.cons_ne_nil _ _)
    | cons p text =>
      rw [raw_cons] at hraw
      cases p with
      | plain c hc =>
        rw [show (Piece.plain c hc).render = [c] from rfl, List.cons_append, List.cons_append,
          List.cons.injEq] at hraw
        obtain ⟨run, rest, rfl, hrun, hq', ht⟩ := ih (fun d hd => hq d (List.mem_cons_of_mem b hd)) hraw.2
        refine ⟨.plain c hc :: run, rest, rfl, List.forall_mem_cons.mpr ⟨⟨c, hc, rfl⟩, hrun⟩, ?_, ht⟩
        rw [raw_cons, hq', ← hraw.1]
        rfl
      | escape letter meaning h =>
        have hhead : 92 = b := List.head_eq_of_cons_eq hraw
        rw [← hhead] at hb
        exact absurd hb (by decide)
      | unicode a b' c d =>
        have hhead : 92 = b := List.head_eq_of_cons_eq hraw
        rw [← hhead] at hb
        exact absurd hb (by decide)

theorem hex_ascii (a : Hex) : a.byte.toNat ≤ 127 := by
  have h := a.hex
  have hle {k : ℕ} (hk : k < 256) : a.byte ≤ UInt8.ofNat k ↔ a.byte.toNat ≤ k := by
    rw [UInt8.le_iff_toNat_le, UInt8.toNat_ofNat_of_lt' hk]
  have h57 : a.byte ≤ (57 : Byte) ↔ a.byte.toNat ≤ 57 := hle (by decide)
  have h102 : a.byte ≤ (102 : Byte) ↔ a.byte.toNat ≤ 102 := hle (by decide)
  have h70 : a.byte ≤ (70 : Byte) ↔ a.byte.toNat ≤ 70 := hle (by decide)
  rw [hexValue] at h
  simp only [Bool.and_eq_true, decide_eq_true_eq, h57, h102, h70] at h
  split_ifs at h <;> omega

/-- What is left behind a `\u` escape. -/
theorem valid_unicode {a b c d : Hex} {rest : Text} (h : Valid (Text.raw (.unicode a b c d :: rest))) :
    Valid (Text.raw rest) := by
  rw [raw_cons] at h
  have h₂ := (h.tail (by decide)).tail (by decide)
  exact (((h₂.tail (hex_ascii a)).tail (hex_ascii b)).tail (hex_ascii c)).tail (hex_ascii d)

/-- Without unpaired surrogates, a literal of valid UTF-8 stands for characters. -/
theorem denotes_of_paired {text : Text} (hvalid : Valid text.raw) (hpaired : Paired text) :
    ∃ ns, Denotes text ns := by
  induction hlength : text.length using Nat.strong_induction_on generalizing text with
  | _ length ih =>
    subst hlength
    cases text with
    | nil => exact ⟨[], .nil⟩
    | cons p text =>
      cases p with
      | plain b hb =>
        obtain ⟨q, t, hq, ht, heq⟩ := hvalid.head (by rw [raw_cons]; exact List.cons_ne_nil _ _)
        obtain ⟨c, q, rfl⟩ := List.exists_cons_of_ne_nil hq.ne_nil
        rw [raw_cons, show (Piece.plain b hb).render = [b] from rfl, List.cons_append,
          List.cons_append, List.cons.injEq] at heq
        obtain ⟨rfl, heq⟩ := heq
        obtain ⟨run, rest, rfl, hrun, hraw, hrest⟩ := exists_run hq.tail_ge heq
        have hplain : ∀ p ∈ Piece.plain b hb :: run, ∃ b h, p = Piece.plain b h :=
          List.forall_mem_cons.mpr ⟨⟨b, hb, rfl⟩, hrun⟩
        obtain ⟨ns, hns⟩ := ih rest.length
          (by simp only [List.length_cons, List.length_append]; omega) (hrest ▸ ht)
          ((pairedFrom_plain hplain rest).mp hpaired) rfl
        have hvalue := hq.utf8_value
        have hwhole := Denotes.plain hvalue.1 hplain (by rw [raw_cons, hraw]; exact hvalue.2.symm) hns
        exact ⟨_, hwhole⟩
      | escape letter meaning h =>
        rw [raw_cons] at hvalid
        obtain ⟨ns, hns⟩ := ih text.length (by simp)
          ((hvalid.tail (by decide)).tail (escape_ascii h).1) hpaired.2 rfl
        exact ⟨_, .escape hns⟩
      | unicode a b c d =>
        have hrest := valid_unicode hvalid
        rw [Paired, pairedFrom] at hpaired
        obtain ⟨hlow, hpaired⟩ := hpaired
        cases hhigh : isHigh (codeUnit a b c d) with
        | false =>
          rw [hhigh] at hpaired
          obtain ⟨ns, hns⟩ := ih text.length (by simp) hrest hpaired rfl
          exact ⟨_, .unicode hhigh hlow hns⟩
        | true =>
          rw [hhigh] at hpaired
          cases text with
          | nil => exact absurd hpaired Bool.noConfusion
          | cons p text =>
            cases p with
            | plain | escape => exact absurd hpaired.1 Bool.noConfusion
            | unicode e f g i =>
              obtain ⟨ns, hns⟩ := ih text.length (by simp only [List.length_cons]; omega)
                (valid_unicode hrest) hpaired.2 rfl
              exact ⟨_, .pair hhigh hpaired.1 hns⟩

theorem decodesRight_iff {text : Text} (hvalid : Valid text.raw) :
    DecodesRight text ↔ Paired text := by
  constructor
  · intro h
    rcases h [] with hnone | ⟨ns, hns, -⟩
    · rw [jsonString_render] at hnone
      cases hnone
    · exact hns.paired
  · intro hpaired s
    obtain ⟨ns, hns⟩ := denotes_of_paired hvalid hpaired
    refine Or.inr ⟨ns, hns, ?_⟩
    rw [jsonString_render, hns.decode.2]

/-- `json_string` gives back what `json_escape` wrote; and it rejects a literal of valid UTF-8 or gives
the UTF-8 encoding of what the literal stands for, exactly when the literal has no unpaired
surrogate. -/
theorem codec_iff (s t : Bytes) (text : Text) (hvalid : Valid text.raw) :
    (jsonString (jsonEscape s ++ t) = some (s, t) ∧ DecodesRight text) ↔ Paired text := by
  have hback : jsonString (jsonEscape s ++ t) = some (s, t) := by
    rw [jsonEscape_eq, jsonString_render, decode_escapeText]
  rw [decodesRight_iff hvalid]
  exact and_iff_right hback

theorem codec_emoji :
    (jsonString (jsonEscape [104, 34, 7] ++ [44]) = some ([104, 34, 7], [44]) ∧
      DecodesRight [.unicode ⟨100, 13, rfl⟩ ⟨56, 8, rfl⟩ ⟨51, 3, rfl⟩ ⟨100, 13, rfl⟩,
        .unicode ⟨100, 13, rfl⟩ ⟨101, 14, rfl⟩ ⟨48, 0, rfl⟩ ⟨48, 0, rfl⟩]) :=
  (codec_iff [104, 34, 7] [44]
    [.unicode ⟨100, 13, rfl⟩ ⟨56, 8, rfl⟩ ⟨51, 3, rfl⟩ ⟨100, 13, rfl⟩,
      .unicode ⟨100, 13, rfl⟩ ⟨101, 14, rfl⟩ ⟨48, 0, rfl⟩ ⟨48, 0, rfl⟩]
    ⟨(ascii "\\ud83d\\ude00").map UInt8.toNat, by decide, by decide⟩).mpr (by decide)

/-- `"\ud83d"` -/
def loneSurrogate : Text := [.unicode ⟨100, 13, rfl⟩ ⟨56, 8, rfl⟩ ⟨51, 3, rfl⟩ ⟨100, 13, rfl⟩]

theorem not_decodesRight_loneSurrogate : Valid loneSurrogate.raw ∧ ¬ DecodesRight loneSurrogate := by
  have hvalid : Valid loneSurrogate.raw :=
    ⟨(ascii "\\ud83d").map UInt8.toNat, by decide, by decide⟩
  refine ⟨hvalid, fun h => ?_⟩
  have hpaired := (decodesRight_iff hvalid).mp h
  revert hpaired
  decide

end Chat

end FortAI
