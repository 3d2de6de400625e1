import FortAI.Machine.CString
import FortAI.Machine.Float

/-!
# Numerals

`strtof` reads the longest numeral that a text begins with.  It is put together from steps that read part
of a text and leave the rest.

* `Scan.Local` : a step that never reads a byte reads as if the text ended in front of it.
* `strtof_append` : so it is for `strtof` and a comma.
-/

namespace FortAI

open CString

/-- A step that takes something off the beginning of a text, or fails. -/
abbrev Scan := StateT Bytes Option

namespace Scan

variable {α β : Type}

/-- One byte. -/
def byte (p : Byte → Bool) : Scan Byte := fun s =>
  match s with
  | b :: rest => if p b then some (b, rest) else none
  | [] => none

/-- As many bytes as there are. -/
def many (p : Byte → Bool) : Scan Bytes := fun s => some (s.takeWhile p, s.dropWhile p)

/-- A word in capital or small letters. -/
def word (w : Bytes) : Scan Unit := fun s => if startsNoCase w s then some ((), s.drop w.length) else none

/-- It reads up to a byte `c` at most, and whatever is behind it makes no difference. -/
structure Local (c : Byte) (P : Scan α) : Prop where
  suffix : ∀ s x, P s = some x → x.2 <:+ s
  append : ∀ s t, P (s ++ c :: t) = (P s).map fun x => (x.1, x.2 ++ c :: t)

namespace Local

variable {c : Byte} {P Q : Scan α} {f : α → Scan β} {p : Byte → Bool}

theorem pure (a : α) : Local c (Pure.pure a : Scan α) where
  suffix s x h := by
    obtain rfl := Option.some.inj h
    exact List.suffix_rfl
  append _ _ := rfl

theorem fail : Local c (failure : Scan α) where
  suffix _ _ h := by cases h
  append _ _ := rfl

theorem bind (hP : Local c P) (hf : ∀ a, Local c (f a)) : Local c (P >>= f) where
  suffix s x h := by
    obtain ⟨y, hy, hx⟩ := Option.bind_eq_some_iff.mp h
    exact ((hf y.1).suffix y.2 x hx).trans (hP.suffix s y hy)
  append s t := by
    show (P (s ++ c :: t)).bind (fun y => f y.1 y.2) = ((P s).bind fun y => f y.1 y.2).map _
    rw [hP.append]
    cases P s with
    | none => rfl
    | some y => exact (hf y.1).append y.2 t

theorem orElse (hP : Local c P) (hQ : Local c Q) : Local c (P <|> Q) where
  suffix s x h := by
    have h' : ((P s).orElse fun _ => Q s) = some x := h
    cases hs : P s with
    | none =>
      rw [hs] at h'
      exact hQ.suffix s x h'
    | some y =>
      rw [hs] at h'
      exact hP.suffix s x (hs.trans h')
  append s t := by
    show ((P (s ++ c :: t)).orElse fun _ => Q (s ++ c :: t)) = ((P s).orElse fun _ => Q s).map _
    rw [hP.append, hQ.append]
    cases P s with
    | none => rfl
    | some y => rfl

theorem byte (hc : p c = false) : Local c (byte p) where
  suffix s x h := by
    cases s with
    | nil => cases h
    | cons b rest =>
      have h' : (if p b then some (b, rest) else none) = some x := h
      split_ifs at h'
      obtain rfl := Option.some.inj h'
      exact List.suffix_cons b rest
  append s t := by
    cases s with
    | nil =>
      show (if p c then some (c, t) else none) = none
      rw [if_neg (by rw [hc]; exact Bool.false_ne_true)]
    | cons b rest =>
      show (if p b then some (b, rest ++ c :: t) else none) = (if p b then some (b, rest) else none).map _
      split_ifs <;> rfl

/-- Bytes up to one that is not among them. -/
theorem takeWhile_append_cons (hc : p c = false) (s t : Bytes) :
    (s ++ c :: t).takeWhile p = s.takeWhile p ∧ (s ++ c :: t).dropWhile p = s.dropWhile p ++ c :: t := by
  induction s with
  | nil => simp [hc]
  | cons b s ih =>
    rw [List.cons_append, List.takeWhile_cons, List.takeWhile_cons, List.dropWhile_cons, List.dropWhile_cons]
    split_ifs
    · exact ⟨congrArg (b :: ·) ih.1, ih.2⟩
    · exact ⟨rfl, rfl⟩

theorem many (hc : p c = false) : Local c (many p) where
  suffix s x h := by
    obtain rfl := Option.some.inj h
    exact List.dropWhile_suffix p
  append s t := by
    obtain ⟨htake, hdrop⟩ := takeWhile_append_cons hc s t
    show some ((s ++ c :: t).takeWhile p, (s ++ c :: t).dropWhile p) = some (_, _)
    rw [htake, hdrop]

/-- No letter of the word stands for the byte. -/
theorem word {w : Bytes} (hc : lower c ∉ w.map lower) : Local c (word w) where
  suffix s x h := by
    have h' : (if startsNoCase w s then some ((), s.drop w.length) else none) = some x := h
    split_ifs at h'
    obtain rfl := Option.some.inj h'
    exact List.drop_suffix _ s
  append s t := by
    have hstarts : startsNoCase w (s ++ c :: t) = startsNoCase w s := by
      rw [Bool.eq_iff_iff, startsNoCase, startsNoCase, decide_eq_true_iff, decide_eq_true_iff]
      rcases Nat.lt_or_ge s.length w.length with hlt | hle
      · -- the word would go on with the byte, or end behind the text
        refine iff_of_false (fun h => hc ?_) fun h => ?_
        · rw [← h]
          refine List.mem_map_of_mem ?_
          rw [List.take_append, List.take_of_length_le hlt.le]
          refine List.mem_append_right s ?_
          obtain ⟨n, hn⟩ := Nat.exists_eq_succ_of_ne_zero (Nat.sub_ne_zero_of_lt hlt)
          rw [hn]
          exact List.mem_cons_self
        · have := congrArg List.length h
          rw [List.length_map, List.length_map, List.length_take] at this
          omega
      · rw [List.take_append_of_le_length hle]
    have hdrop (h : startsNoCase w s = true) : (s ++ c :: t).drop w.length = s.drop w.length ++ c :: t := by
      have := congrArg List.length (of_decide_eq_true h)
      rw [List.length_map, List.length_map, List.length_take] at this
      exact List.drop_append_of_le_length (by omega)
    show (if startsNoCase w (s ++ c :: t) then some ((), (s ++ c :: t).drop w.length) else none) =
      (if startsNoCase w s then some ((), s.drop w.length) else none).map _
    rw [hstarts]
    split_ifs with h
    · rw [hdrop h]
      rfl
    · rfl

end Local

/-! ### Parts of a numeral -/

/-- Whether there is a minus sign. -/
def sign : Scan Bool := (do
  let b ← byte fun b => b == 43 || b == 45
  Pure.pure (b == 45)) <|> Pure.pure false

/-- The digits in front of the point and behind it, of which there is one at least. -/
def significand (digit : Byte → Bool) : Scan (Bytes × Bytes) := do
  let whole ← many digit
  let fraction ← (do
    let _ ← byte (· == 46)
    many digit) <|> Pure.pure []
  if whole = [] ∧ fraction = [] then failure else Pure.pure (whole, fraction)

/-- The exponent behind its letter; the letter alone is none. -/
def exponent (letter : Byte) : Scan ℤ := (do
  let _ ← byte fun b => lower b == letter
  let minus ← sign
  let digits ← many isDigit
  if digits = [] then failure
  else Pure.pure (if minus then -(value digits : ℤ) else value digits)) <|> Pure.pure 0

def isHexDigit (b : Byte) : Bool := isDigit b || (97 ≤ lower b && lower b ≤ 102)

/-- The number with these digits. -/
def number (base : ℕ) (digits : Bytes) : ℕ :=
  digits.foldl (fun n b => base * n + if isDigit b then b.toNat - 48 else (lower b).toNat - 87) 0

def decimal : Scan ℚ := do
  let (whole, fraction) ← significand isDigit
  let e ← exponent 101
  Pure.pure (number 10 (whole ++ fraction) * 10 ^ (e - fraction.length))

def hexadecimal : Scan ℚ := do
  word (ascii "0x")
  let (whole, fraction) ← significand isHexDigit
  let e ← exponent 112
  Pure.pure (number 16 (whole ++ fraction) * 2 ^ (e - 4 * fraction.length))

/-- What may stand between the brackets behind `nan`. -/
def isWordByte (b : Byte) : Bool := isDigit b || (97 ≤ lower b && lower b ≤ 122) || b == 95

def nan : Scan Unit := do
  word (ascii "nan")
  (do
    let _ ← byte (· == 40)
    let _ ← many isWordByte
    let _ ← byte (· == 41)
    Pure.pure ()) <|> Pure.pure ()

/-- A numeral without its sign, as the pattern of the nearest number. -/
def magnitude (f : Format) : Scan ℕ :=
  (do word (ascii "infinity"); Pure.pure f.infinity) <|> (do word (ascii "inf"); Pure.pure f.infinity) <|>
    (do nan; Pure.pure (f.infinity + 1)) <|> (do
      let x ← hexadecimal <|> decimal
      Pure.pure (Nat.min (f.nearest x) f.infinity))

/-- Blanks and a numeral. -/
def floating (f : Format) : Scan ℕ := do
  let _ ← many isSpace
  let minus ← sign
  let m ← magnitude f
  Pure.pure (if minus then f.signBit + m else m)

theorem local_sign : Local comma sign := ((Local.byte rfl).bind fun _ => .pure _).orElse (.pure _)

theorem local_significand {digit : Byte → Bool} (h : digit comma = false) :
    Local comma (significand digit) := by
  refine (Local.many h).bind fun whole => ?_
  refine (((Local.byte rfl).bind fun _ => .many h).orElse (.pure _)).bind fun fraction => ?_
  split_ifs
  · exact .fail
  · exact .pure _

theorem local_exponent {letter : Byte} (h : (lower comma == letter) = false) :
    Local comma (exponent letter) := by
  have hbyte : Local comma (byte fun b => lower b == letter) := .byte h
  refine Local.orElse (hbyte.bind fun _ => local_sign.bind fun minus => ?_) (.pure _)
  refine (Local.many rfl).bind fun digits => ?_
  split_ifs
  · exact .fail
  · exact .pure _
  · exact .pure _

theorem local_decimal : Local comma decimal :=
  (local_significand rfl).bind fun _ => (local_exponent rfl).bind fun _ => .pure _

theorem local_hexadecimal : Local comma hexadecimal :=
  (Local.word (by decide)).bind fun _ => (local_significand rfl).bind fun _ =>
    (local_exponent rfl).bind fun _ => .pure _

theorem local_nan : Local comma nan := by
  refine (Local.word (by decide)).bind fun _ => Local.orElse ?_ (.pure _)
  exact (Local.byte rfl).bind fun _ => (Local.many rfl).bind fun _ => (Local.byte rfl).bind fun _ => .pure _

theorem local_floating (f : Format) : Local comma (floating f) := by
  refine (Local.many rfl).bind fun _ => local_sign.bind fun _ => Local.bind ?_ fun _ => .pure _
  refine Local.orElse ((Local.word (by decide)).bind fun _ => .pure _) ?_
  refine Local.orElse ((Local.word (by decide)).bind fun _ => .pure _) ?_
  refine Local.orElse (local_nan.bind fun _ => .pure _) ?_
  exact (local_hexadecimal.orElse local_decimal).bind fun _ => .pure _

end Scan

/-- `strtof`: the pattern of the number at the beginning of a text, and what is behind its numeral. -/
def strtof (s : Bytes) : ℕ × Bytes := (Scan.floating .single s).getD (0, s)

theorem strtof_suffix (s : Bytes) : (strtof s).2 <:+ s := by
  rw [strtof]
  cases h : Scan.floating .single s with
  | none => exact List.suffix_rfl
  | some x => exact (Scan.local_floating _).suffix s x h

/-- No numeral goes on behind a comma. -/
theorem strtof_append (s t : Bytes) :
    strtof (s ++ comma :: t) = ((strtof s).1, (strtof s).2 ++ comma :: t) := by
  rw [strtof, strtof, (Scan.local_floating _).append]
  cases Scan.floating .single s with
  | none => rfl
  | some x => rfl

end FortAI
