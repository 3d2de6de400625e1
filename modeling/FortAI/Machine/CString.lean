import Mathlib.Data.List.DropRight
import Mathlib.Data.List.Infix
import Mathlib.Data.List.TakeWhile

/-!
# Byte buffers and C strings

The functions of `<string.h>`, `<strings.h>` and `<stdlib.h>` that byte-level protocol code is
written with, on lists of bytes.  A buffer is the list of its bytes; the terminating NUL that
follows it is not part of the list, so `text s` (the bytes before the first NUL) is the C string at
the start of the buffer `s`.

* `find_append` : a match stays the first one when bytes are added behind the buffer.
* `find_skip` : bytes in which the first byte of the needle does not occur are passed over, so a
  needle is found where it stands when its first byte occurs nowhere before it (`find_cons_append`).
* `value_decimal` : reading back what `%zu` prints.
-/

namespace FortAI

/-- A `char` of the source. -/
abbrev Byte := UInt8

abbrev Bytes := List Byte

namespace CString

/-- A string literal. -/
def ascii (s : String) : Bytes := s.toList.map fun c => c.toNat.toUInt8

def space : Byte := 32
def tab : Byte := 9
def comma : Byte := 44
def colon : Byte := 58

/-- `"\r\n"` -/
def crlf : Bytes := [13, 10]

/-- The C string at the start of a buffer. -/
def text (s : Bytes) : Bytes := s.takeWhile (· ≠ 0)

/-- The offset of the first occurrence of `needle`, as `strstr` finds it in a text without NUL. -/
def find (needle : Bytes) : Bytes → Option ℕ
  | [] => if needle = [] then some 0 else none
  | b :: s => if needle <+: b :: s then some 0 else (find needle s).map (· + 1)

/-- `tolower` in the C locale. -/
def lower (b : Byte) : Byte := if 65 ≤ b ∧ b ≤ 90 then b + 32 else b

/-- `strcasecmp(s, t) == 0` -/
def equalNoCase (s t : Bytes) : Bool := s.map lower = t.map lower

/-- `strncasecmp(s, name, strlen(name)) == 0` -/
def startsNoCase (name s : Bytes) : Bool := (s.take name.length).map lower = name.map lower

def isBlank (b : Byte) : Bool := b = space || b = tab

/-- `isspace` in the C locale. -/
def isSpace (b : Byte) : Bool := b = space || (9 ≤ b && b ≤ 13)

def isDigit (b : Byte) : Bool := 48 ≤ b && b ≤ 57

/-- The bytes without the ones at their end that satisfy `p`. -/
def trimEnd (p : Byte → Bool) (s : Bytes) : Bytes := s.rdropWhile p

/-- What `%zu` prints. -/
def decimal (n : ℕ) : Bytes := (Nat.toDigits 10 n).map fun c => c.toNat.toUInt8

/-- What `%d` prints. -/
def signed : ℤ → Bytes
  | .ofNat n => decimal n
  | .negSucc n => ascii "-" ++ decimal (n + 1)

/-- The number a string of decimal digits stands for. -/
def value (digits : Bytes) : ℕ := Nat.ofDigitChars 10 (digits.map fun b => Char.ofNat b.toNat) 0

/-- The number the digits at the start of a text stand for. -/
def unsigned (s : Bytes) : ℕ := value (s.takeWhile isDigit)

/-- `ULLONG_MAX` -/
def ullongMax : ℕ := 18446744073709551615

/-- `strtoull(s, NULL, 10)` for a text without NUL: blanks are skipped, one sign is read, a number
that does not fit reads as `ULLONG_MAX`. -/
def strtoull (s : Bytes) : ℕ :=
  let saturated (n : ℕ) : ℕ := if n ≤ ullongMax then n else ullongMax
  let negated (n : ℕ) : ℕ := if n ≤ ullongMax then (ullongMax + 1 - n) % (ullongMax + 1) else ullongMax
  let number := s.dropWhile isSpace
  if number.head? = some 45 then negated (unsigned number.tail)
  else if number.head? = some 43 then saturated (unsigned number.tail)
  else saturated (unsigned number)

/-! ### Searching -/

theorem find_eq_some_zero {needle s : Bytes} (h : needle <+: s) : find needle s = some 0 := by
  cases s with
  | nil => simp [find, List.prefix_nil.mp h]
  | cons b s => simp [find, h]

theorem find_cons_of_not_starts {needle s : Bytes} {b : Byte} (h : ¬ needle <+: b :: s) :
    find needle (b :: s) = (find needle s).map (· + 1) := by
  simp [find, h]

/-- Where a needle is found, it stands. -/
theorem prefix_of_find {needle : Bytes} :
    ∀ {s : Bytes} {i : ℕ}, find needle s = some i → needle <+: s.drop i := by
  intro s
  induction s with
  | nil =>
    intro i h
    simp only [find] at h
    split_ifs at h with hn
    rw [hn]; exact List.nil_prefix
  | cons b s ih =>
    intro i h
    by_cases hp : needle <+: b :: s
    · rw [find_eq_some_zero hp, Option.some.injEq] at h
      rw [← h]; exact hp
    · rw [find_cons_of_not_starts hp, Option.map_eq_some_iff] at h
      obtain ⟨j, hj, rfl⟩ := h
      exact ih hj

theorem find_add_length_le {needle s : Bytes} {i : ℕ} (hne : needle ≠ [])
    (h : find needle s = some i) : i + needle.length ≤ s.length := by
  have hle := (prefix_of_find h).length_le
  have hpos := List.length_pos_iff.mpr hne
  rw [List.length_drop] at hle
  omega

/-- Where a needle stands, it or an earlier match is found. -/
theorem find_le {needle : Bytes} (hne : needle ≠ []) :
    ∀ {s : Bytes} {j : ℕ}, needle <+: s.drop j → ∃ i ≤ j, find needle s = some i := by
  intro s
  induction s with
  | nil =>
    intro j h
    rw [List.drop_nil, List.prefix_nil] at h
    exact absurd h hne
  | cons b s ih =>
    intro j h
    by_cases hp : needle <+: b :: s
    · exact ⟨0, Nat.zero_le j, find_eq_some_zero hp⟩
    · cases j with
      | zero => exact absurd h hp
      | succ j =>
        obtain ⟨i, hij, hi⟩ := ih h
        refine ⟨i + 1, Nat.succ_le_succ hij, ?_⟩
        rw [find_cons_of_not_starts hp, hi]
        rfl

/-- A match stays the first one when bytes are added behind the buffer. -/
theorem find_append {needle : Bytes} (hne : needle ≠ []) (t : Bytes) :
    ∀ {s : Bytes} {i : ℕ}, find needle s = some i → find needle (s ++ t) = some i := by
  intro s
  induction s with
  | nil => intro i h; simp [find, hne] at h
  | cons b s ih =>
    intro i h
    by_cases hp : needle <+: b :: s
    · rw [find_eq_some_zero hp] at h
      rw [← h]
      exact find_eq_some_zero (hp.trans (List.prefix_append _ _))
    · rw [find_cons_of_not_starts hp, Option.map_eq_some_iff] at h
      obtain ⟨j, hj, rfl⟩ := h
      -- the needle fits in `b :: s`, so a match at the start of `b :: s ++ t` would be one there
      have hlen := find_add_length_le hne hj
      have hp' : ¬ needle <+: b :: (s ++ t) := by
        intro h'
        refine hp (List.prefix_of_prefix_length_le h' (List.prefix_append (b :: s) t) ?_)
        simp only [List.length_cons]
        omega
      rw [List.cons_append, find_cons_of_not_starts hp', ih hj]
      rfl

/-- Bytes in which the first byte of the needle does not occur are passed over. -/
theorem find_skip {c : Byte} {q : Bytes} (t : Bytes) :
    ∀ {s : Bytes}, c ∉ s → find (c :: q) (s ++ t) = (find (c :: q) t).map (· + s.length) := by
  intro s
  induction s with
  | nil => intro _; simp
  | cons b s ih =>
    intro hc
    rw [List.mem_cons, not_or] at hc
    have hp : ¬ c :: q <+: b :: (s ++ t) := by
      intro h
      exact hc.1 (List.cons_prefix_cons.mp h).1
    rw [List.cons_append, find_cons_of_not_starts hp, ih hc.2, Option.map_map]
    rfl

/-- A needle whose first byte occurs nowhere before it is found where it stands. -/
theorem find_cons_append {c : Byte} {q s : Bytes} (t : Bytes) (hc : c ∉ s) (h : c :: q <+: t) :
    find (c :: q) (s ++ t) = some s.length := by
  rw [find_skip t hc, find_eq_some_zero h, Option.map_some, Nat.zero_add]

/-- The first line end in a text with a line end at `t.length` is that one, or ends before it. -/
theorem find_crlf_cases {t u : Bytes} {i : ℕ} (hi : find crlf (t ++ (crlf ++ u)) = some i) :
    i = t.length ∨ i + 2 ≤ t.length := by
  have hstands : crlf <+: (t ++ (crlf ++ u)).drop t.length := by
    rw [List.drop_left]
    exact List.prefix_append crlf u
  obtain ⟨j, hj, hfind⟩ := find_le (by decide) hstands
  rw [hi, Option.some.injEq] at hfind
  subst hfind
  -- a match one byte earlier would have the CR of the line end for its LF
  have hne : i + 1 ≠ t.length := by
    intro heq
    obtain ⟨v, hv⟩ := prefix_of_find hi
    have h10 : (t ++ (crlf ++ u))[i + 1]? = some 10 := by
      rw [← List.getElem?_drop, ← hv]
      rfl
    rw [heq, List.getElem?_append_right le_rfl, Nat.sub_self] at h10
    exact absurd h10 (by simp [crlf])
  omega

/-- Two texts whose first bytes differ in more than case are told apart. -/
theorem not_startsNoCase {name s : Bytes} (k : ℕ) (hk : k ≤ name.length)
    (h : (s.take k).map lower ≠ (name.take k).map lower) : startsNoCase name s = false := by
  rw [startsNoCase, decide_eq_false_iff_not]
  intro heq
  have := congrArg (List.take k) heq
  rw [← List.map_take, ← List.map_take, List.take_take, Nat.min_eq_left hk] at this
  exact h this

/-- A line without CR ends at the line end behind it. -/
theorem find_line_end {line : Bytes} (h : (13 : Byte) ∉ line) (t : Bytes) :
    find crlf (line ++ (crlf ++ t)) = some line.length :=
  find_cons_append _ h (List.prefix_append crlf t)

theorem find_eq_none {needle : Bytes} (hne : needle ≠ []) :
    ∀ {s : Bytes}, find needle s = none ↔ ¬ needle <:+: s := by
  intro s
  induction s with
  | nil => simp [find, hne]
  | cons b s ih =>
    by_cases hp : needle <+: b :: s
    · simp [find_eq_some_zero hp, hp.isInfix]
    · rw [find_cons_of_not_starts hp, Option.map_eq_none_iff, ih, List.infix_cons_iff]
      simp [hp]

/-- A needle does not reach over a byte that it does not have. -/
theorem infix_append_cons {needle a b : Bytes} {c : Byte} (hc : c ∉ needle) :
    needle <:+: a ++ c :: b ↔ needle <:+: a ∨ needle <:+: b := by
  constructor
  · rintro ⟨s, t, h⟩
    rcases List.append_eq_append_iff.mp h with ⟨x, ha, -⟩ | ⟨x, hs, hb⟩
    · exact Or.inl ⟨s, x, ha.symm⟩
    · cases x with
      | nil =>
        rw [List.append_nil] at hs
        exact Or.inl ⟨s, [], by rw [List.append_nil, hs]⟩
      | cons d x =>
        rw [List.cons_append, List.cons.injEq] at hb
        obtain ⟨rfl, hb⟩ := hb
        rcases List.append_eq_append_iff.mp hs with ⟨y, -, hneedle⟩ | ⟨y, -, hneedle⟩
        · exact absurd (hneedle ▸ List.mem_append_right y List.mem_cons_self) hc
        · cases y with
          | nil =>
            rw [List.nil_append] at hneedle
            exact absurd (hneedle ▸ List.mem_cons_self) hc
          | cons e y =>
            rw [List.cons_append, List.cons.injEq] at hneedle
            exact Or.inr ⟨y, t, by rw [hb, hneedle.2]⟩
  · rintro (h | h)
    · exact h.trans (List.prefix_append a _).isInfix
    · exact h.trans ((List.suffix_cons c b).trans (List.suffix_append a _)).isInfix

/-! ### C strings -/

theorem ne_zero_of_not_mem {s : Bytes} (h : (0 : Byte) ∉ s) :
    ∀ b ∈ s, (decide (b ≠ 0)) = true := by
  intro b hb
  rw [decide_eq_true_eq]
  rintro rfl
  exact h hb

theorem text_eq_self {s : Bytes} (h : (0 : Byte) ∉ s) : text s = s :=
  List.takeWhile_eq_self_iff.mpr (ne_zero_of_not_mem h)

theorem text_append {s : Bytes} (h : (0 : Byte) ∉ s) (t : Bytes) : text (s ++ t) = s ++ text t :=
  List.takeWhile_append_of_pos (ne_zero_of_not_mem h)

theorem not_mem_text (s : Bytes) : (0 : Byte) ∉ text s := by
  intro h
  have h' : (0 : Byte) ∈ s.takeWhile (· ≠ 0) := h
  have h0 := List.mem_takeWhile_imp h'
  exact absurd rfl (of_decide_eq_true h0)

theorem text_prefix_self (s : Bytes) : text s <+: s := List.takeWhile_prefix _

/-- A literal is the list of its characters. -/
theorem ascii_ofList (l : List Char) :
    ascii (String.ofList l) = l.map fun c => c.toNat.toUInt8 := by
  rw [ascii, String.toList_ofList]

/-! ### Numbers -/

/-- A decimal digit survives the trip through a byte. -/
theorem digit_roundtrip {c : Char} (h : c.isDigit) :
    c.toNat.toUInt8.toNat = c.toNat ∧ 48 ≤ c.toNat ∧ c.toNat ≤ 57 := by
  have hd := Char.isDigit_iff_toNat.mp h
  have h0 : '0'.toNat = 48 := rfl
  have h9 : '9'.toNat = 57 := rfl
  rw [h0, h9] at hd
  refine ⟨?_, hd⟩
  rw [Nat.toUInt8_eq, UInt8.toNat_ofNat']
  omega

theorem isDigit_of_mem_decimal {n : ℕ} : ∀ b ∈ decimal n, isDigit b = true := by
  intro b hb
  obtain ⟨c, hc, rfl⟩ := List.mem_map.mp hb
  obtain ⟨hc', h48, h57⟩ := digit_roundtrip (Nat.isDigit_of_mem_toDigits (by decide) (by decide) hc)
  simp only [isDigit, Bool.and_eq_true, decide_eq_true_eq, UInt8.le_iff_toNat_le, hc']
  exact ⟨h48, h57⟩

theorem decimal_ne_nil (n : ℕ) : decimal n ≠ [] :=
  fun h => Nat.toDigits_ne_nil (List.map_eq_nil_iff.mp h)

theorem not_mem_decimal {n : ℕ} {b : Byte} (hb : isDigit b = false) : b ∉ decimal n := by
  intro h
  rw [isDigit_of_mem_decimal b h] at hb
  exact Bool.noConfusion hb

theorem not_mem_signed {n : ℤ} {b : Byte} (hb : isDigit b = false) (hminus : b ≠ 45) :
    b ∉ signed n := by
  cases n with
  | ofNat n => exact not_mem_decimal hb
  | negSucc n =>
    show b ∉ 45 :: decimal (n + 1)
    rw [List.mem_cons, not_or]
    exact ⟨hminus, not_mem_decimal hb⟩

@[simp] theorem value_decimal (n : ℕ) : value (decimal n) = n := by
  have h : ∀ c ∈ Nat.toDigits 10 n, Char.ofNat c.toNat.toUInt8.toNat = c := by
    intro c hc
    rw [(digit_roundtrip (Nat.isDigit_of_mem_toDigits (by decide) (by decide) hc)).1]
    exact Char.ofNat_toNat c
  have hmap : (decimal n).map (fun b => Char.ofNat b.toNat) = Nat.toDigits 10 n := by
    rw [decimal, List.map_map]
    exact (List.map_congr_left h).trans (List.map_id' _)
  rw [value, hmap]
  exact Nat.ofDigitChars_ten_toDigits

/-- No zero stands before other digits. -/
theorem decimal_of_head {n : ℕ} (h : (decimal n).head? = some 48) : decimal n = [48] := by
  induction n using Nat.strongRecOn with
  | ind n ih =>
    by_cases hlt : n < 10
    · rw [decimal, Nat.toDigits_of_lt_base hlt] at h ⊢
      exact congrArg (fun b => [b]) (Option.some.inj h)
    · have hsplit : decimal n = decimal (n / 10) ++ decimal (n % 10) := by
        rw [decimal, Nat.toDigits_of_base_le (by decide) (Nat.le_of_not_lt hlt), List.map_append,
          decimal, decimal, Nat.toDigits_of_lt_base (Nat.mod_lt n (by decide))]
      rw [hsplit, List.head?_append_of_ne_nil _ (decimal_ne_nil _)] at h
      have hzero := congrArg value (ih (n / 10) (by omega) h)
      rw [value_decimal] at hzero
      have hvalue : value [48] = 0 := rfl
      omega

theorem unsigned_append {s : Bytes} (h : ∃ b ∈ s, isDigit b = false) (t : Bytes) :
    unsigned (s ++ t) = unsigned s := by
  have hne : (s.takeWhile isDigit).length ≠ s.length := by
    intro heq
    obtain ⟨b, hb, hdigit⟩ := h
    rw [← (List.takeWhile_prefix isDigit).eq_of_length heq] at hb
    rw [List.mem_takeWhile_imp hb] at hdigit
    exact Bool.noConfusion hdigit
  rw [unsigned, List.takeWhile_append, if_neg hne]
  rfl

/-- A number that begins in a text that ends with LF ends in it. -/
theorem strtoull_append {s : Bytes} (hnumber : s.dropWhile isSpace ≠ []) (hlf : [10] <:+ s)
    (t : Bytes) : strtoull (s ++ t) = strtoull s := by
  obtain ⟨d, v, hd⟩ := List.exists_cons_of_ne_nil hnumber
  have hspace : isSpace d = false := by
    have := List.head_dropWhile_not isSpace hnumber
    simpa only [hd, List.head_cons] using this
  -- the first byte of the number is no LF, so the last LF comes behind it
  have hv : (10 : Byte) ∈ v := by
    have hsuffix : [10] <:+ d :: v :=
      List.suffix_of_suffix_length_le hlf (hd ▸ List.dropWhile_suffix _) (by simp)
    rcases List.suffix_cons_iff.mp hsuffix with heq | hv
    · rw [List.cons.injEq] at heq
      rw [← heq.1] at hspace
      exact absurd hspace (by decide)
    · exact hv.subset (List.mem_singleton_self 10)
  have hdrop : (s ++ t).dropWhile isSpace = d :: (v ++ t) := by
    rw [List.dropWhile_append, hd]
    rfl
  have htail := unsigned_append ⟨10, hv, by decide⟩ t
  have hwhole := unsigned_append ⟨10, List.mem_cons_of_mem d hv, by decide⟩ t
  rw [List.cons_append] at hwhole
  simp only [strtoull, hdrop, hd, List.head?_cons, List.tail_cons, htail, hwhole]

/-- Blanks are skipped and a number that fits is read back. -/
theorem strtoull_decimal {blanks : Bytes} (hblanks : blanks.dropWhile isSpace = []) {n : ℕ}
    (hn : n ≤ ullongMax) {t : Bytes} (ht : t.head?.all fun b => !isDigit b) :
    strtoull (blanks ++ (decimal n ++ t)) = n := by
  obtain ⟨b, digits, hb⟩ := List.exists_cons_of_ne_nil (decimal_ne_nil n)
  have hdigit : isDigit b = true := isDigit_of_mem_decimal b (hb ▸ List.mem_cons_self ..)
  have hne (c : Byte) (hc : isDigit c = false) : b ≠ c := by
    rintro rfl
    rw [hdigit] at hc
    exact Bool.noConfusion hc
  have hspace : isSpace b = false := by
    cases h : isSpace b with
    | false => rfl
    | true =>
      simp only [isSpace, Bool.or_eq_true, Bool.and_eq_true, decide_eq_true_eq] at h
      simp only [isDigit, Bool.and_eq_true, decide_eq_true_eq] at hdigit
      rcases h with rfl | h
      · exact absurd hdigit.1 (by decide)
      · exact absurd (UInt8.le_trans hdigit.1 h.2) (by decide)
  have hnumber : (blanks ++ (decimal n ++ t)).dropWhile isSpace = decimal n ++ t := by
    rw [List.dropWhile_append, hblanks]
    rw [hb, List.cons_append]
    exact List.dropWhile_cons_of_neg (by rw [hspace]; exact Bool.false_ne_true)
  have hdigits : (decimal n ++ t).takeWhile isDigit = decimal n := by
    rw [List.takeWhile_append_of_pos isDigit_of_mem_decimal]
    cases t with
    | nil => exact List.append_nil _
    | cons c t =>
      rw [List.takeWhile_cons_of_neg (by simpa using ht), List.append_nil]
  have hhead : (decimal n ++ t).head? = some b := by rw [hb]; rfl
  simp only [strtoull, hnumber, hhead, Option.some.injEq, if_neg (hne 45 (by decide)),
    if_neg (hne 43 (by decide)), unsigned, hdigits, value_decimal, if_pos hn]

end CString

end FortAI
