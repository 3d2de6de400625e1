import FortAI.Machine.Json

/-!
# UTF-8

The byte sequences of RFC 3629, by its syntax (`Sequence`) and as the encodings of the Unicode scalar
values (`sequence_iff`).

* `value_utf8` : a code point can be read back from its encoding.
* `Sequence.append_inj` : a text has at most one sequence at its start.
* `Valid.head` : a text of sequences, from its first one on.
* `valid_append_iff` : a text can be cut in front of an ASCII byte.
* `valid_flatMap_iff` : its ASCII bytes can be written in another way.
* `Replaced.unique` : there is one way to replace what is not a sequence.
-/

namespace FortAI

namespace Utf8

open CString

/-- A Unicode scalar value. -/
def IsScalar (n : ℕ) : Prop := n ≤ 1114111 ∧ ¬ (55296 ≤ n ∧ n ≤ 57343)

instance (n : ℕ) : Decidable (IsScalar n) := inferInstanceAs (Decidable (_ ∧ _))

/-- `UTF8-tail` -/
def IsTail (b : Byte) : Prop := 128 ≤ b.toNat ∧ b.toNat ≤ 191

instance (b : Byte) : Decidable (IsTail b) := inferInstanceAs (Decidable (_ ∧ _))

/-- `UTF8-char`.  E0 is followed by A0 to BF and ED by 80 to 9F, F0 by 90 to BF and F4 by 80 to 8F. -/
inductive Sequence : Bytes → Prop
  | one {a : Byte} : a.toNat ≤ 127 → Sequence [a]
  | two {a b : Byte} : 194 ≤ a.toNat → a.toNat ≤ 223 → IsTail b → Sequence [a, b]
  | three {a b c : Byte} : 224 ≤ a.toNat → a.toNat ≤ 239 → IsTail b → IsTail c →
      (a.toNat = 224 → 160 ≤ b.toNat) → (a.toNat = 237 → b.toNat ≤ 159) → Sequence [a, b, c]
  | four {a b c d : Byte} : 240 ≤ a.toNat → a.toNat ≤ 244 → IsTail b → IsTail c → IsTail d →
      (a.toNat = 240 → 144 ≤ b.toNat) → (a.toNat = 244 → b.toNat ≤ 143) → Sequence [a, b, c, d]

/-- The number of bytes that a sequence with this first byte has. -/
def leadWidth (a : Byte) : ℕ :=
  if a.toNat < 128 then 1 else if a.toNat < 224 then 2 else if a.toNat < 240 then 3 else 4

/-- The code point of a sequence. -/
def value : Bytes → ℕ
  | [a] => a.toNat
  | [a, b] => a.toNat % 32 * 64 + b.toNat % 64
  | [a, b, c] => a.toNat % 16 * 4096 + b.toNat % 64 * 64 + c.toNat % 64
  | [a, b, c, d] =>
    a.toNat % 8 * 262144 + b.toNat % 64 * 4096 + c.toNat % 64 * 64 + d.toNat % 64
  | _ => 0

/-- `UTF8-octets` -/
def Valid (s : Bytes) : Prop := ∃ ns : List ℕ, (∀ n ∈ ns, IsScalar n) ∧ s = ns.flatMap utf8

/-- U+FFFD, the replacement character. -/
def replacement : Bytes := [239, 191, 189]

/-- The text `t` is `s` with a replacement character for each byte that no sequence starts at. -/
inductive Replaced : Bytes → Bytes → Prop
  | nil : Replaced [] []
  | sequence {q s t : Bytes} : Sequence q → Replaced s t → Replaced (q ++ s) (q ++ t)
  | other {b : Byte} {s t : Bytes} : (∀ q, Sequence q → ¬ q <+: b :: s) → Replaced s t →
      Replaced (b :: s) (replacement ++ t)

/-! ### Encodings -/

section

variable {n : ℕ}

theorem utf8_one (h : n ≤ 127) : utf8 n = [UInt8.ofNat n] := if_pos h

theorem utf8_two (h : 127 < n) (h' : n ≤ 2047) :
    utf8 n = [UInt8.ofNat (192 + n / 64), UInt8.ofNat (128 + n % 64)] := by
  rw [utf8]
  simp only [if_neg (Nat.not_le.mpr h), if_pos h']

theorem utf8_three (h : 2047 < n) (h' : n ≤ 65535) :
    utf8 n = [UInt8.ofNat (224 + n / 4096), UInt8.ofNat (128 + n / 64 % 64),
      UInt8.ofNat (128 + n % 64)] := by
  rw [utf8]
  simp only [if_neg (show ¬ n ≤ 127 by omega), if_neg (Nat.not_le.mpr h), if_pos h']

theorem utf8_four (h : 65535 < n) :
    utf8 n = [UInt8.ofNat (240 + n / 262144), UInt8.ofNat (128 + n / 4096 % 64),
      UInt8.ofNat (128 + n / 64 % 64), UInt8.ofNat (128 + n % 64)] := by
  rw [utf8]
  simp only [if_neg (show ¬ n ≤ 127 by omega), if_neg (show ¬ n ≤ 2047 by omega),
    if_neg (Nat.not_le.mpr h)]

theorem byte_eq {a : Byte} {k : ℕ} (h : a.toNat = k) : a = UInt8.ofNat k := by
  rw [← h, UInt8.ofNat_toNat]

theorem toNat_byte {k : ℕ} (h : k < 256) : (UInt8.ofNat k).toNat = k := UInt8.toNat_ofNat_of_lt' h

/-- The encoding of a scalar value is a sequence. -/
theorem sequence_utf8 (h : IsScalar n) : Sequence (utf8 n) := by
  obtain ⟨hmax, hsurrogate⟩ := h
  have htail (k : ℕ) : IsTail (UInt8.ofNat (128 + k % 64)) := by
    rw [IsTail, toNat_byte (by omega)]
    omega
  rcases Nat.lt_or_ge 127 n with h1 | h1
  · rcases Nat.lt_or_ge 2047 n with h2 | h2
    · rcases Nat.lt_or_ge 65535 n with h3 | h3
      · rw [utf8_four h3]
        have hlead : (UInt8.ofNat (240 + n / 262144)).toNat = 240 + n / 262144 := toNat_byte (by omega)
        have hnext : (UInt8.ofNat (128 + n / 4096 % 64)).toNat = 128 + n / 4096 % 64 :=
          toNat_byte (by omega)
        exact .four (by omega) (by omega) (htail _) (htail _) (htail _) (by omega) (by omega)
      · rw [utf8_three h2 h3]
        have hlead : (UInt8.ofNat (224 + n / 4096)).toNat = 224 + n / 4096 := toNat_byte (by omega)
        have hnext : (UInt8.ofNat (128 + n / 64 % 64)).toNat = 128 + n / 64 % 64 :=
          toNat_byte (by omega)
        exact .three (by omega) (by omega) (htail _) (htail _) (by omega) (by omega)
    · rw [utf8_two h1 h2]
      have hlead : (UInt8.ofNat (192 + n / 64)).toNat = 192 + n / 64 := toNat_byte (by omega)
      exact .two (by omega) (by omega) (htail _)
  · rw [utf8_one h1]
    exact .one (by rw [toNat_byte (by omega)]; exact h1)

/-- A sequence is the encoding of its value, which is a scalar value. -/
theorem Sequence.utf8_value {s : Bytes} (h : Sequence s) : IsScalar (value s) ∧ utf8 (value s) = s := by
  cases h with
  | @one a ha =>
    refine ⟨⟨by simp only [value]; omega, by simp only [value]; omega⟩, ?_⟩
    rw [utf8_one (by simp only [value]; exact ha)]
    simp only [value, UInt8.ofNat_toNat]
  | @two a b ha ha' hb =>
    obtain ⟨hb, hb'⟩ := hb
    refine ⟨⟨by simp only [value]; omega, by simp only [value]; omega⟩, ?_⟩
    rw [utf8_two (by simp only [value]; omega) (by simp only [value]; omega)]
    simp only [value]
    rw [← byte_eq (a := a) (by omega), ← byte_eq (a := b) (by omega)]
  | @three a b c ha ha' hb hc hlow hhigh =>
    obtain ⟨hb, hb'⟩ := hb
    obtain ⟨hc, hc'⟩ := hc
    refine ⟨⟨by simp only [value]; omega, by simp only [value]; omega⟩, ?_⟩
    rw [utf8_three (by simp only [value]; omega) (by simp only [value]; omega)]
    simp only [value]
    rw [← byte_eq (a := a) (by omega), ← byte_eq (a := b) (by omega), ← byte_eq (a := c) (by omega)]
  | @four a b c d ha ha' hb hc hd hlow hhigh =>
    obtain ⟨hb, hb'⟩ := hb
    obtain ⟨hc, hc'⟩ := hc
    obtain ⟨hd, hd'⟩ := hd
    refine ⟨⟨by simp only [value]; omega, by simp only [value]; omega⟩, ?_⟩
    rw [utf8_four (by simp only [value]; omega)]
    simp only [value]
    rw [← byte_eq (a := a) (by omega), ← byte_eq (a := b) (by omega), ← byte_eq (a := c) (by omega),
      ← byte_eq (a := d) (by omega)]

/-- The sequences of the syntax are the encodings of the scalar values. -/
theorem sequence_iff {s : Bytes} : Sequence s ↔ ∃ n, IsScalar n ∧ s = utf8 n :=
  ⟨fun h => ⟨value s, h.utf8_value.1, h.utf8_value.2.symm⟩, fun ⟨_, hn, hs⟩ => hs ▸ sequence_utf8 hn⟩

/-- A code point is read back from its encoding. -/
theorem value_utf8 (h : n < 2097152) : value (utf8 n) = n := by
  rcases Nat.lt_or_ge 127 n with h1 | h1
  · rcases Nat.lt_or_ge 2047 n with h2 | h2
    · rcases Nat.lt_or_ge 65535 n with h3 | h3
      · rw [utf8_four h3, value, toNat_byte (by omega), toNat_byte (by omega), toNat_byte (by omega),
          toNat_byte (by omega)]
        omega
      · rw [utf8_three h2 h3, value, toNat_byte (by omega), toNat_byte (by omega),
          toNat_byte (by omega)]
        omega
    · rw [utf8_two h1 h2, value, toNat_byte (by omega), toNat_byte (by omega)]
      omega
  · rw [utf8_one h1, value, toNat_byte (by omega)]

end

/-! ### Texts -/

section

variable {s t x y : Bytes} {a : Byte}

theorem Sequence.ne_nil (h : Sequence s) : s ≠ [] := by
  rintro rfl
  cases h

/-- The first byte of a sequence says how long it is. -/
theorem Sequence.length_eq (h : Sequence (a :: s)) : (a :: s).length = leadWidth a := by
  cases h with
  | one ha => rw [leadWidth, if_pos (by omega)]; rfl
  | two ha ha' hb => rw [leadWidth, if_neg (by omega), if_pos (by omega)]; rfl
  | three ha ha' => rw [leadWidth, if_neg (by omega), if_neg (by omega), if_pos (by omega)]; rfl
  | four ha ha' => rw [leadWidth, if_neg (by omega), if_neg (by omega), if_neg (by omega)]; rfl

/-- The bytes behind the first one are no ASCII. -/
theorem Sequence.tail_ge (h : Sequence (a :: s)) : ∀ b ∈ s, 128 ≤ b.toNat := by
  cases h with
  | one => simp
  | two ha ha' hb => simpa using hb.1
  | three ha ha' hb hc => simpa using ⟨hb.1, hc.1⟩
  | four ha ha' hb hc hd => simpa using ⟨hb.1, hc.1, hd.1⟩

/-- A text has at most one sequence at its start. -/
theorem Sequence.append_inj (hs : Sequence s) (ht : Sequence t) (h : s ++ x = t ++ y) :
    s = t ∧ x = y := by
  obtain ⟨a, s, rfl⟩ := List.exists_cons_of_ne_nil hs.ne_nil
  obtain ⟨b, t, rfl⟩ := List.exists_cons_of_ne_nil ht.ne_nil
  have hab : a = b := List.head_eq_of_cons_eq h
  refine List.append_inj h ?_
  rw [hs.length_eq, ht.length_eq, hab]

theorem valid_nil : Valid [] := ⟨[], fun _ h => absurd h List.not_mem_nil, rfl⟩

theorem Sequence.append_valid (hs : Sequence s) (ht : Valid t) : Valid (s ++ t) := by
  obtain ⟨n, hn, rfl⟩ := sequence_iff.mp hs
  obtain ⟨ns, hns, rfl⟩ := ht
  refine ⟨n :: ns, fun m hm => ?_, rfl⟩
  rcases List.mem_cons.mp hm with rfl | hm
  · exact hn
  · exact hns m hm

theorem Valid.append (hs : Valid s) (ht : Valid t) : Valid (s ++ t) := by
  obtain ⟨ns, hns, rfl⟩ := hs
  obtain ⟨ms, hms, rfl⟩ := ht
  refine ⟨ns ++ ms, fun n hn => ?_, List.flatMap_append.symm⟩
  exact (List.mem_append.mp hn).elim (hns n) (hms n)

/-- A text that is not empty starts with a sequence. -/
theorem Valid.head (h : Valid s) (hne : s ≠ []) : ∃ q t, Sequence q ∧ Valid t ∧ s = q ++ t := by
  obtain ⟨ns, hns, rfl⟩ := h
  cases ns with
  | nil => exact absurd rfl hne
  | cons n ns =>
    exact ⟨_, _, sequence_utf8 (hns n List.mem_cons_self),
      ⟨ns, fun m hm => hns m (List.mem_cons_of_mem n hm), rfl⟩, List.flatMap_cons⟩

/-- What stands behind a sequence. -/
theorem Valid.behind (h : Valid (s ++ t)) (hs : Sequence s) : Valid t := by
  obtain ⟨q, r, hq, hr, heq⟩ := h.head (fun hnil => hs.ne_nil (List.append_eq_nil_iff.mp hnil).1)
  exact (hs.append_inj hq heq).2 ▸ hr

theorem Valid.tail (h : Valid (a :: s)) (ha : a.toNat ≤ 127) : Valid s :=
  Valid.behind (s := [a]) h (.one ha)

theorem valid_ascii (h : ∀ b ∈ s, b.toNat < 128) : Valid s := by
  induction s with
  | nil => exact valid_nil
  | cons b s ih =>
    obtain ⟨hb, hs⟩ := List.forall_mem_cons.mp h
    exact (Sequence.one (Nat.le_of_lt_succ hb)).append_valid (ih hs)

/-- ASCII in front of a text does not matter. -/
theorem valid_ascii_append_iff (hs : ∀ b ∈ s, b.toNat < 128) : Valid (s ++ t) ↔ Valid t := by
  refine ⟨fun h => ?_, (valid_ascii hs).append⟩
  induction s with
  | nil => exact h
  | cons b s ih =>
    obtain ⟨hb, hs⟩ := List.forall_mem_cons.mp hs
    exact ih hs (h.tail (Nat.le_of_lt_succ hb))

/-- No sequence goes on to an ASCII byte. -/
theorem valid_append_iff (ht : ∀ b ∈ t.head?, b.toNat < 128) : Valid (s ++ t) ↔ Valid s ∧ Valid t := by
  refine ⟨fun h => ?_, fun h => h.1.append h.2⟩
  induction hn : s.length using Nat.strong_induction_on generalizing s with
  | _ n ih =>
    rcases eq_or_ne s [] with rfl | hne
    · exact ⟨valid_nil, h⟩
    obtain ⟨q, r, hq, hr, heq⟩ := h.head (by simp [hne])
    rcases List.append_eq_append_iff.mp heq with ⟨front, hfront, htail⟩ | ⟨front, hfront, htail⟩
    · -- the first sequence ends in `t`, so it ends in front of it
      have hnil : front = [] := by
        cases front with
        | nil => rfl
        | cons b front =>
          have hb := ht b (by rw [htail]; rfl)
          obtain ⟨a, s, rfl⟩ := List.exists_cons_of_ne_nil hne
          have hge := Sequence.tail_ge (hfront ▸ hq) b (by simp)
          omega
      rw [hnil, List.append_nil] at hfront
      rw [hnil, List.nil_append] at htail
      exact ⟨by simpa [← hfront] using hq.append_valid valid_nil, htail ▸ hr⟩
    · have hpos := List.length_pos_iff.mpr hq.ne_nil
      have hlt : front.length < n := by
        rw [← hn, hfront, List.length_append]
        omega
      obtain ⟨hfront', ht'⟩ := ih front.length hlt (htail ▸ hr) rfl
      exact ⟨hfront ▸ hq.append_valid hfront', ht'⟩

/-- Writing the ASCII bytes of a text differently, in ASCII. -/
theorem valid_flatMap_iff {f : Byte → Bytes} (hlow : ∀ b, b.toNat < 128 → f b ≠ [] ∧ ∀ c ∈ f b, c.toNat < 128)
    (hhigh : ∀ b, 128 ≤ b.toNat → f b = [b]) (s : Bytes) : Valid (s.flatMap f) ↔ Valid s := by
  induction hn : s.length using Nat.strong_induction_on generalizing s with
  | _ n ih =>
    set front := s.takeWhile fun b => decide (128 ≤ b.toNat) with hfront
    set behind := s.dropWhile fun b => decide (128 ≤ b.toNat) with hbehind
    have hs : s = front ++ behind := List.takeWhile_append_dropWhile.symm
    have hsame : front.flatMap f = front := by
      have hcopy : front.flatMap f = front.flatMap fun b => [b] := by
        refine List.flatMap_congr fun b hb => hhigh b ?_
        rw [hfront] at hb
        simpa using List.mem_takeWhile_imp hb
      rw [hcopy, List.flatMap_singleton']
    rw [hs, List.flatMap_append, hsame]
    cases hcases : behind with
    | nil => rfl
    | cons b rest =>
      have hb : b.toNat < 128 := by
        have := List.head_dropWhile_not (fun b : Byte => decide (128 ≤ b.toNat)) (l := s) (by rw [← hbehind, hcases]; simp)
        simpa [← hbehind, hcases] using this
      obtain ⟨hne, hascii⟩ := hlow b hb
      obtain ⟨c, cs, hc⟩ := List.exists_cons_of_ne_nil hne
      have hrest : rest.length < n := by
        rw [← hn, hs, hcases, List.length_append, List.length_cons]
        omega
      have hhead : ∀ d ∈ ((b :: rest).flatMap f).head?, d.toNat < 128 := by
        intro d hd
        rw [List.flatMap_cons, hc] at hd
        obtain rfl : c = d := Option.some_inj.mp hd
        exact hascii c (by rw [hc]; exact List.mem_cons_self)
      rw [valid_append_iff hhead, valid_append_iff (by simpa using hb), List.flatMap_cons, valid_ascii_append_iff hascii,
        ih _ hrest rest rfl, ← valid_ascii_append_iff (s := [b]) (t := rest) (by simpa using hb), List.singleton_append]

theorem sequence_replacement : Sequence replacement := sequence_utf8 (n := 65533) (by decide)

namespace Replaced

/-- What comes out is valid. -/
theorem valid (h : Replaced s t) : Valid t := by
  induction h with
  | nil => exact valid_nil
  | sequence hq _ ih => exact hq.append_valid ih
  | other _ _ ih => exact sequence_replacement.append_valid ih

/-- A valid text stays as it is. -/
theorem eq_of_valid (h : Replaced s t) (hs : Valid s) : t = s := by
  induction h with
  | nil => rfl
  | sequence hq _ ih => rw [ih (hs.behind hq)]
  | @other b s t hnone _ _ =>
    obtain ⟨q, r, hq, -, heq⟩ := hs.head (List.cons_ne_nil b s)
    exact absurd ⟨r, heq.symm⟩ (hnone q hq)

/-- There is one such text. -/
theorem unique (h : Replaced s t) {t' : Bytes} (h' : Replaced s t') : t = t' := by
  induction h generalizing t' with
  | nil =>
    generalize hs : ([] : Bytes) = s at h'
    cases h' with
    | nil => rfl
    | sequence hq _ => exact absurd (List.append_eq_nil_iff.mp hs.symm).1 hq.ne_nil
    | other _ _ => cases hs
  | @sequence q s t hq _ ih =>
    generalize hs : q ++ s = r at h'
    cases h' with
    | nil => exact absurd (List.append_eq_nil_iff.mp hs).1 hq.ne_nil
    | sequence hq' hrest =>
      obtain ⟨rfl, rfl⟩ := hq.append_inj hq' hs
      rw [ih hrest]
    | other hnone _ => exact absurd ⟨s, hs⟩ (hnone q hq)
  | @other b s t hnone _ ih =>
    generalize hs : b :: s = r at h'
    cases h' with
    | nil => cases hs
    | sequence hq' _ => exact absurd (hs ▸ List.prefix_append _ _) (hnone _ hq')
    | other _ hrest =>
      obtain ⟨rfl, rfl⟩ := List.cons.inj hs
      rw [ih hrest]

end Replaced

end

end Utf8

end FortAI
