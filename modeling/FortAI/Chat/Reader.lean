import FortAI.Machine.Json

/-!
# Reading JSON

The functions with which `fortai_native_http` reads a request, under their names in the source.  A
position in the text is the list of the bytes from it on, and a `limit` behind it is the number of
the bytes up to the limit.

* `jsonKey` looks for the quoted name in the text, wherever it stands.
* `jsonString_length`, `jsonKey_length` : what is left of the text gets shorter.
-/

namespace FortAI

namespace Chat

open CString

/-- `skip_space` -/
def skipSpace (s : Bytes) : Bytes := s.dropWhile isGap

/-- `'"' // key // '"'` -/
def quoted (key : Bytes) : Bytes := 34 :: (key ++ [34])

/-- `json_key`: what stands behind the colon of the first occurrence of the name that has one;
`none` for the position 0. -/
def jsonKey (key : Bytes) (s : Bytes) (limit : ℕ) : Option Bytes :=
  match _h : find (quoted key) (s.take limit) with
  | none => none
  | some found =>
    let rest := s.drop (found + (quoted key).length)
    let colon := skipSpace rest
    -- the colon has to stand before the limit
    if limit ≤ s.length - colon.length then none
    else if colon.head? = some 58 then some (skipSpace colon.tail)
    else jsonKey key rest (limit - (found + (quoted key).length))
termination_by s.length
decreasing_by
  have hfit := find_add_length_le (List.cons_ne_nil 34 (key ++ [34])) _h
  have hfit' : found + (quoted key).length ≤ (s.take limit).length := hfit
  have hpos : 0 < (quoted key).length := Nat.succ_pos _
  rw [List.length_take] at hfit'
  rw [List.length_drop]
  omega

/-- The loop of `matching_delimiter`; the number of bytes up to the closing delimiter. -/
def scanDelimiter (opening closing : Byte) : ℕ → Bool → Bool → Bytes → Option ℕ
  | _, _, _, [] => none
  | depth, true, true, _ :: s => (scanDelimiter opening closing depth true false s).map (· + 1)
  | depth, true, false, b :: s =>
    if b = 92 then (scanDelimiter opening closing depth true true s).map (· + 1)
    else if b = 34 then (scanDelimiter opening closing depth false false s).map (· + 1)
    else (scanDelimiter opening closing depth true false s).map (· + 1)
  | depth, false, escaped, b :: s =>
    if b = 34 then (scanDelimiter opening closing depth true escaped s).map (· + 1)
    else if b = opening then (scanDelimiter opening closing (depth + 1) false escaped s).map (· + 1)
    else if b = closing then
      if depth - 1 = 0 then some 1
      else (scanDelimiter opening closing (depth - 1) false escaped s).map (· + 1)
    else (scanDelimiter opening closing depth false escaped s).map (· + 1)

/-- `matching_delimiter`; `none` for the position 0. -/
def matchingDelimiter (s : Bytes) (opening closing : Byte) : Option ℕ :=
  if s.head? = some opening then scanDelimiter opening closing 0 false false s else none

/-- `hex_digit`; `none` for -1. -/
def hexDigit (value : Byte) : Option ℕ :=
  if 48 ≤ value && value ≤ 57 then some (value.toNat - 48)
  else if 97 ≤ value && value ≤ 102 then some (value.toNat - 97 + 10)
  else if 65 ≤ value && value ≤ 70 then some (value.toNat - 65 + 10)
  else none

/-- The loop over the four digits behind `\u`: the code unit and what follows. -/
def hexFour : Bytes → Option (ℕ × Bytes)
  | a :: b :: c :: d :: rest => do
    let a ← hexDigit a
    let b ← hexDigit b
    let c ← hexDigit c
    let d ← hexDigit d
    return (16 * (16 * (16 * a + b) + c) + d, rest)
  | _ => none

/-- `append_codepoint`, for the code points `json_string` computes. -/
def codepoint (value : ℕ) : Bytes :=
  if 1114111 < value then []
  else if value ≤ 127 then [UInt8.ofNat value]
  else if value ≤ 2047 then
    [UInt8.ofNat (192 + value / 64), UInt8.ofNat (128 + value % 64)]
  else if value ≤ 65535 then
    [UInt8.ofNat (224 + value / 4096), UInt8.ofNat (128 + value / 64 % 64),
      UInt8.ofNat (128 + value % 64)]
  else
    [UInt8.ofNat (240 + value / 262144), UInt8.ofNat (128 + value / 4096 % 64),
      UInt8.ofNat (128 + value / 64 % 64), UInt8.ofNat (128 + value % 64)]

/-- `case ('u')` of `json_string`: what is appended and where the loop goes on. -/
def unicodeEscape (s : Bytes) : Option (Bytes × Bytes) :=
  match hexFour s with
  | none => none
  | some (high, rest) =>
    if 55296 ≤ high ∧ high ≤ 56319 ∧ 6 ≤ rest.length then
      if rest.take 2 ≠ [92, 117] then some (codepoint high, rest)
      else
        match hexFour (rest.drop 2) with
        | none => none
        | some (low, after) =>
          if 56320 ≤ low ∧ low ≤ 57343 then
            some (codepoint (65536 + (high - 55296) * 1024 + (low - 56320)), after)
          -- the second escape is read again on its own
          else some (codepoint high, rest)
    else some (codepoint high, rest)

/-- The `select case` behind a backslash. -/
def escapeCase : Bytes → Option (Bytes × Bytes)
  | [] => none
  | escaped :: s =>
    if escaped = 34 ∨ escaped = 92 ∨ escaped = 47 then some ([escaped], s)
    else if escaped = 98 then some ([8], s)
    else if escaped = 102 then some ([12], s)
    else if escaped = 110 then some ([10], s)
    else if escaped = 114 then some ([13], s)
    else if escaped = 116 then some ([9], s)
    else if escaped = 117 then unicodeEscape s
    else none

/-- One turn of the loop of `json_string` that does not end it. -/
def stringTurn : Bytes → Option (Bytes × Bytes)
  | [] => none
  | b :: s =>
    if b ≠ 92 then
      if b < 32 then none else some ([b], s)
    else escapeCase s

theorem hexFour_length {s : Bytes} {n : ℕ} {rest : Bytes} (h : hexFour s = some (n, rest)) :
    rest.length < s.length := by
  match s with
  | a :: b :: c :: d :: tail =>
    simp only [hexFour, Option.bind_eq_bind, Option.bind_eq_some_iff, Option.pure_def,
      Option.some.injEq, Prod.mk.injEq] at h
    obtain ⟨_, -, _, -, _, -, _, -, -, rfl⟩ := h
    simp only [List.length_cons]
    omega
  | [] | [_] | [_, _] | [_, _, _] => exact nomatch h

theorem unicodeEscape_length {s out rest : Bytes} (h : unicodeEscape s = some (out, rest)) :
    rest.length < s.length := by
  unfold unicodeEscape at h
  split at h
  · exact nomatch h
  · rename_i high after hfour
    have hlt := hexFour_length hfour
    split_ifs at h with hhigh hmark
    · simp only [Option.some.injEq, Prod.mk.injEq] at h
      rw [← h.2]
      exact hlt
    · split at h
      · exact nomatch h
      · rename_i low after' hfour'
        have hlt' := hexFour_length hfour'
        rw [List.length_drop] at hlt'
        split_ifs at h with hlow
        · simp only [Option.some.injEq, Prod.mk.injEq] at h
          rw [← h.2]
          omega
        · simp only [Option.some.injEq, Prod.mk.injEq] at h
          rw [← h.2]
          exact hlt
    · simp only [Option.some.injEq, Prod.mk.injEq] at h
      rw [← h.2]
      exact hlt

theorem stringTurn_length {s out rest : Bytes} (h : stringTurn s = some (out, rest)) :
    rest.length < s.length := by
  match s with
  | [] => exact nomatch h
  | b :: tail =>
    rw [stringTurn] at h
    split_ifs at h
    · simp only [Option.some.injEq, Prod.mk.injEq] at h
      rw [← h.2, List.length_cons]
      exact Nat.lt_succ_self _
    · match tail with
      | [] => exact nomatch h
      | escaped :: tail =>
        rw [escapeCase] at h
        simp only [List.length_cons]
        split_ifs at h
        -- the last case is `u`, the others take one byte
        iterate 6
          · rw [Option.some.injEq, Prod.mk.injEq] at h
            rw [← h.2]
            omega
        · exact Nat.lt_succ_of_lt (Nat.lt_succ_of_lt (unicodeEscape_length h))

/-- The loop of `json_string` behind the opening quote: the string and what follows its closing
quote. -/
def stringBody (s : Bytes) : Option (Bytes × Bytes) :=
  if s.head? = some 34 then some ([], s.tail)
  else
    match _h : stringTurn s with
    | none => none
    | some (out, rest) => (stringBody rest).map fun r => (out ++ r.1, r.2)
termination_by s.length
decreasing_by exact stringTurn_length _h

/-- `json_string`: the string, and what follows its closing quote. -/
def jsonString (s : Bytes) : Option (Bytes × Bytes) :=
  if s.head? = some 34 then stringBody s.tail else none

theorem stringBody_length {s out rest : Bytes} (h : stringBody s = some (out, rest)) :
    rest.length < s.length := by
  induction s using stringBody.induct generalizing out rest with
  | case1 s hquote =>
    rw [stringBody, if_pos hquote, Option.some.injEq, Prod.mk.injEq] at h
    obtain ⟨tail, rfl⟩ := List.head?_eq_some_iff.mp hquote
    rw [← h.2]
    exact Nat.lt_succ_self _
  | case2 s hquote hturn =>
    rw [stringBody, if_neg hquote] at h
    split at h
    · exact nomatch h
    · rename_i heq
      rw [hturn] at heq
      exact nomatch heq
  | case3 s hquote out' rest' hturn ih =>
    rw [stringBody, if_neg hquote] at h
    split at h
    · exact nomatch h
    · rename_i out'' rest'' heq
      rw [hturn, Option.some.injEq, Prod.mk.injEq] at heq
      obtain ⟨rfl, rfl⟩ := heq
      obtain ⟨⟨tailOut, tailRest⟩, hbody, hr⟩ := Option.map_eq_some_iff.mp h
      simp only [Prod.mk.injEq] at hr
      rw [← hr.2]
      exact Nat.lt_trans (ih hbody) (stringTurn_length hturn)

theorem jsonString_length {s out rest : Bytes} (h : jsonString s = some (out, rest)) :
    rest.length < s.length := by
  rw [jsonString] at h
  split_ifs at h with hquote
  obtain ⟨tail, rfl⟩ := List.head?_eq_some_iff.mp hquote
  exact Nat.lt_succ_of_lt (stringBody_length h)

/-- A value without quotes or brackets ends before one of these. -/
def endsValue (b : Byte) : Bool :=
  b = 44 || b = 125 || b = 93 || b = 32 || b = 9 || b = 10 || b = 13

/-- `json_raw_value`: the text of the value as it is written, and what follows it. -/
def jsonRawValue (s : Bytes) : Option (Bytes × Bytes) :=
  match s with
  | [] => none
  | b :: _ =>
    if b = 34 then (jsonString s).map fun r => (s.take (s.length - r.2.length), r.2)
    else if b = 91 ∨ b = 123 then
      (matchingDelimiter s b (if b = 91 then 93 else 125)).map fun n => (s.take n, s.drop n)
    else if endsValue b then none
    else some (s.takeWhile (!endsValue ·), s.dropWhile (!endsValue ·))

theorem scanDelimiter_pos {opening closing : Byte} {depth : ℕ} {quoted escaped : Bool} {s : Bytes}
    {n : ℕ} (h : scanDelimiter opening closing depth quoted escaped s = some n) : 0 < n := by
  have hmap {o : Option ℕ} (ho : o.map (· + 1) = some n) : 0 < n := by
    obtain ⟨k, -, rfl⟩ := Option.map_eq_some_iff.mp ho
    exact Nat.succ_pos k
  unfold scanDelimiter at h
  split at h
  · exact nomatch h
  · exact hmap h
  · split_ifs at h <;> exact hmap h
  · split_ifs at h
    · exact hmap h
    · exact hmap h
    · exact Option.some.inj h ▸ Nat.one_pos
    · exact hmap h
    · exact hmap h

theorem matchingDelimiter_pos {s : Bytes} {opening closing : Byte} {n : ℕ}
    (h : matchingDelimiter s opening closing = some n) : 0 < n := by
  rw [matchingDelimiter] at h
  split_ifs at h
  exact scanDelimiter_pos h

theorem jsonRawValue_length {s raw after : Bytes} (h : jsonRawValue s = some (raw, after)) :
    after.length < s.length := by
  match s with
  | [] => exact nomatch h
  | b :: tail =>
    rw [jsonRawValue] at h
    by_cases hquote : b = 34
    · rw [if_pos hquote] at h
      obtain ⟨⟨out, rest⟩, hstring, hr⟩ := Option.map_eq_some_iff.mp h
      rw [Prod.mk.injEq] at hr
      rw [← hr.2]
      exact jsonString_length hstring
    rw [if_neg hquote] at h
    by_cases hbracket : b = 91 ∨ b = 123
    · rw [if_pos hbracket] at h
      obtain ⟨n, hn, hr⟩ := Option.map_eq_some_iff.mp h
      rw [Prod.mk.injEq] at hr
      have := matchingDelimiter_pos hn
      rw [← hr.2, List.length_drop, List.length_cons]
      omega
    rw [if_neg hbracket] at h
    by_cases hends : endsValue b = true
    · rw [if_pos hends] at h
      exact nomatch h
    · rw [if_neg hends, Option.some.injEq, Prod.mk.injEq] at h
      rw [← h.2, List.dropWhile_cons_of_pos (by simpa using hends), List.length_cons]
      exact Nat.lt_succ_of_le (List.dropWhile_suffix _).length_le

/-- `json_string_value` -/
def jsonStringValue (text key fallback : Bytes) : Bytes :=
  match jsonKey key text text.length with
  | none => fallback
  | some value => ((jsonString value).map Prod.fst).getD fallback

theorem skipSpace_length (s : Bytes) : (skipSpace s).length ≤ s.length :=
  List.dropWhile_suffix _ |>.length_le

end Chat

end FortAI
