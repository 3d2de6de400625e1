import FortAI.Chat.Reading
import FortAI.Machine.Position

/-!
# Reading JSON at positions

The readers of `fortai_native_http` with the positions of the source, where every character that is
looked at is checked against the bounds of the text.

* `jsonString_reads`, `jsonRawValue_reads` : they do what the readers of the rest of the text do, and
  look at nothing outside.
* `matchingDelimiter_eq` : the position of the closing delimiter.
-/

namespace FortAI

namespace Chat

namespace Positional

open CString Storage Position

abbrev Reading (α : Type) := Checked Unit α

variable {text s : Bytes} {p : ℕ}

/-! ### Blanks -/

/-- The loop of `skip_space` -/
def skipLoop (text : Bytes) (position : ℕ) : Reading ℕ :=
  if position ≤ text.length then do
    let b ← load (some text) position
    if isGap b then skipLoop text (position + 1) else return position
  else return position
termination_by text.length + 1 - position

/-- `skip_space` -/
def skipSpace (text : Bytes) (position : ℕ) : Reading ℕ := skipLoop text (if 1 < position then position else 1)

theorem skipLoop_eq (h : At text p s) :
    ∃ q, skipLoop text p = .ok q ∧ p ≤ q ∧ At text q (Chat.skipSpace s) := by
  induction s generalizing p with
  | nil =>
    have hend : ¬ p ≤ text.length := fun hle => h.le_iff.mp hle rfl
    exact ⟨p, by rw [skipLoop, if_neg hend]; rfl, Nat.le_refl p, h⟩
  | cons b s ih =>
    rw [skipLoop, if_pos (h.le_iff.mpr (List.cons_ne_nil b s)), h.load, ok_bind]
    by_cases hgap : isGap b = true
    · obtain ⟨q, hq, hle, hat⟩ := ih h.next
      refine ⟨q, by rw [if_pos hgap, hq], by omega, ?_⟩
      rw [Chat.skipSpace, List.dropWhile_cons_of_pos hgap]
      exact hat
    · refine ⟨p, by rw [if_neg hgap]; rfl, Nat.le_refl p, ?_⟩
      rw [Chat.skipSpace, List.dropWhile_cons_of_neg hgap]
      exact h

theorem skipSpace_eq (h : At text p s) :
    ∃ q, skipSpace text p = .ok q ∧ p ≤ q ∧ At text q (Chat.skipSpace s) := by
  have hpos : (if 1 < p then p else 1) = p := by
    have := h.pos
    split_ifs <;> omega
  rw [skipSpace, hpos]
  exact skipLoop_eq h

/-! ### Delimiters -/

/-- The loop of `matching_delimiter` -/
def delimiterLoop (text : Bytes) (opening closing : Byte) (position depth : ℕ) (quoted escaped : Bool) : Reading ℕ :=
  if position ≤ text.length then do
    let b ← load (some text) position
    if quoted then
      if escaped then delimiterLoop text opening closing (position + 1) depth true false
      else if b = 92 then delimiterLoop text opening closing (position + 1) depth true true
      else if b = 34 then delimiterLoop text opening closing (position + 1) depth false false
      else delimiterLoop text opening closing (position + 1) depth true false
    else if b = 34 then delimiterLoop text opening closing (position + 1) depth true escaped
    else if b = opening then delimiterLoop text opening closing (position + 1) (depth + 1) false escaped
    else if b = closing then
      if depth - 1 = 0 then return position
      else delimiterLoop text opening closing (position + 1) (depth - 1) false escaped
    else delimiterLoop text opening closing (position + 1) depth false escaped
  else refuse
termination_by text.length + 1 - position

/-- `matching_delimiter` -/
def matchingDelimiter (text : Bytes) (first : ℕ) (opening closing : Byte) : Reading ℕ :=
  if first < 1 ∨ text.length < first then refuse
  else do
    let b ← load (some text) first
    if b ≠ opening then refuse else delimiterLoop text opening closing first 0 false false

theorem delimiterLoop_eq (opening closing : Byte) (h : At text p s) (depth : ℕ) (quoted escaped : Bool) :
    delimiterLoop text opening closing p depth quoted escaped =
      (scanDelimiter opening closing depth quoted escaped s).elim refuse fun n => .ok (p + n - 1) := by
  induction s generalizing p depth quoted escaped with
  | nil =>
    rw [delimiterLoop, if_neg fun hle => h.le_iff.mp hle rfl]
    cases quoted <;> cases escaped <;> rfl
  | cons b s ih =>
    -- what a turn that goes on adds to the length
    have hnext (d : ℕ) (q e : Bool) : delimiterLoop text opening closing (p + 1) d q e =
        ((scanDelimiter opening closing d q e s).map (· + 1)).elim refuse fun n => .ok (p + n - 1) := by
      rw [ih h.next]
      cases scanDelimiter opening closing d q e s with
      | none => rfl
      | some n =>
        show Except.ok (p + 1 + n - 1) = Except.ok (p + (n + 1) - 1)
        congr 1
        omega
    rw [delimiterLoop, if_pos (h.le_iff.mpr (List.cons_ne_nil b s)), h.load, ok_bind]
    cases quoted with
    | true =>
      cases escaped with
      | true =>
        rw [if_pos rfl, if_pos rfl, hnext, scanDelimiter]
      | false =>
        rw [if_pos rfl, if_neg Bool.false_ne_true, scanDelimiter]
        split_ifs <;> exact hnext ..
    | false =>
      rw [if_neg Bool.false_ne_true, scanDelimiter]
      split_ifs
      all_goals first | exact hnext .. | rfl

/-- The closing delimiter stands in the text. -/
theorem scanDelimiter_le {opening closing : Byte} {depth : ℕ} {quoted escaped : Bool} {n : ℕ}
    (h : scanDelimiter opening closing depth quoted escaped s = some n) : n ≤ s.length := by
  induction s generalizing depth quoted escaped n with
  | nil =>
    cases quoted <;> cases escaped <;> cases h
  | cons b s ih =>
    have hmap {d : ℕ} {q e : Bool} (hscan : (scanDelimiter opening closing d q e s).map (· + 1) = some n) :
        n ≤ (b :: s).length := by
      obtain ⟨m, hm, rfl⟩ := Option.map_eq_some_iff.mp hscan
      exact Nat.succ_le_succ (ih hm)
    have hone (hscan : some 1 = some n) : n ≤ (b :: s).length := by
      rw [← Option.some.inj hscan]
      exact Nat.le_add_left 1 s.length
    cases quoted with
    | true =>
      cases escaped with
      | true => exact hmap h
      | false =>
        rw [scanDelimiter] at h
        split_ifs at h <;> exact hmap h
    | false =>
      rw [scanDelimiter] at h
      split_ifs at h
      all_goals first | exact hmap h | exact hone h

theorem matchingDelimiter_le {opening closing : Byte} {n : ℕ}
    (h : Chat.matchingDelimiter s opening closing = some n) : n ≤ s.length := by
  rw [Chat.matchingDelimiter] at h
  split_ifs at h
  exact scanDelimiter_le h

theorem matchingDelimiter_eq (h : At text p s) (opening closing : Byte) :
    matchingDelimiter text p opening closing =
      (Chat.matchingDelimiter s opening closing).elim refuse fun n => .ok (p + n - 1) := by
  have hpos := h.pos
  cases s with
  | nil =>
    have hend : text.length < p := Nat.lt_of_not_le fun hle => h.le_iff.mp hle rfl
    rw [matchingDelimiter, if_pos (Or.inr hend)]
    rfl
  | cons b s =>
    have hle := h.le_iff.mpr (List.cons_ne_nil b s)
    rw [matchingDelimiter, if_neg (by omega), h.load, ok_bind, Chat.matchingDelimiter, List.head?_cons]
    by_cases hb : b = opening
    · rw [if_neg (not_not.mpr hb), if_pos (congrArg some hb), delimiterLoop_eq opening closing h]
    · rw [if_pos hb, if_neg fun heq => hb (Option.some.inj heq)]
      rfl

/-! ### Strings -/

/-- `hex_digit(text(position:position))`, and the loop over the digits ends where it is negative. -/
def hexAt (text : Bytes) (position : ℕ) : Reading ℕ := do
  let b ← load (some text) position
  match hexDigit b with
  | none => refuse
  | some high => return high

/-- The loop over the four digits of a code unit, the first of which is at the position. -/
def hexFour (text : Bytes) (position : ℕ) : Reading (ℕ × ℕ) := do
  let a ← hexAt text position
  let b ← hexAt text (position + 1)
  let c ← hexAt text (position + 2)
  let d ← hexAt text (position + 3)
  return (16 * (16 * (16 * a + b) + c) + d, position + 4)

/-- `case ('u')` of `json_string`; `position` is behind the letter. -/
def unicodeEscape (text : Bytes) (position : ℕ) : Reading (Bytes × ℕ) :=
  if text.length < position + 3 then refuse
  else do
    let (high, behind) ← hexFour text position
    if 55296 ≤ high ∧ high ≤ 56319 ∧ behind + 5 ≤ text.length then
      let mark ← substring text behind (behind + 1)
      if mark ≠ [92, 117] then return (codepoint high, behind)
      else
        let (low, after) ← hexFour text (behind + 2)
        if 56320 ≤ low ∧ low ≤ 57343 then
          return (codepoint (65536 + (high - 55296) * 1024 + (low - 56320)), after)
        -- the second escape is read again on its own
        else return (codepoint high, behind)
    else return (codepoint high, behind)

/-- The `select case` behind a backslash. -/
def escapeCase (text : Bytes) (position : ℕ) : Reading (Bytes × ℕ) := do
  let escaped ← load (some text) position
  if escaped = 34 ∨ escaped = 92 ∨ escaped = 47 then return ([escaped], position + 1)
  else if escaped = 98 then return ([8], position + 1)
  else if escaped = 102 then return ([12], position + 1)
  else if escaped = 110 then return ([10], position + 1)
  else if escaped = 114 then return ([13], position + 1)
  else if escaped = 116 then return ([9], position + 1)
  else if escaped = 117 then unicodeEscape text (position + 1)
  else refuse

/-- One turn of the loop of `json_string` that does not end it. -/
def stringTurn (text : Bytes) (position : ℕ) : Reading (Bytes × ℕ) := do
  let b ← load (some text) position
  if b ≠ 92 then
    if b < 32 then refuse else return ([b], position + 1)
  else if text.length < position + 1 then refuse
  else escapeCase text (position + 1)

theorem hexAt_eq {b : Byte} (h : At text p (b :: s)) :
    hexAt text p = (hexDigit b).elim refuse fun high => .ok high := by
  rw [hexAt, h.load, ok_bind]
  cases hexDigit b <;> rfl

theorem hexFour_reads (h : At text p s) (hlength : 4 ≤ s.length) :
    Reads text (hexFour text p) (Chat.hexFour s) := by
  match s with
  | a :: b :: c :: d :: rest =>
    rw [hexFour, hexAt_eq h, hexAt_eq h.next, hexAt_eq h.next.next, hexAt_eq h.next.next.next, Chat.hexFour]
    cases hexDigit a with
    | none => exact .none
    | some a =>
    cases hexDigit b with
    | none => exact .none
    | some b =>
    cases hexDigit c with
    | none => exact .none
    | some c =>
    cases hexDigit d with
    | none => exact .none
    | some d => exact .some h.next.next.next.next
  | [] | [_] | [_, _] | [_, _, _] =>
    simp only [List.length_cons, List.length_nil] at hlength
    omega

theorem unicodeEscape_reads (h : At text p s) :
    Reads text (unicodeEscape text p) (Chat.unicodeEscape s) := by
  have hlength := h.length_eq
  rw [unicodeEscape]
  by_cases hshort : text.length < p + 3
  · -- fewer than four characters are left
    have hnone : Chat.hexFour s = none := by
      match s with
      | a :: b :: c :: d :: rest =>
        simp only [List.length_cons] at hlength
        omega
      | [] | [_] | [_, _] | [_, _, _] => rfl
    rw [if_pos hshort, Chat.unicodeEscape, hnone]
    exact .none
  rw [if_neg hshort]
  have hfour := hexFour_reads h (by omega)
  rw [Chat.unicodeEscape]
  cases hhigh : Chat.hexFour s with
  | none =>
    rw [hhigh] at hfour
    have hrefuse : hexFour text p = refuse := hfour
    rw [hrefuse]
    exact .none
  | some r =>
    obtain ⟨high, rest⟩ := r
    rw [hhigh] at hfour
    obtain ⟨behind, hbehind, hat⟩ : ∃ q, hexFour text p = .ok (high, q) ∧ At text q rest := hfour
    have hrest : behind + rest.length = text.length + 1 := hat.length_eq
    have hroom : behind + 5 ≤ text.length ↔ 6 ≤ rest.length := by omega
    rw [hbehind, ok_bind]
    simp only [hroom]
    by_cases hsurrogate : 55296 ≤ high ∧ high ≤ 56319 ∧ 6 ≤ rest.length
    · have hmark : (substring text behind (behind + 1) : Reading Bytes) = .ok (rest.take 2) :=
        hat.substring (n := 2) (by omega)
      rw [if_pos hsurrogate, if_pos hsurrogate, hmark, ok_bind]
      by_cases htake : rest.take 2 ≠ [92, 117]
      · rw [if_pos htake, if_pos htake]
        exact .some hat
      rw [if_neg htake, if_neg htake]
      have hlow := hexFour_reads (hat.drop (n := 2) (by omega)) (by rw [List.length_drop]; omega)
      cases hsecond : Chat.hexFour (rest.drop 2) with
      | none =>
        rw [hsecond] at hlow
        have hrefuse : hexFour text (behind + 2) = refuse := hlow
        rw [hrefuse]
        exact .none
      | some r =>
        obtain ⟨low, tail⟩ := r
        rw [hsecond] at hlow
        obtain ⟨after, hafter, hatAfter⟩ : ∃ q, hexFour text (behind + 2) = .ok (low, q) ∧ At text q tail := hlow
        rw [hafter, ok_bind]
        dsimp only
        split_ifs
        · exact .some hatAfter
        · exact .some hat
    · rw [if_neg hsurrogate, if_neg hsurrogate]
      exact .some hat

theorem escapeCase_reads {b : Byte} (h : At text p (b :: s)) :
    Reads text (escapeCase text p) (Chat.escapeCase (b :: s)) := by
  rw [escapeCase, h.load, ok_bind, Chat.escapeCase]
  split_ifs
  all_goals first | exact .some h.next | exact unicodeEscape_reads h.next | exact .none

theorem stringTurn_reads {b : Byte} (h : At text p (b :: s)) :
    Reads text (stringTurn text p) (Chat.stringTurn (b :: s)) := by
  rw [stringTurn, h.load, ok_bind, Chat.stringTurn]
  by_cases hb : b ≠ 92
  · rw [if_pos hb, if_pos hb]
    split_ifs
    · exact .none
    · exact .some h.next
  rw [if_neg hb, if_neg hb]
  cases s with
  | nil =>
    have hend : text.length < p + 1 := Nat.lt_of_not_le fun hle => h.next.le_iff.mp hle rfl
    rw [if_pos hend]
    exact .none
  | cons c s =>
    have hle := h.next.le_iff.mpr (List.cons_ne_nil c s)
    rw [if_neg (Nat.not_lt.mpr hle)]
    exact escapeCase_reads h.next

/-- What stands at a position of the text. -/
theorem exists_at (hpos : 1 ≤ p) (hle : p ≤ text.length) : ∃ b s, At text p (b :: s) := by
  have hdrop : text.drop (p - 1) ≠ [] := by
    rw [← List.length_pos_iff, List.length_drop]
    omega
  obtain ⟨b, s, hs⟩ := List.exists_cons_of_ne_nil hdrop
  refine ⟨b, s, text.take (p - 1), ?_, ?_⟩
  · rw [← hs, List.take_append_drop]
  · rw [List.length_take_of_le (by omega)]
    omega

/-- A turn goes forward. -/
theorem stringTurn_lt {out : Bytes} {next : ℕ} (h : stringTurn text p = .ok (out, next)) : p < next := by
  have hload : 1 ≤ p ∧ p ≤ text.length := by
    by_contra hout
    rw [stringTurn, Storage.load, dif_neg hout] at h
    cases h
  obtain ⟨b, s, hat⟩ := exists_at hload.1 hload.2
  have hreads := stringTurn_reads hat
  cases hturn : Chat.stringTurn (b :: s) with
  | none =>
    rw [hturn] at hreads
    have hrefuse : stringTurn text p = refuse := hreads
    rw [hrefuse] at h
    cases h
  | some r =>
    rw [hturn] at hreads
    obtain ⟨q, hq, hatq⟩ := hreads
    rw [h, Except.ok.injEq, Prod.mk.injEq] at hq
    have hlt := Chat.stringTurn_length (show Chat.stringTurn _ = some (r.1, r.2) from hturn)
    have hp := hat.length_eq
    have hnext := hatq.length_eq
    omega

/-- The loop of `json_string` -/
def stringBody (text : Bytes) (position : ℕ) : Reading (Bytes × ℕ) :=
  if position ≤ text.length then do
    let b ← load (some text) position
    if b = 34 then return ([], position + 1)
    else
      match _h : stringTurn text position with
      | .error e => .error e
      | .ok (out, next) => do
        let (rest, after) ← stringBody text next
        return (out ++ rest, after)
  else refuse
termination_by text.length + 1 - position
decreasing_by
  have := stringTurn_lt _h
  omega

/-- `json_string` -/
def jsonString (text : Bytes) (first : ℕ) : Reading (Bytes × ℕ) :=
  if first < 1 ∨ text.length < first then refuse
  else do
    let b ← load (some text) first
    if b ≠ 34 then refuse else stringBody text (first + 1)

/-- A turn of the loop that does not end it, and then the others. -/
theorem stringBody_of_turn {b : Byte} (h : At text p (b :: s)) (hb : b ≠ 34) :
    stringBody text p = stringTurn text p >>= fun turn =>
      stringBody text turn.2 >>= fun rest => .ok (turn.1 ++ rest.1, rest.2) := by
  rw [stringBody, if_pos (h.le_iff.mpr (List.cons_ne_nil b s)), h.load, ok_bind, if_neg hb]
  split
  · rename_i e he
    rw [he]
    rfl
  · rename_i out next he
    rw [he]
    rfl

theorem stringBody_reads (h : At text p s) : Reads text (stringBody text p) (Chat.stringBody s) := by
  induction s using Chat.stringBody.induct generalizing p with
  | case1 s hquote =>
    obtain ⟨tail, rfl⟩ := List.head?_eq_some_iff.mp hquote
    rw [Chat.stringBody, if_pos hquote, stringBody, if_pos (h.le_iff.mpr (List.cons_ne_nil _ _)), h.load,
      ok_bind, if_pos rfl]
    exact .some h.next
  | case2 s hquote hturn =>
    have hnone : Chat.stringBody s = none := by
      rw [Chat.stringBody, if_neg hquote]
      split
      · rfl
      · rename_i heq
        rw [hturn] at heq
        cases heq
    rw [hnone]
    cases s with
    | nil =>
      rw [stringBody, if_neg fun hle => h.le_iff.mp hle rfl]
      exact .none
    | cons b s =>
      have hb : b ≠ 34 := fun hb => hquote (congrArg some hb)
      have hrefuse : stringTurn text p = refuse := by
        have := stringTurn_reads h
        rwa [hturn] at this
      rw [stringBody_of_turn h hb, hrefuse]
      exact .none
  | case3 s hquote out rest hturn ih =>
    cases s with
    | nil => cases hturn
    | cons b s =>
      have hb : b ≠ 34 := fun hb => hquote (congrArg some hb)
      have hreads := stringTurn_reads h
      rw [hturn] at hreads
      obtain ⟨next, hnext, hat⟩ := hreads
      rw [Chat.stringBody_of_turn hquote hturn, stringBody_of_turn h hb, hnext, ok_bind, Option.map_eq_bind]
      exact (ih hat).bind fun a q r _ hq => .some hq

theorem jsonString_reads (h : At text p s) : Reads text (jsonString text p) (Chat.jsonString s) := by
  have hpos := h.pos
  cases s with
  | nil =>
    have hend : text.length < p := Nat.lt_of_not_le fun hle => h.le_iff.mp hle rfl
    rw [jsonString, if_pos (Or.inr hend)]
    exact .none
  | cons b s =>
    have hle := h.le_iff.mpr (List.cons_ne_nil b s)
    rw [jsonString, if_neg (by omega), h.load, ok_bind, Chat.jsonString, List.head?_cons]
    by_cases hb : b = 34
    · rw [if_neg (not_not.mpr hb), if_pos (congrArg some hb)]
      exact stringBody_reads h.next
    · rw [if_pos hb, if_neg fun heq => hb (Option.some.inj heq)]
      exact .none

/-! ### Values -/

/-- The loop of `json_raw_value` over a value without quotes or brackets. -/
def valueEnd (text : Bytes) (position : ℕ) : Reading ℕ :=
  if position ≤ text.length then do
    let b ← load (some text) position
    if endsValue b then return position else valueEnd text (position + 1)
  else return position
termination_by text.length + 1 - position

/-- `output%length() > 0` -/
def taken (raw : Bytes) (after : ℕ) : Reading (Bytes × ℕ) := if 0 < raw.length then return (raw, after) else refuse

/-- `json_raw_value` -/
def jsonRawValue (text : Bytes) (first : ℕ) : Reading (Bytes × ℕ) :=
  if first < 1 ∨ text.length < first then refuse
  else do
    let b ← load (some text) first
    if b = 34 then
      let (_, after) ← jsonString text first
      let raw ← substring text first (after - 1)
      taken raw after
    else if b = 91 ∨ b = 123 then
      let limit ← matchingDelimiter text first b (if b = 91 then 93 else 125)
      let raw ← substring text first limit
      taken raw (limit + 1)
    else
      let valueEnd ← valueEnd text first
      if valueEnd ≤ first then refuse
      else
        let raw ← substring text first (valueEnd - 1)
        taken raw valueEnd

theorem valueEnd_eq (h : At text p s) : ∃ q, valueEnd text p = .ok q ∧ At text q (s.dropWhile (!endsValue ·)) := by
  induction s generalizing p with
  | nil =>
    exact ⟨p, by rw [valueEnd, if_neg fun hle => h.le_iff.mp hle rfl]; rfl, h⟩
  | cons b s ih =>
    rw [valueEnd, if_pos (h.le_iff.mpr (List.cons_ne_nil b s)), h.load, ok_bind]
    by_cases hends : endsValue b = true
    · refine ⟨p, by rw [if_pos hends]; rfl, ?_⟩
      rw [List.dropWhile_cons_of_neg (by rw [hends]; exact Bool.false_ne_true)]
      exact h
    · obtain ⟨q, hq, hat⟩ := ih h.next
      refine ⟨q, by rw [if_neg hends, hq], ?_⟩
      rw [List.dropWhile_cons_of_pos (by rw [Bool.not_eq_true] at hends; rw [hends]; rfl)]
      exact hat

/-- A part of the text up to where a reader stops. -/
theorem taken_reads {after : ℕ} {rest : Bytes} (h : At text p s) (hafter : At text after rest)
    (hlt : rest.length < s.length) :
    Reads text (substring text p (after - 1) >>= fun raw => taken raw after) (some (s.take (s.length - rest.length), rest)) := by
  have hlength := h.length_eq
  have hrest := hafter.length_eq
  have hlast : after - 1 = p + (s.length - rest.length) - 1 := by omega
  have hfull : 0 < (s.take (s.length - rest.length)).length := by rw [List.length_take]; omega
  rw [hlast, h.substring (by omega), ok_bind, taken, if_pos hfull]
  exact .some hafter

theorem jsonRawValue_reads (h : At text p s) : Reads text (jsonRawValue text p) (Chat.jsonRawValue s) := by
  have hpos := h.pos
  cases s with
  | nil =>
    have hend : text.length < p := Nat.lt_of_not_le fun hle => h.le_iff.mp hle rfl
    rw [jsonRawValue, if_pos (Or.inr hend)]
    exact .none
  | cons b s =>
    have hle := h.le_iff.mpr (List.cons_ne_nil b s)
    rw [jsonRawValue, if_neg (by omega), h.load, ok_bind, Chat.jsonRawValue]
    by_cases hquote : b = 34
    · rw [if_pos hquote, if_pos hquote, Option.map_eq_bind]
      refine (jsonString_reads h).bind fun out after rest hstring hat => ?_
      exact taken_reads h hat (jsonString_length hstring)
    rw [if_neg hquote, if_neg hquote]
    by_cases hbracket : b = 91 ∨ b = 123
    · rw [if_pos hbracket, if_pos hbracket, matchingDelimiter_eq h]
      cases hscan : Chat.matchingDelimiter (b :: s) b (if b = 91 then 93 else 125) with
      | none => exact .none
      | some n =>
        have hn := matchingDelimiter_pos hscan
        have hfit : n ≤ (b :: s).length := matchingDelimiter_le hscan
        have hlength := h.length_eq
        have hat := h.drop hfit
        have htaken := taken_reads h hat (by rw [List.length_drop]; omega)
        have hlast : p + n - 1 + 1 = p + n := by omega
        rw [List.length_drop, Nat.sub_sub_self hfit] at htaken
        rw [Option.elim_some, ok_bind, hlast]
        exact htaken
    rw [if_neg hbracket, if_neg hbracket]
    obtain ⟨q, hq, hat⟩ := valueEnd_eq h
    have hlength := h.length_eq
    have hrest := hat.length_eq
    rw [hq, ok_bind]
    by_cases hends : endsValue b = true
    · rw [List.dropWhile_cons_of_neg (by rw [hends]; exact Bool.false_ne_true)] at hrest
      rw [if_pos hends, if_pos (by omega)]
      exact .none
    · have hdrop : (b :: s).dropWhile (!endsValue ·) = s.dropWhile (!endsValue ·) :=
        List.dropWhile_cons_of_pos (by rw [Bool.not_eq_true] at hends; rw [hends]; rfl)
      have hle : (s.dropWhile (!endsValue ·)).length ≤ s.length := (List.dropWhile_suffix _).length_le
      have hshort : ((b :: s).dropWhile (!endsValue ·)).length < (b :: s).length := by
        rw [hdrop, List.length_cons]
        omega
      have htake : (b :: s).take ((b :: s).length - ((b :: s).dropWhile (!endsValue ·)).length) =
          (b :: s).takeWhile (!endsValue ·) := by
        have hsplit := List.takeWhile_append_dropWhile (p := (!endsValue ·)) (l := b :: s)
        have hsum := congrArg List.length hsplit
        rw [List.length_append] at hsum
        have hcount : (b :: s).length - ((b :: s).dropWhile (!endsValue ·)).length =
            ((b :: s).takeWhile (!endsValue ·)).length := by omega
        rw [hcount]
        exact List.prefix_iff_eq_take.mp (List.takeWhile_prefix _) |>.symm
      rw [if_neg hends, if_neg (by omega), ← htake]
      exact taken_reads h hat hshort

end Positional

end Chat

end FortAI
