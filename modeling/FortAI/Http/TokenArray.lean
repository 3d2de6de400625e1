import FortAI.Chat.Document
import FortAI.Machine.Growable
import FortAI.Settings.Positions
import FortAI.Settings.TopLevel
import FortAI.Tokenizer.Decode

/-!
# Arrays of tokens

`parse_token_array` reads the ids of tokens from a member of a request, and `tokenization_response`
writes them.  The reader takes digits only, so a zero that is written `-0` is refused, and it looks the
member up with `json_top_level_key`, which pads names with blanks.

* `parseTokenArray_ne_outside` : on every text, nothing is read or written out of bounds.
* `parseTokenArray_render` : what is read from the text of an object.
* `tokenArray_iff` : this is what the member of that name holds exactly when no padded name hides it and
  no zero in it has a sign; and the ids that are written are read back.
-/

namespace FortAI

namespace TokenArray

open CString Character Storage Position Growable Chat Settings

/-! ### Reading -/

/-- `max_token_array` -/
def maxTokenArray : ℕ := 1000000

/-- `int(huge(0_int32), int64)` -/
def maxTokenId : ℕ := 2 ^ 31 - 1

/-- `huge(value)` for a 64-bit value -/
def hugeValue : ℕ := 2 ^ 63 - 1

/-- The loop over the digits of an id: the value and `saw_digit`, and the position behind them. -/
def digitsLoop (text : Bytes) (limit cursor value : ℕ) (sawDigit : Bool) : Positional.Reading ((ℕ × Bool) × ℕ) :=
  if cursor < limit then do
    let b ← load (some text) cursor
    if isDigit b then
      let digit := b.toNat - 48
      if (hugeValue - digit) / 10 < value then refuse
      else digitsLoop text limit (cursor + 1) (10 * value + digit) true
    else return ((value, sawDigit), cursor)
  else return ((value, sawDigit), cursor)
termination_by limit - cursor

/-- One id, from the head of the loop on. -/
def readId (text : Bytes) (limit cursor : ℕ) : Positional.Reading (ℕ × ℕ) :=
  if limit ≤ cursor then refuse
  else do
    let b ← load (some text) cursor
    if b = 43 then refuse
    else
      let ((value, sawDigit), behind) ← digitsLoop text limit (if b = 45 then cursor + 1 else cursor) 0 false
      if sawDigit = false ∨ b = 45 ∨ maxTokenId < value then refuse else return (value, behind)

/-- The length of the next `work`: `min(max_token_array, 2 * capacity)` -/
def nextCapacity (capacity : ℕ) : ℕ := if maxTokenArray < 2 * capacity then maxTokenArray else 2 * capacity

/-- `work(count + 1) = value`, in a longer array when it is full. -/
def putId (work : Allocatable ℕ) (count value : ℕ) : Positional.Reading (Allocatable ℕ) :=
  if maxTokenArray ≤ count then refuse
  else do
    let grown ← if count = capacity work then
        overlay (some (List.replicate (nextCapacity (capacity work)) 0)) 1 (work.getD [])
      else .ok work
    store grown (count + 1) value

/-- One turn of the loop: `work`, whether the array ends here, and the position of the next id. -/
def idTurn (text : Bytes) (limit count : ℕ) (work : Allocatable ℕ) (cursor : ℕ) :
    Positional.Reading ((Allocatable ℕ × Bool) × ℕ) := do
  let (value, behind) ← readId text limit cursor
  let work ← putId work count value
  let cursor ← Positional.skipSpace text behind
  if cursor = limit then return ((work, true), cursor)
  else if limit < cursor then refuse
  else
    let b ← load (some text) cursor
    if b ≠ 44 then refuse
    else
      let next ← Positional.skipSpace text (cursor + 1)
      if limit ≤ next then refuse else return ((work, false), next)

section

variable {text s : Bytes} {p : ℕ}

theorem digitsLoop_reads (h : At text p s) {limit : ℕ} (hp : p ≤ limit) (hlimit : limit ≤ text.length) (value : ℕ)
    (sawDigit : Bool) : digitsLoop text limit p value sawDigit = refuse ∨
      ∃ r q rest, digitsLoop text limit p value sawDigit = .ok (r, q) ∧ At text q rest ∧ p ≤ q ∧ q ≤ limit := by
  induction s generalizing p value sawDigit with
  | nil =>
    have := h.length_eq
    rw [List.length_nil] at this
    omega
  | cons b s ih =>
    rw [digitsLoop]
    by_cases hfit : p < limit
    swap
    · exact .inr ⟨(value, sawDigit), p, b :: s, if_neg hfit, h, Nat.le_refl p, hp⟩
    rw [if_pos hfit, h.load, ok_bind]
    by_cases hdigit : isDigit b = true
    swap
    · exact .inr ⟨(value, sawDigit), p, b :: s, if_neg hdigit, h, Nat.le_refl p, hp⟩
    rw [if_pos hdigit]
    dsimp only
    split_ifs
    · exact .inl rfl
    rcases ih h.next hfit (10 * value + (b.toNat - 48)) true with hrefuse | ⟨r, q, rest, hq, hat, hle, hlast⟩
    · exact .inl hrefuse
    · exact .inr ⟨r, q, rest, hq, hat, by omega, hlast⟩

theorem readId_reads (h : At text p s) {limit : ℕ} (hp : p < limit) (hlimit : limit ≤ text.length) :
    readId text limit p = refuse ∨
      ∃ value q rest, readId text limit p = .ok (value, q) ∧ At text q rest ∧ p ≤ q ∧ q ≤ limit := by
  cases s with
  | nil =>
    have := h.length_eq
    rw [List.length_nil] at this
    omega
  | cons b s =>
    rw [readId, if_neg (Nat.not_le.mpr hp), h.load, ok_bind]
    by_cases hplus : b = 43
    · exact .inl (if_pos hplus)
    rw [if_neg hplus]
    -- the digits start at the position, or behind the sign
    obtain ⟨start, hstart, hle, hfit, digits, hat⟩ : ∃ start, (if b = 45 then p + 1 else p) = start ∧ p ≤ start ∧
        start ≤ limit ∧ ∃ digits, At text start digits := by
      by_cases hminus : b = 45
      · exact ⟨p + 1, if_pos hminus, Nat.le_succ p, hp, s, h.next⟩
      · exact ⟨p, if_neg hminus, Nat.le_refl p, hp.le, b :: s, h⟩
    rw [hstart]
    rcases digitsLoop_reads hat hfit hlimit 0 false with hrefuse | ⟨⟨value, saw⟩, q, rest, hq, hatq, hge, hlast⟩
    · exact .inl (by rw [hrefuse]; rfl)
    · rw [hq, ok_bind]
      dsimp only
      split_ifs
      · exact .inl rfl
      · exact .inr ⟨value, q, rest, rfl, hatq, by omega, hlast⟩

/-- The ids so far are at the front of `work`, which is not too long. -/
structure Work (work : Allocatable ℕ) (count : ℕ) (ids : List ℕ) : Prop where
  holds : Holds work count ids
  pos : 1 ≤ capacity work
  le_max : capacity work ≤ maxTokenArray

theorem Work.count_eq {work : Allocatable ℕ} {count : ℕ} {ids : List ℕ} (h : Work work count ids) :
    count = ids.length := h.holds.used_eq

theorem work_start : Work (some (List.replicate 64 0)) 0 [] := ⟨.nil _, by decide, by decide⟩

/-- There is room for one more id until there are as many as the array may hold. -/
theorem putId_spec {work : Allocatable ℕ} {count : ℕ} {ids : List ℕ} (h : Work work count ids) (value : ℕ) :
    (maxTokenArray ≤ count ∧ putId work count value = refuse) ∨
      (count < maxTokenArray ∧ ∃ after, putId work count value = .ok after ∧ Work after (count + 1) (ids ++ [value])) := by
  by_cases hmax : maxTokenArray ≤ count
  · exact .inl ⟨hmax, if_pos hmax⟩
  refine .inr ⟨Nat.lt_of_not_le hmax, ?_⟩
  have hpos := h.pos
  have hle := h.le_max
  have hcount := h.holds.used_le
  obtain ⟨xs, rfl⟩ : ∃ xs, work = some xs := by
    cases work with
    | none => exact absurd hpos (by decide)
    | some xs => exact ⟨xs, rfl⟩
  have hxs : capacity (some xs) = xs.length := rfl
  rw [putId, if_neg hmax]
  by_cases hfull : count = capacity (some xs)
  · -- the ids move into a longer array
    have hnext : count < nextCapacity (capacity (some xs)) ∧ nextCapacity (capacity (some xs)) ≤ maxTokenArray ∧
        1 ≤ nextCapacity (capacity (some xs)) := by
      rw [nextCapacity]
      split_ifs <;> omega
    have hids : ids = xs := by
      have hfront : ids <+: xs := h.holds.front
      refine hfront.eq_of_length ?_
      rw [← h.count_eq, hfull]
      rfl
    have hroom : count ≤ (List.replicate (nextCapacity (capacity (some xs))) 0).length := by
      rw [List.length_replicate]
      exact hnext.1.le
    obtain ⟨zs, hmoved, hlength, hholds⟩ := h.holds.moved (E := Unit) hroom
    rw [List.length_replicate] at hlength
    obtain ⟨ws, hpush, hsame, hnew⟩ := hholds.push (E := Unit) (by omega) value
    have hws : capacity (some ws) = nextCapacity (capacity (some xs)) := hsame.trans hlength
    refine ⟨some ws, ?_, hnew, by omega, by omega⟩
    subst hids
    rw [if_pos hfull, Option.getD_some, hmoved, ok_bind]
    exact hpush
  · obtain ⟨ws, hpush, hsame, hnew⟩ := h.holds.push (E := Unit) (by omega) value
    have hws : capacity (some ws) = capacity (some xs) := hsame
    refine ⟨some ws, ?_, hnew, by omega, by omega⟩
    rw [if_neg hfull, ok_bind]
    exact hpush

theorem idTurn_reads (h : At text p s) {limit count : ℕ} (hp : p < limit) (hlimit : limit ≤ text.length)
    {work : Allocatable ℕ} {ids : List ℕ} (hwork : Work work count ids) :
    idTurn text limit count work p = refuse ∨ ∃ after last q rest value,
      idTurn text limit count work p = .ok ((after, last), q) ∧ At text q rest ∧ p < q ∧ (last = false → q < limit) ∧
        Work after (count + 1) (ids ++ [value]) := by
  rw [idTurn]
  rcases readId_reads h hp hlimit with hrefuse | ⟨value, behind, rest, hread, hat, hle, hbehind⟩
  · exact .inl (by rw [hrefuse]; rfl)
  rw [hread, ok_bind]
  dsimp only
  rcases putId_spec hwork value with ⟨-, hrefuse⟩ | ⟨-, after, hput, hafter⟩
  · exact .inl (by rw [hrefuse]; rfl)
  obtain ⟨cursor, hcursor, hge, hat⟩ := Positional.skipSpace_eq hat
  rw [hput, ok_bind, hcursor, ok_bind]
  by_cases hend : cursor = limit
  · have hforward : p < cursor := by omega
    exact .inr ⟨after, true, cursor, _, value, if_pos hend, hat, hforward, fun hlast => absurd hlast (by decide), hafter⟩
  rw [if_neg hend]
  by_cases hpast : limit < cursor
  · exact .inl (if_pos hpast)
  rw [if_neg hpast]
  have hlength := hat.length_eq
  cases hs : Chat.skipSpace rest with
  | nil =>
    rw [hs, List.length_nil] at hlength
    omega
  | cons b tail =>
    rw [hs] at hat
    obtain ⟨next, hnext, hforward, hatNext⟩ := Positional.skipSpace_eq hat.next
    rw [hat.load, ok_bind, hnext]
    by_cases hcomma : b = 44
    swap
    · exact .inl (if_pos hcomma)
    rw [if_neg (not_not.mpr hcomma), ok_bind]
    by_cases hlast : limit ≤ next
    · exact .inl (if_pos hlast)
    · exact .inr ⟨after, false, next, _, value, if_neg hlast, hatNext, by omega, fun _ => by omega, hafter⟩

/-- A turn goes forward, whatever `work` is. -/
theorem idTurn_lt {limit : Settings.Positional.End text} {count next : ℕ} {work after : Allocatable ℕ} {last : Bool}
    (h : idTurn text limit.position count work p = .ok ((after, last), next)) : p < next ∧ p < limit.position := by
  have hlimit := limit.le_length
  obtain ⟨⟨value, behind⟩, hread, hrest⟩ := bind_eq_ok.mp h
  have hp : p < limit.position := by
    by_contra hge
    rw [readId, if_pos (Nat.not_lt.mp hge)] at hread
    cases hread
  have hpos : 1 ≤ p := by
    by_contra hzero
    rw [readId, if_neg (Nat.not_le.mpr hp), load, dif_neg fun hout => hzero hout.1] at hread
    cases hread
  obtain ⟨b, s, hat⟩ := Positional.exists_at hpos (show p ≤ text.length by omega)
  rcases readId_reads hat hp hlimit with hrefuse | ⟨value', behind', rest, hread', hatBehind, hle, -⟩
  · rw [hrefuse] at hread
    cases hread
  rw [hread, Except.ok.injEq, Prod.mk.injEq] at hread'
  obtain ⟨-, rfl⟩ := hread'
  obtain ⟨put, -, hrest⟩ := bind_eq_ok.mp hrest
  obtain ⟨cursor, hcursor, hrest⟩ := bind_eq_ok.mp hrest
  obtain ⟨cursor', hcursor', hge, hatCursor⟩ := Positional.skipSpace_eq hatBehind
  rw [hcursor, Except.ok.injEq] at hcursor'
  subst hcursor'
  by_cases hend : cursor = limit.position
  · rw [if_pos hend] at hrest
    have hnext : cursor = next := congrArg (fun r : (Allocatable ℕ × Bool) × ℕ => r.2) (Except.ok.inj hrest)
    omega
  rw [if_neg hend] at hrest
  by_cases hpast : limit.position < cursor
  · rw [if_pos hpast] at hrest
    cases hrest
  rw [if_neg hpast] at hrest
  obtain ⟨b, -, hrest⟩ := bind_eq_ok.mp hrest
  by_cases hcomma : b ≠ 44
  · rw [if_pos hcomma] at hrest
    cases hrest
  rw [if_neg hcomma] at hrest
  have hlength := hatCursor.length_eq
  obtain ⟨b', s', hatComma⟩ := Positional.exists_at (show 1 ≤ cursor by omega) (show cursor ≤ text.length by omega)
  obtain ⟨q, hq, hforward, -⟩ := Positional.skipSpace_eq hatComma.next
  rw [hq, ok_bind] at hrest
  by_cases hlast : limit.position ≤ q
  · rw [if_pos hlast] at hrest
    cases hrest
  · rw [if_neg hlast] at hrest
    have hnext : q = next := congrArg (fun r : (Allocatable ℕ × Bool) × ℕ => r.2) (Except.ok.inj hrest)
    omega

/-- The loop over the ids; it ends with `ids = work(:count)`. -/
def idLoop (text : Bytes) (limit : Settings.Positional.End text) (count : ℕ) (work : Allocatable ℕ) (cursor : ℕ) :
    Positional.Reading (List ℕ) :=
  match _h : idTurn text limit.position count work cursor with
  | .error e => .error e
  | .ok ((work, true), _) => substring (work.getD []) 1 (count + 1)
  | .ok ((work, false), next) => idLoop text limit (count + 1) work next
termination_by limit.position - cursor
decreasing_by
  have hnext := idTurn_lt _h
  omega

/-- `parse_token_array`; the array is empty when it gives up. -/
def parseTokenArray (text key : Bytes) : Positional.Reading (List ℕ) := do
  let position ← Settings.Positional.jsonTopLevelKey text key
  if text.length < position then refuse
  else
    let b ← load (some text) position
    if b ≠ 91 then refuse
    else
      let limit ← Settings.Positional.closing text position 91 93
      let cursor ← Positional.skipSpace text (position + 1)
      if cursor = limit.position then return []
      else if limit.position < cursor then refuse
      else idLoop text limit 0 (some (List.replicate 64 0)) cursor

theorem idLoop_of_turn (limit : Settings.Positional.End text) (count : ℕ) (work : Allocatable ℕ) (p : ℕ) :
    idLoop text limit count work p = idTurn text limit.position count work p >>= fun r =>
      if r.1.2 then substring (r.1.1.getD []) 1 (count + 1) else idLoop text limit (count + 1) r.1.1 r.2 := by
  rw [idLoop]
  split
  · rename_i e he
    rw [he]
    rfl
  · rename_i after q he
    rw [he]
    rfl
  · rename_i after next he
    rw [he]
    rfl

theorem Work.ids_eq {work : Allocatable ℕ} {count : ℕ} {ids : List ℕ} (h : Work work count ids) :
    (substring (work.getD []) 1 count : Positional.Reading (List ℕ)) = .ok ids := by
  have hpos := h.pos
  have hholds := h.holds
  cases work with
  | none => exact absurd hpos (by decide)
  | some xs => exact hholds.substring_eq

theorem idLoop_ne_outside {limit : Settings.Positional.End text} {count : ℕ} {work : Allocatable ℕ} {ids : List ℕ}
    (hwork : Work work count ids) (h : At text p s) (hp : p < limit.position) :
    idLoop text limit count work p ≠ .error .outside := by
  induction hn : limit.position - p using Nat.strong_induction_on generalizing p s count work ids with
  | _ n ih =>
    subst hn
    rw [idLoop_of_turn]
    rcases idTurn_reads h hp limit.le_length hwork with
      hrefuse | ⟨after, last, q, rest, value, hturn, hat, hlt, hlast, hafter⟩
    · rw [hrefuse]
      exact fun heq => by cases heq
    rw [hturn, ok_bind]
    cases last with
    | true =>
      rw [if_pos rfl, hafter.ids_eq]
      exact fun heq => by cases heq
    | false => exact ih (limit.position - q) (by have := hlast rfl; omega) hafter hat (hlast rfl) rfl

/-- Whatever the text is, nothing is looked at or stored out of bounds. -/
theorem parseTokenArray_ne_outside (text key : Bytes) : parseTokenArray text key ≠ .error .outside := by
  have hne {x : Positional.Reading (List ℕ)} (hx : x = refuse) : x ≠ .error .outside := by
    rw [hx]
    exact fun heq => by cases heq
  rw [parseTokenArray]
  have hfinds := Settings.Positional.jsonTopLevelKey_finds text key
  cases hkey : Settings.jsonTopLevelKey text key with
  | none =>
    rw [hkey] at hfinds
    have hrefuse : Settings.Positional.jsonTopLevelKey text key = refuse := hfinds
    exact hne (by rw [hrefuse]; rfl)
  | some s =>
    rw [hkey] at hfinds
    obtain ⟨p, hp, hat⟩ := hfinds
    rw [hp, ok_bind]
    by_cases hend : text.length < p
    · exact hne (if_pos hend)
    rw [if_neg hend]
    have hpos := hat.pos
    obtain ⟨b, s, hat⟩ := Positional.exists_at hpos (Nat.not_lt.mp hend)
    rw [hat.load, ok_bind]
    by_cases hopen : b ≠ 91
    · exact hne (if_pos hopen)
    rw [if_neg hopen]
    have hclosing := Settings.Positional.closing_eq hat 91 93
    cases hscan : Chat.matchingDelimiter (b :: s) 91 93 with
    | none =>
      rw [hscan] at hclosing
      have hrefuse : Settings.Positional.closing text p 91 93 = refuse := hclosing
      exact hne (by rw [hrefuse]; rfl)
    | some n =>
      rw [hscan] at hclosing
      obtain ⟨limit, hlimit, -⟩ := hclosing
      obtain ⟨cursor, hcursor, -, hatCursor⟩ := Positional.skipSpace_eq hat.next
      rw [hlimit, ok_bind, hcursor, ok_bind]
      by_cases hempty : cursor = limit.position
      · rw [if_pos hempty]
        exact fun heq => by cases heq
      rw [if_neg hempty]
      by_cases hpast : limit.position < cursor
      · exact hne (if_pos hpast)
      rw [if_neg hpast]
      exact idLoop_ne_outside work_start hatCursor (by omega)

/-! ### What is read -/

/-- The number that a text of digits stands for, when `value` stands for what is before it. -/
def behindDigits (value : ℕ) (digits : Bytes) : ℕ :=
  Nat.ofDigitChars 10 (digits.map fun b => Char.ofNat b.toNat) value

theorem behindDigits_cons (value : ℕ) (b : Byte) (digits : Bytes) :
    behindDigits value (b :: digits) = behindDigits (10 * value + (b.toNat - 48)) digits := by
  have hchar : (Char.ofNat b.toNat).toNat = b.toNat := by
    have hvalid : b.toNat.isValidChar := Or.inl (b.toNat_lt.trans (by decide))
    rw [Char.ofNat, dif_pos hvalid]
    rfl
  rw [behindDigits, List.map_cons, Nat.ofDigitChars_cons, hchar]
  rfl

theorem le_behindDigits (value : ℕ) (digits : Bytes) : value ≤ behindDigits value digits := by
  rw [behindDigits, Nat.ofDigitChars_eq_ofDigitChars_zero]
  have hpos : 0 < 10 ^ (digits.map fun b => Char.ofNat b.toNat).length := Nat.pow_pos (by decide)
  exact (Nat.le_mul_of_pos_left value hpos).trans (Nat.le_add_right _ _)

/-- The digits are read to their end, unless the number is too large. -/
theorem digitsLoop_digits {limit : ℕ} {rest : Bytes} {b : Byte} (hb : isDigit b = false) :
    ∀ {digits : Bytes} {p : ℕ} (value : ℕ) (saw : Bool), digits.all isDigit = true → At text p (digits ++ b :: rest) →
      p + digits.length ≤ limit → limit ≤ text.length →
        digitsLoop text limit p value saw = .ok ((behindDigits value digits, saw || !digits.isEmpty), p + digits.length) ∨
          (digitsLoop text limit p value saw = refuse ∧ maxTokenId < behindDigits value digits)
  | [], p, value, saw, _, h, hfit, hlimit => by
    left
    rw [digitsLoop]
    by_cases hp : p < limit
    · rw [if_pos hp, h.load, ok_bind, if_neg (by rw [hb]; exact Bool.false_ne_true), List.isEmpty_nil, Bool.not_true,
        Bool.or_false]
      rfl
    · rw [if_neg hp, List.isEmpty_nil, Bool.not_true, Bool.or_false]
      rfl
  | d :: digits, p, value, saw, hall, h, hfit, hlimit => by
    rw [List.all_cons, Bool.and_eq_true] at hall
    rw [List.length_cons] at hfit
    rw [behindDigits_cons, digitsLoop, if_pos (show p < limit by omega), h.load, ok_bind, if_pos hall.1]
    dsimp only
    have hgrows := le_behindDigits (10 * value + (d.toNat - 48)) digits
    by_cases hlarge : (hugeValue - (d.toNat - 48)) / 10 < value
    · refine .inr ⟨if_pos hlarge, ?_⟩
      have hhuge : hugeValue = 2 ^ 63 - 1 := rfl
      have hmax : maxTokenId = 2 ^ 31 - 1 := rfl
      omega
    rw [if_neg hlarge]
    have hlength : p + (d :: digits).length = p + 1 + digits.length := by rw [List.length_cons]; omega
    have hsaw : (saw || !(d :: digits).isEmpty) = (true || !digits.isEmpty) := by
      rw [Bool.true_or, List.isEmpty_cons, Bool.not_false, Bool.or_true]
    rw [hlength, hsaw]
    exact digitsLoop_digits hb _ _ hall.2 h.next (by omega) hlimit

/-- A token id: an integer that is not negative and not too large. -/
def idOf (v : Json .value) : Option ℕ :=
  (Document.integerOf v).bind fun n => if 0 ≤ n ∧ n ≤ maxTokenId then some n.toNat else none

/-- The ids that an array holds, when there are not too many. -/
def idsOf (v : Json .value) : Option (List ℕ) :=
  (Document.elementsOf v).bind fun vs => if vs.length ≤ maxTokenArray then vs.mapM idOf else none

/-- A number with a sign. -/
def hasSign : Json .value → Bool
  | .number n => n.minus
  | _ => false

/-- A token id in digits alone. -/
def digitsOf (v : Json .value) : Option ℕ := if hasSign v then none else idOf v

/-- What is behind the integer of a number. -/
def behindInt (n : Number) : Bytes :=
  (n.fraction.elim [] fun d => 46 :: d.bytes) ++ n.exponent.elim [] fun e => e.1 :: (e.2.1 ++ e.2.2.bytes)

theorem render_number (n : Number) : n.render = (if n.minus then [45] else []) ++ (n.int.bytes ++ behindInt n) := by
  rw [Number.render, behindInt]
  simp only [List.append_assoc]

/-- What is behind the integer starts with a point or with the mark of an exponent. -/
theorem behindInt_cases (n : Number) :
    (n.fraction = none ∧ n.exponent = none ∧ behindInt n = []) ∨
      ((n.fraction ≠ none ∨ n.exponent ≠ none) ∧ ∃ b tail, behindInt n = b :: tail ∧ isDigit b = false ∧ isGap b = false ∧
        b ≠ 44 ∧ b ≠ 93) := by
  have hmark := n.mark
  rw [behindInt]
  cases hf : n.fraction with
  | some d =>
    refine .inr ⟨.inl (Option.some_ne_none d), 46, _, rfl, ?_⟩
    decide
  | none =>
    cases he : n.exponent with
    | none => exact .inl ⟨rfl, rfl, rfl⟩
    | some e =>
      refine .inr ⟨.inr (Option.some_ne_none e), e.1, _, rfl, ?_⟩
      rcases (hmark e he).1 with heq | heq
      all_goals
        rw [heq]
        decide

/-- The id that stands in digits alone. -/
theorem digitsOf_number (n : Number) : digitsOf (.number n) =
    if n.minus = false ∧ (n.fraction = none ∧ n.exponent = none) ∧ value n.int.bytes ≤ maxTokenId then
      some (value n.int.bytes) else none := by
  obtain ⟨minus, int, fraction, exponent, hzero, hmark⟩ := n
  cases minus with
  | true => rfl
  | false =>
    cases fraction with
    | some d => rfl
    | none =>
      cases exponent with
      | some e => rfl
      | none =>
        show (if (0 : ℤ) ≤ (value int.bytes : ℤ) ∧ (value int.bytes : ℤ) ≤ (maxTokenId : ℤ) then
          some (value int.bytes : ℤ).toNat else none) = _
        by_cases hle : value int.bytes ≤ maxTokenId
        · rw [if_pos ⟨Int.natCast_nonneg _, Int.ofNat_le.mpr hle⟩, if_pos ⟨rfl, ⟨rfl, rfl⟩, hle⟩, Int.toNat_natCast]
        · rw [if_neg fun h => hle (Int.ofNat_le.mp h.2), if_neg fun h => hle h.2.2]

/-- A number is read up to the end of its integer, and one with a sign is refused. -/
theorem readId_number {n : Number} {b : Byte} {rest : Bytes} (hb : isDigit b = false)
    (h : At text p (n.render ++ b :: rest)) {limit : ℕ} (hfit : p + n.render.length ≤ limit)
    (hlimit : limit ≤ text.length) :
    readId text limit p =
      if n.minus = false ∧ value n.int.bytes ≤ maxTokenId then .ok (value n.int.bytes, p + n.int.bytes.length)
      else refuse := by
  obtain ⟨d, ds, hint⟩ := List.exists_cons_of_ne_nil n.int.ne_nil
  have hdigits := n.int.digit
  have hd : isDigit d = true := by
    rw [hint, List.all_cons, Bool.and_eq_true] at hdigits
    exact hdigits.1
  -- what is behind the integer does not start with a digit
  obtain ⟨c, tail, hbehind, hc⟩ : ∃ c tail, behindInt n ++ b :: rest = c :: tail ∧ isDigit c = false := by
    rcases behindInt_cases n with ⟨-, -, hnil⟩ | ⟨-, c, tail, htail, hc, -⟩
    · exact ⟨b, rest, by rw [hnil]; rfl, hb⟩
    · exact ⟨c, tail ++ b :: rest, by rw [htail]; rfl, hc⟩
  have hlength := congrArg List.length (render_number n)
  rw [render_number, List.append_assoc, List.append_assoc, hbehind] at h
  rw [List.length_append, List.length_append, hint, List.length_cons] at hlength
  rw [readId, if_neg (show ¬ limit ≤ p by omega)]
  cases hminus : n.minus with
  | true =>
    rw [hminus] at h hlength
    have hstart : At text p (45 :: (n.int.bytes ++ c :: tail)) := h
    rw [if_pos rfl, List.length_singleton] at hlength
    rw [hstart.load, ok_bind, if_neg (by decide), if_pos rfl, if_neg fun hand => Bool.noConfusion hand.1]
    rcases digitsLoop_digits hc 0 false hdigits hstart.next
      (show p + 1 + n.int.bytes.length ≤ limit by rw [hint, List.length_cons]; omega) hlimit with hok | ⟨hrefuse, -⟩
    · rw [hok, ok_bind]
      exact if_pos (.inr (.inl rfl))
    · rw [hrefuse]
      rfl
  | false =>
    rw [hminus] at h hlength
    have hstart : At text p (d :: (ds ++ c :: tail)) := by
      have hshape : d :: (ds ++ c :: tail) = n.int.bytes ++ c :: tail := by rw [hint]; rfl
      rw [hshape]
      exact h
    have hplus : d ≠ 43 := fun heq => by rw [heq] at hd; cases hd
    have hminus : d ≠ 45 := fun heq => by rw [heq] at hd; cases hd
    rw [hstart.load, ok_bind, if_neg hplus, if_neg hminus]
    have hvalue : behindDigits 0 n.int.bytes = value n.int.bytes := rfl
    rcases digitsLoop_digits hc 0 false hdigits h
      (show p + n.int.bytes.length ≤ limit by
        rw [hint, List.length_cons]
        rw [if_neg Bool.false_ne_true, List.length_nil] at hlength
        omega) hlimit with hok | ⟨hrefuse, hlarge⟩
    · have hsaw : (false || !n.int.bytes.isEmpty) = true := by rw [hint]; rfl
      rw [hok, ok_bind, hsaw, hvalue]
      dsimp only
      by_cases hle : value n.int.bytes ≤ maxTokenId
      · have hall : ¬ (true = false ∨ d = 45 ∨ maxTokenId < value n.int.bytes) := by
          rintro (hsaw | heq | hlt)
          · cases hsaw
          · exact hminus heq
          · omega
        rw [if_neg hall, if_pos ⟨rfl, hle⟩]
        rfl
      · rw [if_pos (.inr (.inr (Nat.lt_of_not_le hle))), if_neg fun hand => hle hand.2]
    · rw [hrefuse, if_neg fun hand => by rw [hvalue] at hlarge; omega]
      rfl

/-- What is no number is refused. -/
theorem readId_other {v : Json .value} (hv : ∀ n, v ≠ .number n) {rest : Bytes} (h : At text p (v.render ++ rest))
    (limit : ℕ) : readId text limit p = refuse := by
  obtain ⟨b, tail, hrender, hdigit, hminus, hplus⟩ : ∃ b tail, v.render = b :: tail ∧ isDigit b = false ∧ b ≠ 45 ∧ b ≠ 43 :=
    by
    rcases render_cases v with hnumeric | hother
    · obtain ⟨b, tail, hrender, -⟩ := exists_cons_render v
      cases v with
      | number n => exact absurd rfl (hv n)
      | literal l => cases l <;> exact absurd (hnumeric _ List.mem_cons_self) (by decide)
      | string text => exact absurd (hnumeric 34 List.mem_cons_self) (by decide)
      | array gap elements => exact absurd (hnumeric 91 List.mem_cons_self) (by decide)
      | object gap members => exact absurd (hnumeric 123 List.mem_cons_self) (by decide)
    · exact hother
  rw [hrender] at h
  have hstart : At text p (b :: (tail ++ rest)) := h
  rw [readId]
  by_cases hp : limit ≤ p
  · exact if_pos hp
  rw [if_neg hp, hstart.load, ok_bind, if_neg hplus, if_neg hminus, digitsLoop, if_pos (Nat.lt_of_not_le hp),
    hstart.load,
    ok_bind, if_neg (by rw [hdigit]; exact Bool.false_ne_true)]
  rfl

/-- What is behind an element does not start with a digit. -/
theorem behind_value (gap : Gap) {b : Byte} (hb : b = 44 ∨ b = 93) (rest : Bytes) :
    ∃ c tail, gap.bytes ++ b :: rest = c :: tail ∧ isDigit c = false := by
  have hblank := gap.blank
  cases hbytes : gap.bytes with
  | nil => exact ⟨b, rest, rfl, by rcases hb with rfl | rfl <;> rfl⟩
  | cons c cs =>
    rw [hbytes, List.all_cons, Bool.and_eq_true] at hblank
    refine ⟨c, cs ++ b :: rest, rfl, ?_⟩
    have hcases := hblank.1
    simp only [isGap, Bool.or_eq_true, decide_eq_true_eq] at hcases
    rcases hcases with ((rfl | rfl) | rfl) | rfl <;> rfl

/-- A turn over an element that is no id in digits alone. -/
theorem idTurn_refused {v : Json .value} (hv : digitsOf v = none) {gap : Gap} {b : Byte} {rest : Bytes}
    (hb : b = 44 ∨ b = 93) (h : At text p (v.render ++ (gap.bytes ++ b :: rest))) {limit : ℕ}
    (hfit : p + v.render.length + gap.bytes.length ≤ limit) (hlimit : limit ≤ text.length) {work : Allocatable ℕ}
    {count : ℕ} {ids : List ℕ} (hwork : Work work count ids) : idTurn text limit count work p = refuse := by
  by_cases hnumber : ∃ n, v = .number n
  swap
  · rw [idTurn, readId_other (fun n heq => hnumber ⟨n, heq⟩) h limit]
    rfl
  obtain ⟨n, rfl⟩ := hnumber
  rw [digitsOf_number] at hv
  obtain ⟨c, tail, hgap, hc⟩ := behind_value gap hb rest
  rw [hgap] at h
  have hread := readId_number hc h (show p + n.render.length ≤ limit from le_trans (Nat.le_add_right _ _) hfit) hlimit
  rw [idTurn]
  by_cases hid : n.minus = false ∧ value n.int.bytes ≤ maxTokenId
  swap
  · rw [hread, if_neg hid]
    rfl
  rw [hread, if_pos hid, ok_bind]
  dsimp only
  rcases putId_spec hwork (value n.int.bytes) with ⟨-, hrefuse⟩ | ⟨-, after, hput, -⟩
  · rw [hrefuse]
    rfl
  -- a fraction or an exponent stands behind the digits
  rcases behindInt_cases n with ⟨hfraction, hexponent, -⟩ | ⟨-, e, more, hmore, -, hgapE, hcomma, hbracket⟩
  · rw [if_pos ⟨hid.1, ⟨hfraction, hexponent⟩, hid.2⟩] at hv
    cases hv
  have hrender : (Json.number n).render = n.int.bytes ++ e :: more := by
    show n.render = _
    rw [render_number, hid.1, hmore]
    rfl
  rw [hrender, List.append_assoc] at h
  have hat : At text (p + n.int.bytes.length) (e :: (more ++ c :: tail)) := h.skip
  obtain ⟨cursor, hcursor, -, hatCursor⟩ := Positional.skipSpace_eq hat
  rw [skipSpace_cons hgapE] at hatCursor
  have hplace : cursor = p + n.int.bytes.length := by
    have hleft := hat.length_eq
    have hright := hatCursor.length_eq
    omega
  have hbefore : cursor < limit := by
    rw [hrender, List.length_append, List.length_cons] at hfit
    omega
  rw [hput, ok_bind, hcursor, ok_bind, if_neg (Nat.ne_of_lt hbefore), if_neg (Nat.lt_asymm hbefore),
    hatCursor.load, ok_bind,
    if_pos hcomma]

/-- A turn over an id in digits alone, up to what stands behind it. -/
theorem idTurn_id {v : Json .value} {id : ℕ} (hv : digitsOf v = some id) {gap : Gap} {b : Byte} {rest : Bytes}
    (hb : b = 44 ∨ b = 93) (h : At text p (v.render ++ (gap.bytes ++ b :: rest))) {limit : ℕ}
    (hfit : p + v.render.length + gap.bytes.length ≤ limit) (hlimit : limit ≤ text.length) (count : ℕ)
    (work : Allocatable ℕ) :
    ∃ cursor, At text cursor (b :: rest) ∧ cursor = p + v.render.length + gap.bytes.length ∧
      idTurn text limit count work p = putId work count id >>= fun after =>
        if cursor = limit then .ok ((after, true), cursor)
        else if limit < cursor then refuse
        else if b ≠ 44 then refuse
        else Positional.skipSpace text (cursor + 1) >>= fun next =>
          if limit ≤ next then refuse else .ok ((after, false), next) := by
  obtain ⟨n, rfl⟩ : ∃ n, v = .number n := by
    cases v with
    | number n => exact ⟨n, rfl⟩
    | literal | string | array | object => cases hv
  rw [digitsOf_number] at hv
  by_cases hplain : n.minus = false ∧ (n.fraction = none ∧ n.exponent = none) ∧ value n.int.bytes ≤ maxTokenId
  swap
  · rw [if_neg hplain] at hv
    cases hv
  rw [if_pos hplain, Option.some.injEq] at hv
  obtain ⟨hminus, ⟨hfraction, hexponent⟩, hle⟩ := hplain
  have hrender : n.render = n.int.bytes := by
    rw [render_number, hminus, behindInt, hfraction, hexponent]
    exact List.append_nil _
  have hbgap : isGap b = false := by rcases hb with rfl | rfl <;> rfl
  obtain ⟨c, tail, hgap, hc⟩ := behind_value gap hb rest
  have hread :=
    readId_number hc (hgap ▸ h) (show p + n.render.length ≤ limit from le_trans (Nat.le_add_right _ _) hfit) hlimit
  have hbehind : At text (p + n.int.bytes.length) (gap.bytes ++ b :: rest) := by
    have hshape : At text p (n.int.bytes ++ (gap.bytes ++ b :: rest)) := hrender ▸ h
    exact hshape.skip
  obtain ⟨cursor, hcursor, -, hat⟩ := Positional.skipSpace_eq hbehind
  rw [skipSpace_gap_cons gap hbgap] at hat
  have hplace : cursor = p + n.render.length + gap.bytes.length := by
    have hleft := hbehind.length_eq
    have hright := hat.length_eq
    rw [List.length_append] at hleft
    rw [hrender]
    omega
  refine ⟨cursor, hat, hplace, ?_⟩
  rw [idTurn, hread, if_pos ⟨hminus, hle⟩, ok_bind, hv]
  dsimp only
  rw [hcursor]
  cases putId work count id with
  | error e => rfl
  | ok after =>
    rw [ok_bind, ok_bind, ok_bind]
    by_cases hend : cursor = limit
    · rw [if_pos hend, if_pos hend]
      rfl
    rw [if_neg hend, if_neg hend, hat.load, ok_bind]
    rfl

/-- What the loop returns for the elements that are left. -/
def expected (ids : List ℕ) (vs : List (Json .value)) : Positional.Reading (List ℕ) :=
  (vs.mapM digitsOf).elim refuse fun new => if ids.length + new.length ≤ maxTokenArray then .ok (ids ++ new) else refuse

theorem expected_refused {v : Json .value} (hv : digitsOf v = none) (ids : List ℕ) (vs : List (Json .value)) :
    expected ids (v :: vs) = refuse := by
  rw [expected, List.mapM_cons, hv]
  rfl

theorem expected_full {v : Json .value} {id : ℕ} (hv : digitsOf v = some id) {ids : List ℕ}
    (hfull : maxTokenArray ≤ ids.length)
    (vs : List (Json .value)) : expected ids (v :: vs) = refuse := by
  rw [expected, List.mapM_cons, hv]
  cases hvs : vs.mapM digitsOf with
  | none => rfl
  | some new =>
    show (if ids.length + (id :: new).length ≤ maxTokenArray then _ else _) = _
    rw [List.length_cons, if_neg (by omega)]

theorem expected_cons {v : Json .value} {id : ℕ} (hv : digitsOf v = some id) (ids : List ℕ)
    (vs : List (Json .value)) :
    expected ids (v :: vs) = expected (ids ++ [id]) vs := by
  rw [expected, expected, List.mapM_cons, hv]
  cases hvs : vs.mapM digitsOf with
  | none => rfl
  | some new =>
    show (if ids.length + (id :: new).length ≤ maxTokenArray then Except.ok (ids ++ id :: new) else refuse) =
      if (ids ++ [id]).length + new.length ≤ maxTokenArray then Except.ok (ids ++ [id] ++ new) else refuse
    have hlength : ids.length + (id :: new).length = (ids ++ [id]).length + new.length := by
      rw [List.length_cons, List.length_append, List.length_singleton]
      omega
    rw [hlength, List.append_assoc]
    rfl

/-- The loop, from the first of the elements that are left. -/
theorem idLoop_render {limit : Settings.Positional.End text} {tail : Bytes}
    (hlimit : At text limit.position (93 :: tail))
    {k : Kind} (j : Json k) (hk : k = .elements) :
    ∀ {p count : ℕ} {work : Allocatable ℕ} {ids : List ℕ} (v : Json .value) (gap : Gap), Work work count ids →
      At text p (v.render ++ (gap.bytes ++ (j.comma ++ (j.render ++ 93 :: tail)))) →
        idLoop text limit count work p = expected ids (v :: j.elementList) := by
  have hend := hlimit.length_eq
  rw [List.length_cons] at hend
  induction j with
  | literal | number | string | array | object | noMember | member => exact nomatch hk
  | noElement =>
    intro p count work ids v gap hwork h
    have hshape : At text p (v.render ++ (gap.bytes ++ 93 :: tail)) := h
    have hlength := hshape.length_eq
    rw [List.length_append, List.length_append, List.length_cons] at hlength
    have hfit : p + v.render.length + gap.bytes.length = limit.position := by omega
    rw [idLoop_of_turn]
    cases hv : digitsOf v with
    | none =>
      rw [idTurn_refused hv (.inr rfl) hshape (Nat.le_of_eq hfit) limit.le_length hwork, expected_refused hv]
      rfl
    | some id =>
      obtain ⟨cursor, -, hcursor, hturn⟩ :=
        idTurn_id hv (.inr rfl) hshape (Nat.le_of_eq hfit) limit.le_length count work
      have hlast : cursor = limit.position := hcursor.trans hfit
      rw [hturn]
      rcases putId_spec hwork id with ⟨hfull, hrefuse⟩ | ⟨hroom, after, hput, hafter⟩
      · rw [hrefuse, expected_full hv (by rw [← hwork.count_eq]; exact hfull)]
        rfl
      · rw [hput, ok_bind, if_pos hlast, ok_bind, if_pos rfl, hafter.ids_eq, expected_cons hv]
        have hsize : (ids ++ [id]).length + ([] : List ℕ).length ≤ maxTokenArray := by
          rw [← hafter.count_eq]
          exact hroom
        show _ = if (ids ++ [id]).length + ([] : List ℕ).length ≤ maxTokenArray then Except.ok (ids ++ [id] ++ []) else refuse
        rw [if_pos hsize, List.append_nil]
  | element before v' after' rest ihv ihrest =>
    intro p count work ids v gap hwork h
    set behind := before.bytes ++ (v'.render ++ (after'.bytes ++ (rest.comma ++ (rest.render ++ 93 :: tail)))) with hbehind
    have hshape : At text p (v.render ++ (gap.bytes ++ 44 :: behind)) := by
      have hsame : v.render ++ (gap.bytes ++ ((Json.element before v' after' rest).comma ++
          ((Json.element before v' after' rest).render ++ 93 :: tail))) = v.render ++ (gap.bytes ++ 44 :: behind) := by
        simp only [hbehind, Json.comma, Json.render, List.append_assoc, List.cons_append, List.nil_append]
      exact hsame ▸ h
    have hlength := hshape.length_eq
    have hlast : tail.length < behind.length := by
      simp only [hbehind, List.length_append, List.length_cons]
      omega
    rw [List.length_append, List.length_append, List.length_cons] at hlength
    have hfit : p + v.render.length + gap.bytes.length ≤ limit.position := by omega
    rw [idLoop_of_turn]
    cases hv : digitsOf v with
    | none =>
      rw [idTurn_refused hv (.inl rfl) hshape hfit limit.le_length hwork, expected_refused hv]
      rfl
    | some id =>
      obtain ⟨cursor, hat, hcursor, hturn⟩ := idTurn_id hv (.inl rfl) hshape hfit limit.le_length count work
      rw [hturn]
      rcases putId_spec hwork id with ⟨hfull, hrefuse⟩ | ⟨-, after, hput, hafter⟩
      · rw [hrefuse, expected_full hv (by rw [← hwork.count_eq]; exact hfull)]
        rfl
      obtain ⟨next, hnext, -, hatNext⟩ := Positional.skipSpace_eq hat.next
      rw [hbehind, skipSpace_render] at hatNext
      have hplace := hatNext.length_eq
      simp only [List.length_append, List.length_cons] at hplace
      have hpos := render_pos v'
      have hbefore : next < limit.position := by omega
      rw [hput, ok_bind, if_neg (by omega), if_neg (by omega), if_neg (by decide), hnext, ok_bind,
        if_neg (by omega), ok_bind,
        if_neg Bool.false_ne_true, expected_cons hv]
      exact ihrest rfl v' after' hafter hatNext

/-! ### The member that is read -/

/-- The ids that an array holds, each in digits alone. -/
def digitIdsOf (v : Json .value) : Option (List ℕ) :=
  (Document.elementsOf v).bind fun vs => if vs.length ≤ maxTokenArray then vs.mapM digitsOf else none

theorem length_of_mapM {α β : Type} {f : α → Option β} {xs : List α} {ys : List β} (h : xs.mapM f = some ys) :
    ys.length = xs.length := by
  induction xs generalizing ys with
  | nil =>
    rw [List.mapM_nil] at h
    exact congrArg List.length (Option.some.inj h).symm
  | cons x xs ih =>
    rw [List.mapM_cons] at h
    obtain ⟨y, -, hrest⟩ := Option.bind_eq_some_iff.mp h
    obtain ⟨zs, hzs, hys⟩ := Option.bind_eq_some_iff.mp hrest
    rw [← Option.some.inj hys, List.length_cons, List.length_cons, ih hzs]

theorem expected_nil (vs : List (Json .value)) :
    expected [] vs = (if vs.length ≤ maxTokenArray then vs.mapM digitsOf else none).elim refuse .ok := by
  rw [expected]
  cases hvs : vs.mapM digitsOf with
  | none => rw [ite_self]; rfl
  | some new =>
    rw [← length_of_mapM hvs]
    show (if 0 + new.length ≤ maxTokenArray then Except.ok ([] ++ new) else refuse) = _
    rw [Nat.zero_add, List.nil_append]
    split_ifs <;> rfl

/-- Only an array starts with its bracket. -/
theorem head_ne_bracket {v : Json .value} (hv : Document.elementsOf v = none) :
    ∃ b tail, v.render = b :: tail ∧ b ≠ 91 := by
  cases v with
  | array gap elements => cases hv
  | literal l => cases l <;> exact ⟨_, _, rfl, by decide⟩
  | string text => exact ⟨34, _, rfl, by decide⟩
  | object gap members => exact ⟨123, _, rfl, by decide⟩
  | number n =>
    obtain ⟨b, tail, hrender, -⟩ := exists_cons_render (.number n)
    refine ⟨b, tail, hrender, fun heq => ?_⟩
    have hnumeric : isNumeric b = true := numeric_render n b (by
      show b ∈ (Json.number n).render
      rw [hrender]
      exact List.mem_cons_self)
    rw [heq] at hnumeric
    cases hnumeric

/-- What is read when the lookup finds this value. -/
theorem parseTokenArray_value {key : Bytes} {v : Json .value} {behind : Bytes}
    (h : Settings.jsonTopLevelKey text key = some (v.render ++ behind)) :
    parseTokenArray text key = (digitIdsOf v).elim refuse .ok := by
  have hfinds := Settings.Positional.jsonTopLevelKey_finds text key
  rw [h] at hfinds
  obtain ⟨p, hp, hat⟩ := hfinds
  rw [parseTokenArray, hp, ok_bind]
  cases helements : Document.elementsOf v with
  | none =>
    obtain ⟨b, tail, hrender, hb⟩ := head_ne_bracket helements
    rw [hrender, List.cons_append] at hat
    have hle := hat.le_iff.mpr (List.cons_ne_nil b _)
    rw [if_neg (Nat.not_lt.mpr hle), hat.load, ok_bind, if_pos hb, digitIdsOf, helements]
    rfl
  | some vs =>
    obtain ⟨gap, elements, rfl, rfl⟩ : ∃ gap elements, v = .array gap elements ∧ elements.elementList = vs := by
      cases v with
      | array gap elements => exact ⟨gap, elements, rfl, Option.some.inj helements⟩
      | literal | number | string | object => cases helements
    have hclosing := Settings.Positional.closing_eq hat 91 93
    rw [matchingDelimiter_array] at hclosing
    obtain ⟨limit, hlimit, hplace⟩ := hclosing
    set inner := gap.bytes ++ (elements.render ++ 93 :: behind) with hinner
    have hshape : (Json.array gap elements).render ++ behind = 91 :: inner := by
      simp only [hinner, Json.render, List.cons_append, List.append_assoc, List.nil_append]
    have hlength := congrArg List.length hshape
    rw [List.length_append, List.length_cons] at hlength
    have hstart := hat.length_eq
    rw [List.length_append] at hstart
    rw [hshape] at hat
    -- the closing bracket stands at the limit
    have hatLimit : At text limit.position (93 :: behind) := by
      have hsplit : inner = (gap.bytes ++ elements.render) ++ 93 :: behind := (List.append_assoc _ _ _).symm
      have hnext := hat.next
      rw [hsplit] at hnext
      have hskip := hnext.skip
      have hsame := hskip.length_eq
      have hlast : p + 1 + (gap.bytes ++ elements.render).length = limit.position := by
        rw [List.length_cons] at hsame
        omega
      exact hlast ▸ hskip
    have hend := hatLimit.length_eq
    have hle := hat.le_iff.mpr (List.cons_ne_nil 91 inner)
    have hread : (digitIdsOf (.array gap elements)).elim refuse Except.ok = expected [] elements.elementList := by
      rw [expected_nil]
      rfl
    obtain ⟨cursor, hcursor, -, hatCursor⟩ := Positional.skipSpace_eq hat.next
    rw [if_neg (Nat.not_lt.mpr hle), hat.load, ok_bind, if_neg (not_not.mpr rfl), hlimit, ok_bind, hcursor,
      ok_bind, hread]
    cases elements with
    | noElement =>
      have hinside : inner = gap.bytes ++ 93 :: behind := rfl
      rw [hinside, skipSpace_gap_cons gap (by decide)] at hatCursor
      have hsame := hatCursor.length_eq
      rw [if_pos (show cursor = limit.position by omega)]
      rfl
    | element before v after rest =>
      have hinside : inner = gap.bytes ++ (before.bytes ++ (v.render ++ (after.bytes ++ (rest.comma ++
          (rest.render ++ 93 :: behind))))) := by
        simp only [hinner, Json.render, List.append_assoc]
      rw [hinside, skipSpace_gap, skipSpace_render] at hatCursor
      have hsame := hatCursor.length_eq
      have hpos := render_pos v
      simp only [List.length_append, List.length_cons] at hsame hend
      rw [if_neg (show cursor ≠ limit.position by omega), if_neg (show ¬ limit.position < cursor by omega)]
      exact idLoop_render hatLimit rest rfl v after work_start hatCursor

theorem parseTokenArray_missing {key : Bytes} (h : Settings.jsonTopLevelKey text key = none) :
    parseTokenArray text key = refuse := by
  have hfinds := Settings.Positional.jsonTopLevelKey_finds text key
  rw [h] at hfinds
  have hrefuse : Settings.Positional.jsonTopLevelKey text key = refuse := hfinds
  rw [parseTokenArray, hrefuse]
  rfl

/-- What is read from the text of an object. -/
theorem parseTokenArray_render (key : Bytes) (r : Request) :
    parseTokenArray r.text key = ((paddedOf key r.members).bind digitIdsOf).elim refuse .ok := by
  have hlookup : Settings.jsonTopLevelKey r.text key = paddedMember key r.members r.behind :=
    jsonTopLevelKey_render r.before r.gap r.members r.after
  rw [paddedOf]
  rcases paddedMember_eq key r.behind r.members with ⟨hnone, hmissing⟩ | ⟨name, v, behind, hsome, hvalue⟩
  · rw [hnone, parseTokenArray_missing (hlookup.trans hmissing)]
    rfl
  · rw [hsome, parseTokenArray_value (hlookup.trans hvalue)]
    rfl

/-- The ids in digits alone are the ids of the array when no element has a sign. -/
theorem mapM_digitsOf (vs : List (Json .value)) :
    vs.mapM digitsOf = if vs.any hasSign then none else vs.mapM idOf := by
  induction vs with
  | nil => rfl
  | cons v vs ih =>
    rw [List.mapM_cons, List.mapM_cons, List.any_cons, ih, digitsOf]
    cases hasSign v with
    | true => rfl
    | false =>
      rw [Bool.false_or, if_neg Bool.false_ne_true]
      split_ifs
      · cases idOf v <;> rfl
      · rfl

/-- The array holds token ids, one of them written with a sign: it is a zero. -/
def SignedZero (v : Json .value) : Prop :=
  idsOf v ≠ none ∧ ∃ vs, Document.elementsOf v = some vs ∧ vs.any hasSign = true

theorem digitIdsOf_eq_iff (v : Json .value) : digitIdsOf v = idsOf v ↔ ¬ SignedZero v := by
  rw [SignedZero, digitIdsOf, idsOf]
  cases hv : Document.elementsOf v with
  | none => exact ⟨fun _ h => h.1 rfl, fun _ => rfl⟩
  | some vs =>
    rw [Option.bind_some, Option.bind_some, mapM_digitsOf]
    by_cases hsize : vs.length ≤ maxTokenArray
    swap
    · rw [if_neg hsize, if_neg hsize]
      exact ⟨fun _ h => h.1 rfl, fun _ => rfl⟩
    rw [if_pos hsize, if_pos hsize]
    by_cases hsign : vs.any hasSign = true
    · rw [if_pos hsign]
      exact ⟨fun h hzero => hzero.1 h.symm, fun h => (not_not.mp fun hne => h ⟨fun heq => hne heq.symm, vs, rfl, hsign⟩)⟩
    · rw [if_neg hsign]
      exact ⟨fun _ h => hsign (h.2.elim fun ws hws => Option.some.inj hws.1 ▸ hws.2), fun _ => rfl⟩

/-- No padded name hides the member asked for, and no token id in it is written with a sign; or the
member with the padded name holds the same ids. -/
def Kept (key : Bytes) (members : Json .members) : Prop :=
  (Unpadded key members ∧ ∀ v, memberOf key members = some v → ¬ SignedZero v) ∨
    (¬ Unpadded key members ∧ (paddedOf key members).bind digitIdsOf = (memberOf key members).bind idsOf)

theorem kept_iff (key : Bytes) (members : Json .members) :
    (paddedOf key members).bind digitIdsOf = (memberOf key members).bind idsOf ↔ Kept key members := by
  by_cases hunpadded : Unpadded key members
  swap
  · exact ⟨fun h => .inr ⟨hunpadded, h⟩, fun h => h.elim (fun h => absurd h.1 hunpadded) fun h => h.2⟩
  have hsame : paddedOf key members = memberOf key members := paddedOf_of_unpadded members hunpadded
  have hkept : Kept key members ↔ ∀ v, memberOf key members = some v → ¬ SignedZero v :=
    ⟨fun h => h.elim (fun h => h.2) fun h => absurd hunpadded h.1, fun h => .inl ⟨hunpadded, h⟩⟩
  rw [hkept, hsame]
  cases memberOf key members with
  | none =>
    refine ⟨fun _ v hv => ?_, fun _ => rfl⟩
    cases hv
  | some v =>
    rw [Option.bind_some, Option.bind_some, digitIdsOf_eq_iff]
    exact ⟨fun h w hw => Option.some.inj hw ▸ h, fun h => h v rfl⟩

/-! ### What is written -/

/-- Texts with commas between them. -/
def separated : List Bytes → Bytes
  | [] => []
  | t :: ts => t ++ ts.flatMap (44 :: ·)

/-- `append_token_piece_json`: a piece that is no UTF-8 is written as an array of its bytes. -/
def tokenPieceJson (piece : Bytes) : Bytes :=
  if Tokenizer.validUtf8Piece piece then jsonEscape piece
  else 91 :: (separated (piece.map fun b => signed b.toNat) ++ [93])

/-- `tokenization_response`; `tokenPiece` is `fortai_native_service_token_piece`. -/
def tokenizationResponse (tokenPiece : ℤ → Option Bytes) (ids : List ℤ) (withPieces : Bool) : Bytes :=
  ascii "\x7b\"tokens\":[" ++ (separated (ids.map fun id =>
    if withPieces then
      ascii "\x7b\"id\":" ++ signed id ++ ascii ",\"piece\":" ++
        (tokenPiece id).elim (ascii "\"\"") tokenPieceJson ++ [125]
    else signed id) ++ ascii "]\x7d" ++ [10])

/-- The line end behind the response. -/
def newline : Gap := ⟨[10], rfl⟩

/-- The response without pieces, as a tree. -/
def tokensRequest (ids : List ℤ) : Request :=
  ⟨default, default, Document.fields [("tokens", Document.array (ids.map Document.number))], newline⟩

theorem tokenizationResponse_eq (tokenPiece : ℤ → Option Bytes) (ids : List ℤ) :
    tokenizationResponse tokenPiece ids false = (tokensRequest ids).text := by
  have harray : (Document.array (ids.map Document.number)).render = 91 :: (separated (ids.map signed) ++ [93]) := by
    cases ids with
    | nil => rfl
    | cons id ids =>
      rw [List.map_cons, List.map_cons, Document.render_array, separated, Document.render_number, List.append_assoc,
        List.flatMap_map, List.flatMap_map]
      simp only [Document.render_number]
  have hobject : (tokensRequest ids).text =
      (Document.object [("tokens", Document.array (ids.map Document.number))]).render ++ [10] := rfl
  rw [hobject, Document.render_object, Document.fieldText, harray]
  show ascii "\x7b\"tokens\":[" ++ (separated (ids.map signed) ++ ascii "]\x7d" ++ [10]) = _
  have hname : ascii "\x7b\"tokens\":[" = 123 :: (jsonEscape (ascii "tokens") ++ [58, 91]) := by decide
  have hend : ascii "]\x7d" = [93, 125] := by decide
  rw [hname, hend]
  simp only [List.cons_append, List.append_assoc, List.nil_append, List.flatMap_nil]

theorem digitsOf_number_tree (id : ℤ) : digitsOf (Document.number id) =
    if 0 ≤ id ∧ id ≤ maxTokenId then some id.toNat else none := by
  rw [digitsOf, idOf, Document.integerOf_number, Option.bind_some]
  cases id with
  | ofNat n => rfl
  | negSucc n => exact (if_pos rfl).trans (if_neg fun h => absurd h.1 (by omega)).symm

theorem mapM_digitsOf_numbers (ids : List ℤ) : (ids.map Document.number).mapM digitsOf =
    if ∀ id ∈ ids, 0 ≤ id ∧ id ≤ maxTokenId then some (ids.map Int.toNat) else none := by
  induction ids with
  | nil => exact (if_pos fun id hid => absurd hid List.not_mem_nil).symm
  | cons id ids ih =>
    rw [List.map_cons, List.mapM_cons, ih, digitsOf_number_tree]
    simp only [List.forall_mem_cons, List.map_cons]
    by_cases hid : 0 ≤ id ∧ id ≤ maxTokenId
    swap
    · have hall : ¬ ((0 ≤ id ∧ id ≤ maxTokenId) ∧ ∀ id ∈ ids, 0 ≤ id ∧ id ≤ maxTokenId) := fun h => hid h.1
      rw [if_neg hid, if_neg hall]
      rfl
    rw [if_pos hid]
    by_cases hrest : ∀ id ∈ ids, 0 ≤ id ∧ id ≤ maxTokenId
    · rw [if_pos hrest, if_pos ⟨hid, hrest⟩]
      rfl
    · have hall : ¬ ((0 ≤ id ∧ id ≤ maxTokenId) ∧ ∀ id ∈ ids, 0 ≤ id ∧ id ≤ maxTokenId) := fun h => hrest h.2
      rw [if_neg hrest, if_neg hall]
      rfl

/-- What is read from the response without pieces. -/
theorem parseTokenArray_response (tokenPiece : ℤ → Option Bytes) (ids : List ℤ) :
    parseTokenArray (tokenizationResponse tokenPiece ids false) (ascii "tokens") =
      if ids.length ≤ maxTokenArray ∧ ∀ id ∈ ids, 0 ≤ id ∧ id ≤ maxTokenId then .ok (ids.map Int.toNat)
      else refuse := by
  have hmember : paddedOf (ascii "tokens") (tokensRequest ids).members =
      some (Document.array (ids.map Document.number)) := by
    rw [paddedOf, tokensRequest, Document.fields, Json.memberList, List.find?_cons, decode_escapeText,
      show same (ascii "tokens") (ascii "tokens") = true from decide_eq_true rfl]
    rfl
  rw [tokenizationResponse_eq, parseTokenArray_render, hmember, Option.bind_some, digitIdsOf,
    Document.elementsOf_array,
    Option.bind_some, List.length_map, mapM_digitsOf_numbers]
  by_cases hsize : ids.length ≤ maxTokenArray
  · rw [if_pos hsize]
    by_cases hall : ∀ id ∈ ids, 0 ≤ id ∧ id ≤ maxTokenId
    · rw [if_pos hall, if_pos ⟨hsize, hall⟩]
      rfl
    · rw [if_neg hall, if_neg fun h => hall h.2]
      rfl
  · rw [if_neg hsize, if_neg fun h => hsize h.1]
    rfl

/-- From the text of an object, the reader returns the ids of the member asked for, and refuses when it is
no array of ids, exactly when that member is kept; it returns the ids that are written; and on every text
it reads and writes nothing out of bounds. -/
theorem tokenArray_iff (key text : Bytes) (r : Request) (tokenPiece : ℤ → Option Bytes) (ids : List ℤ) :
    (parseTokenArray r.text key = ((memberOf key r.members).bind idsOf).elim refuse .ok ↔ Kept key r.members) ∧
      parseTokenArray (tokenizationResponse tokenPiece ids false) (ascii "tokens") =
        (if ids.length ≤ maxTokenArray ∧ ∀ id ∈ ids, 0 ≤ id ∧ id ≤ maxTokenId then .ok (ids.map Int.toNat)
        else refuse) ∧
      parseTokenArray text key ≠ .error .outside := by
  refine ⟨?_, parseTokenArray_response tokenPiece ids, parseTokenArray_ne_outside text key⟩
  rw [parseTokenArray_render, ← kept_iff]
  have hinjective : ∀ x y : Option (List ℕ),
      (x.elim refuse Except.ok : Positional.Reading (List ℕ)) = y.elim refuse Except.ok ↔ x = y := by
    intro x y
    refine ⟨fun h => ?_, fun h => by rw [h]⟩
    cases x <;> cases y <;> cases h <;> rfl
  exact hinjective _ _

/-- The members of `{"tokens ":[1]}`. -/
def paddedTokens : Json .members := Document.fields [("tokens ", Document.array [Document.number 1])]

/-- The array `[-0]`. -/
def minusZero : Json .value :=
  .array default (.element default (.number ⟨true, Document.digits 0, none, none, decimal_of_head, Document.mark_none⟩)
    default .noElement)

/-- With a padded name another member is read, and a signed zero is refused. -/
theorem not_kept : parseTokenArray (Request.mk default default paddedTokens default).text (ascii "tokens") ≠
      ((memberOf (ascii "tokens") paddedTokens).bind idsOf).elim refuse .ok ∧
    parseTokenArray (Request.mk default default (Document.fields [("tokens", minusZero)]) default).text
        (ascii "tokens") ≠
      ((memberOf (ascii "tokens") (Document.fields [("tokens", minusZero)])).bind idsOf).elim refuse .ok := by
  rw [parseTokenArray_render, parseTokenArray_render]
  decide

end

end TokenArray

end FortAI
