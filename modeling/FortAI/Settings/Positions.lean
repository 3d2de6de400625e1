import FortAI.Chat.Positions
import FortAI.Settings.Properties

/-!
# Looking up a member at positions

`json_top_level_key` with the positions of the source, where every character that is looked at is
checked against the bounds of the text.

* `jsonTopLevelKey_eq` : it finds what the lookup in the rest of the text finds, and looks at nothing
  outside.
-/

namespace FortAI

namespace Settings

namespace Positional

open CString Character Storage Position Chat

variable {text s key : Bytes} {p : ℕ}

/-- The loop of `json_top_level_key` up to the end of one member: the position of its value if it is the
member that is looked for, and the position behind the comma if it is another one. -/
def memberTurn (text key : Bytes) (objectEnd position : ℕ) : Positional.Reading (Bool × ℕ) := do
  let position ← Positional.skipSpace text position
  if objectEnd ≤ position then refuse
  else
    let b ← load (some text) position
    if b = 125 then refuse
    else if b ≠ 34 then refuse
    else
      let (member, after) ← Positional.jsonString text position
      let colon ← Positional.skipSpace text after
      if objectEnd ≤ colon then refuse
      else
        let b ← load (some text) colon
        if b ≠ 58 then refuse
        else
          let value ← Positional.skipSpace text (colon + 1)
          if objectEnd ≤ value then refuse
          else if same member key then return (true, value)
          else
            let (_, valueAfter) ← Positional.jsonRawValue text value
            let position ← Positional.skipSpace text valueAfter
            if objectEnd ≤ position then refuse
            else
              let b ← load (some text) position
              -- the end of the object and anything else end the loop
              if b = 44 then return (false, position + 1) else refuse

/-- The same turn on what stands from the position on. -/
def turn (key : Bytes) (limit : ℕ) (s : Bytes) : Option (Bool × Bytes) :=
  let member := skipSpace s
  if member.length ≤ limit ∨ member.head? ≠ some 34 then none
  else
    (jsonString member).bind fun name =>
      let colon := skipSpace name.2
      if colon.length ≤ limit ∨ colon.head? ≠ some 58 then none
      else
        let value := skipSpace colon.tail
        if value.length ≤ limit then none
        else if same name.1 key then some (true, value)
        else
          (jsonRawValue value).bind fun raw =>
            let rest := skipSpace raw.2
            if rest.length ≤ limit then none
            else if rest.head? = some 44 then some (false, rest.tail)
            else none

/-- The loop is its turns. -/
theorem topLevelLoop_eq (key : Bytes) (limit : ℕ) (s : Bytes) :
    topLevelLoop key limit s = (turn key limit s).bind fun r =>
      if r.1 then some r.2 else topLevelLoop key limit r.2 := by
  rw [topLevelLoop, turn]
  by_cases hmember : (skipSpace s).length ≤ limit ∨ (skipSpace s).head? ≠ some 34
  · rw [if_pos hmember, if_pos hmember]
    rfl
  rw [if_neg hmember, if_neg hmember]
  cases hname : jsonString (skipSpace s) with
  | none =>
    split
    · rfl
    · rename_i heq
      cases heq
  | some name =>
    split
    · rename_i heq
      cases heq
    · rename_i name' behind heq
      rw [Option.some.injEq] at heq
      subst heq
      rw [Option.bind_some]
      dsimp only
      by_cases hcolon : (skipSpace behind).length ≤ limit ∨ (skipSpace behind).head? ≠ some 58
      · rw [if_pos hcolon, if_pos hcolon]
        rfl
      rw [if_neg hcolon, if_neg hcolon]
      by_cases hvalue : (skipSpace (skipSpace behind).tail).length ≤ limit
      · rw [if_pos hvalue, if_pos hvalue]
        rfl
      rw [if_neg hvalue, if_neg hvalue]
      by_cases hsame : same name' key = true
      · rw [if_pos hsame, if_pos hsame]
        rfl
      rw [if_neg hsame, if_neg hsame]
      cases hraw : jsonRawValue (skipSpace (skipSpace behind).tail) with
      | none =>
        split
        · rfl
        · rename_i heq
          cases heq
      | some raw =>
        split
        · rename_i heq
          cases heq
        · rename_i raw' after heq
          rw [Option.some.injEq] at heq
          subst heq
          rw [Option.bind_some]
          dsimp only
          split_ifs <;> rfl

/-- A position is not before the end of the object exactly when no more than the rest behind the end is
left. -/
theorem end_le_iff {objectEnd limit : ℕ} (hend : objectEnd + limit = text.length + 1) (h : At text p s) :
    objectEnd ≤ p ↔ s.length ≤ limit := by
  have := h.length_eq
  omega

theorem memberTurn_reads {objectEnd limit : ℕ} (hend : objectEnd + limit = text.length + 1) (h : At text p s) :
    Reads text (memberTurn text key objectEnd p) (turn key limit s) := by
  obtain ⟨member, hmember, -, hat⟩ := Positional.skipSpace_eq h
  rw [memberTurn, hmember, ok_bind, turn]
  simp only [end_le_iff hend hat]
  cases hs : Chat.skipSpace s with
  | nil =>
    have hnil : ([] : Bytes).length ≤ limit := Nat.zero_le limit
    rw [if_pos hnil, if_pos (Or.inl hnil)]
    exact .none
  | cons b rest =>
  rw [hs] at hat
  by_cases hlimit : (b :: rest).length ≤ limit
  · rw [if_pos hlimit, if_pos (Or.inl hlimit)]
    exact .none
  rw [if_neg hlimit, hat.load, ok_bind]
  by_cases hquote : b = 34
  swap
  · have hhead : (b :: rest).length ≤ limit ∨ (b :: rest).head? ≠ some 34 :=
      Or.inr fun heq => hquote (Option.some.inj heq)
    rw [if_pos hhead, if_pos hquote, ite_self]
    exact .none
  subst hquote
  have hhead : ¬ ((34 :: rest).length ≤ limit ∨ (34 :: rest).head? ≠ some 34) :=
    not_or.mpr ⟨hlimit, not_not.mpr rfl⟩
  rw [if_neg hhead, if_neg (by decide), if_neg (by decide)]
  refine (Positional.jsonString_reads hat).bind fun name after behind hname hat => ?_
  dsimp only
  obtain ⟨colon, hcolon, -, hat⟩ := Positional.skipSpace_eq hat
  rw [hcolon, ok_bind]
  simp only [end_le_iff hend hat]
  cases hs : Chat.skipSpace behind with
  | nil =>
    have hnil : ([] : Bytes).length ≤ limit := Nat.zero_le limit
    rw [if_pos hnil, if_pos (Or.inl hnil)]
    exact .none
  | cons b rest =>
  rw [hs] at hat
  by_cases hlimit : (b :: rest).length ≤ limit
  · rw [if_pos hlimit, if_pos (Or.inl hlimit)]
    exact .none
  rw [if_neg hlimit, hat.load, ok_bind]
  by_cases hb : b = 58
  swap
  · have hhead : (b :: rest).length ≤ limit ∨ (b :: rest).head? ≠ some 58 :=
      Or.inr fun heq => hb (Option.some.inj heq)
    rw [if_pos hhead, if_pos hb]
    exact .none
  subst hb
  have hhead : ¬ ((58 :: rest).length ≤ limit ∨ (58 :: rest).head? ≠ some 58) :=
    not_or.mpr ⟨hlimit, not_not.mpr rfl⟩
  rw [if_neg hhead, if_neg (by decide), List.tail_cons]
  obtain ⟨value, hvalue, -, hat⟩ := Positional.skipSpace_eq hat.next
  rw [hvalue, ok_bind]
  simp only [end_le_iff hend hat]
  split_ifs
  · exact .none
  · exact .some hat
  refine (Positional.jsonRawValue_reads hat).bind fun raw valueAfter behind hraw hat => ?_
  dsimp only
  obtain ⟨next, hnext, -, hat⟩ := Positional.skipSpace_eq hat
  rw [hnext, ok_bind]
  simp only [end_le_iff hend hat]
  cases hs : Chat.skipSpace behind with
  | nil =>
    have hnil : ([] : Bytes).length ≤ limit := Nat.zero_le limit
    rw [if_pos hnil, if_pos hnil]
    exact .none
  | cons b rest =>
  rw [hs] at hat
  by_cases hlimit : (b :: rest).length ≤ limit
  · rw [if_pos hlimit, if_pos hlimit]
    exact .none
  rw [if_neg hlimit, if_neg hlimit, hat.load, ok_bind, List.head?_cons, List.tail_cons]
  by_cases hb : b = 44
  · rw [if_pos hb, if_pos (congrArg some hb)]
    exact .some hat.next
  · rw [if_neg hb, if_neg fun heq => hb (Option.some.inj heq)]
    exact .none

/-- A turn leaves less of the text. -/
theorem turn_length {limit : ℕ} {found : Bool} {rest : Bytes} (h : turn key limit s = some (found, rest)) :
    rest.length < s.length := by
  rw [turn] at h
  dsimp only at h
  split_ifs at h
  obtain ⟨name, hname, h⟩ := Option.bind_eq_some_iff.mp h
  have hmember := skipSpace_length s
  have hbehind := jsonString_length (show jsonString (skipSpace s) = some (name.1, name.2) from hname)
  have hcolon := skipSpace_length name.2
  have htail : (skipSpace name.2).tail.length ≤ (skipSpace name.2).length := (List.tail_suffix _).length_le
  have hvalue := skipSpace_length (skipSpace name.2).tail
  split_ifs at h
  · rw [← (Prod.mk.inj (Option.some.inj h)).2]
    omega
  obtain ⟨raw, hraw, h⟩ := Option.bind_eq_some_iff.mp h
  have hafter := jsonRawValue_length (show jsonRawValue _ = some (raw.1, raw.2) from hraw)
  have hrest := skipSpace_length raw.2
  have hlast : (skipSpace raw.2).tail.length ≤ (skipSpace raw.2).length := (List.tail_suffix _).length_le
  split_ifs at h
  rw [← (Prod.mk.inj (Option.some.inj h)).2]
  omega

/-- A position in the text at which something ends. -/
structure End (text : Bytes) where
  position : ℕ
  le_length : position ≤ text.length

theorem matchingDelimiter_le_length {opening closing : Byte} {last : ℕ}
    (h : Positional.matchingDelimiter text p opening closing = .ok last) : last ≤ text.length := by
  by_cases hout : p < 1 ∨ text.length < p
  · rw [Positional.matchingDelimiter, if_pos hout] at h
    cases h
  obtain ⟨b, s, hat⟩ := Positional.exists_at (show 1 ≤ p by omega) (show p ≤ text.length by omega)
  rw [Positional.matchingDelimiter_eq hat] at h
  cases hscan : Chat.matchingDelimiter (b :: s) opening closing with
  | none =>
    rw [hscan] at h
    cases h
  | some n =>
    have hfit := Positional.matchingDelimiter_le hscan
    have hlength := hat.length_eq
    rw [hscan] at h
    have hlast : p + n - 1 = last := Except.ok.inj h
    omega

/-- `matching_delimiter`, for a position that it returns. -/
def closing (text : Bytes) (first : ℕ) (opening closing : Byte) : Positional.Reading (End text) :=
  match h : Positional.matchingDelimiter text first opening closing with
  | .error e => .error e
  | .ok last => .ok ⟨last, matchingDelimiter_le_length h⟩

/-- A turn goes forward. -/
theorem memberTurn_lt {objectEnd : End text} {next : ℕ} {found : Bool} (hp : p < objectEnd.position)
    (h : memberTurn text key objectEnd.position p = .ok (found, next)) : p < next := by
  obtain ⟨last, hlast⟩ := objectEnd
  -- from the position 0 the blanks are skipped as from 1
  obtain ⟨q, hpos, hpq, hq, hturn⟩ : ∃ q, 1 ≤ q ∧ p ≤ q ∧ q ≤ text.length ∧
      memberTurn text key last q = .ok (found, next) := by
    rcases Nat.eq_zero_or_pos p with rfl | hpos
    · exact ⟨1, Nat.le_refl 1, Nat.zero_le 1, by dsimp only at hp; omega, h⟩
    · exact ⟨p, hpos, Nat.le_refl p, by dsimp only at hp; omega, h⟩
  obtain ⟨b, s, hat⟩ := Positional.exists_at hpos hq
  have hreads :=
    @memberTurn_reads text _ key q _ _ (show last + (text.length + 1 - last) = text.length + 1 by omega) hat
  cases hsuffix : turn key (text.length + 1 - last) (b :: s) with
  | none =>
    rw [hsuffix] at hreads
    have hrefuse : memberTurn text key last q = refuse := hreads
    rw [hrefuse] at hturn
    cases hturn
  | some r =>
    rw [hsuffix] at hreads
    obtain ⟨after, hafter, hatAfter⟩ := hreads
    rw [hturn, Except.ok.injEq, Prod.mk.injEq] at hafter
    have hlt := turn_length (show turn key _ _ = some (r.1, r.2) from hsuffix)
    have hstart := hat.length_eq
    have hnext := hatAfter.length_eq
    omega

/-- The loop of `json_top_level_key` over the members. -/
def memberLoop (text key : Bytes) (objectEnd : End text) (position : ℕ) : Positional.Reading ℕ :=
  if _hfit : position < objectEnd.position then
    match _h : memberTurn text key objectEnd.position position with
    | .error e => .error e
    | .ok (true, value) => .ok value
    | .ok (false, next) => memberLoop text key objectEnd next
  else refuse
termination_by text.length + 1 - position
decreasing_by
  have hnext := memberTurn_lt _hfit _h
  have hend := objectEnd.le_length
  omega

/-- `json_top_level_key`; it gives up for the position 0. -/
def jsonTopLevelKey (text key : Bytes) : Positional.Reading ℕ := do
  let position ← Positional.skipSpace text 1
  if text.length < position then refuse
  else
    let b ← load (some text) position
    if b ≠ 123 then refuse
    else
      let objectEnd ← closing text position 123 125
      memberLoop text key objectEnd (position + 1)

/-- A reader that returns a position: the one from which the rest that is found stands. -/
def Finds (text : Bytes) (x : Positional.Reading ℕ) (r : Option Bytes) : Prop :=
  r.elim (x = refuse) fun s => ∃ p, x = .ok p ∧ At text p s

theorem memberLoop_of_turn {objectEnd : End text} (hfit : p < objectEnd.position) :
    memberLoop text key objectEnd p = memberTurn text key objectEnd.position p >>= fun r =>
      if r.1 then .ok r.2 else memberLoop text key objectEnd r.2 := by
  rw [memberLoop, dif_pos hfit]
  split
  · rename_i e he
    rw [he]
    rfl
  · rename_i value he
    rw [he]
    rfl
  · rename_i next he
    rw [he]
    rfl

theorem memberLoop_finds {objectEnd : End text} {limit : ℕ} (hend : objectEnd.position + limit = text.length + 1)
    (h : At text p s) : Finds text (memberLoop text key objectEnd p) (topLevelLoop key limit s) := by
  induction hn : s.length using Nat.strong_induction_on generalizing p s with
  | _ n ih =>
    subst hn
    rw [topLevelLoop_eq]
    by_cases hfit : p < objectEnd.position
    · have hreads := @memberTurn_reads text s key p _ _ hend h
      rw [memberLoop_of_turn hfit]
      cases hturn : turn key limit s with
      | none =>
        rw [hturn] at hreads
        have hrefuse : memberTurn text key objectEnd.position p = refuse := hreads
        rw [hrefuse]
        rfl
      | some r =>
        obtain ⟨found, rest⟩ := r
        rw [hturn] at hreads
        obtain ⟨q, hq, hat⟩ : ∃ q, memberTurn text key objectEnd.position p = .ok (found, q) ∧ At text q rest :=
          hreads
        rw [hq, ok_bind, Option.bind_some]
        cases found with
        | true => exact ⟨q, rfl, hat⟩
        | false => exact ih rest.length (turn_length hturn) hat rfl
    · -- nothing is left before the end of the object
      have hskip := skipSpace_length s
      have hshort : s.length ≤ limit := (end_le_iff hend h).mp (Nat.not_lt.mp hfit)
      rw [memberLoop, dif_neg hfit, turn]
      dsimp only
      rw [if_pos (Or.inl (hskip.trans hshort))]
      rfl

theorem closing_eq (h : At text p s) (opening closing : Byte) :
    (Chat.matchingDelimiter s opening closing).elim (Positional.closing text p opening closing = refuse) fun n =>
      ∃ last, Positional.closing text p opening closing = .ok last ∧ last.position = p + n - 1 := by
  have heq := Positional.matchingDelimiter_eq h opening closing
  cases hscan : Chat.matchingDelimiter s opening closing with
  | none =>
    rw [hscan] at heq
    rw [Option.elim_none, Positional.closing]
    split
    · rename_i e he
      rw [heq] at he
      cases he
      rfl
    · rename_i last he
      rw [heq] at he
      cases he
  | some n =>
    rw [hscan] at heq
    rw [Option.elim_some, Positional.closing]
    split
    · rename_i e he
      rw [heq] at he
      cases he
    · rename_i last he
      rw [heq] at he
      exact ⟨_, rfl, (Except.ok.inj he).symm⟩

/-- The lookup finds what the lookup in the rest of the text finds. -/
theorem jsonTopLevelKey_finds (text key : Bytes) :
    Finds text (jsonTopLevelKey text key) (Settings.jsonTopLevelKey text key) := by
  obtain ⟨position, hposition, -, hat⟩ := Positional.skipSpace_eq (At.start text)
  rw [jsonTopLevelKey, hposition, ok_bind, Settings.jsonTopLevelKey]
  cases hs : Chat.skipSpace text with
  | nil =>
    rw [hs] at hat
    have hend : text.length < position := Nat.lt_of_not_le fun hle => hat.le_iff.mp hle rfl
    rw [if_pos hend]
    exact rfl
  | cons b s =>
    rw [hs] at hat
    have hle := hat.le_iff.mpr (List.cons_ne_nil b s)
    rw [if_neg (Nat.not_lt.mpr hle), hat.load, ok_bind]
    by_cases hb : b = 123
    swap
    · rw [if_pos hb, if_pos (show (b :: s).head? ≠ some 123 from fun heq => hb (Option.some.inj heq))]
      exact rfl
    have hclosing := closing_eq hat 123 125
    rw [if_neg (not_not.mpr hb), if_neg (show ¬ (b :: s).head? ≠ some 123 from not_not.mpr (congrArg some hb))]
    cases hscan : Chat.matchingDelimiter (b :: s) 123 125 with
    | none =>
      rw [hscan] at hclosing
      have hrefuse : closing text position 123 125 = refuse := hclosing
      rw [hrefuse]
      exact rfl
    | some n =>
      rw [hscan] at hclosing
      obtain ⟨last, hlast, hplace⟩ : ∃ last, closing text position 123 125 = .ok last ∧ last.position = position + n - 1 :=
        hclosing
      have hn := matchingDelimiter_pos hscan
      have hfit := Positional.matchingDelimiter_le hscan
      have hlength := hat.length_eq
      rw [hlast, ok_bind, List.tail_cons]
      exact memberLoop_finds (by omega) hat.next

end Positional

end Settings

end FortAI
