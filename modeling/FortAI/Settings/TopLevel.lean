import FortAI.Chat.Arguments
import FortAI.Settings.Properties

/-!
# Members of the object itself

`json_top_level_key` walks over the members of an object, over strings, brackets and blanks in their
values.  It compares names with `==`, which pads the shorter one with blanks, so a name that differs
from the key in the blanks at its end passes for it.

* `jsonTopLevelKey_render` : the member found is the first one whose name is the key up to blanks.
* `exact_iff_unpadded` : it is the member asked for exactly when that name is the key itself.
-/

namespace FortAI

namespace Settings

open CString Character Chat

/-- The text from the value of the first member on whose name is the key up to blanks at the end;
`s` is what stands behind the members. -/
def paddedMember (key : Bytes) : {k : Kind} → Json k → Bytes → Option Bytes
  | _, .member _ name _ _ v after rest, s =>
    if same name.decode key then some (v.render ++ behindValue after rest s)
    else paddedMember key rest s
  | _, _, _ => none

/-- If a name is the key up to blanks at the end, the first such name is the key. -/
def Unpadded (key : Bytes) : {k : Kind} → Json k → Prop
  | _, .member _ name _ _ _ _ rest =>
    if same name.decode key then name.decode = key else Unpadded key rest
  | _, _ => True

variable {key : Bytes}

/-! ### The loop over the members -/

theorem topLevelLoop_end {limit : ℕ} {s : Bytes} (h : (skipSpace s).length ≤ limit) :
    topLevelLoop key limit s = none := by
  rw [topLevelLoop]
  exact if_pos (Or.inl h)

/-- A turn of the loop, from what it reads. -/
theorem topLevelLoop_turn {limit : ℕ} {s name behind value raw after : Bytes}
    (hlength : limit < value.length) (hstring : jsonString (skipSpace s) = some (name, behind))
    (hcolon : ∃ tail, skipSpace behind = 58 :: tail ∧ skipSpace tail = value)
    (hvalue : jsonRawValue value = some (raw, after)) :
    topLevelLoop key limit s =
      if same name key then some value
      else if (skipSpace after).length ≤ limit then none
      else if (skipSpace after).head? = some 44 then topLevelLoop key limit (skipSpace after).tail
      else none := by
  obtain ⟨tail, hbehind, hskip⟩ := hcolon
  have hquote : (skipSpace s).head? = some 34 := by
    by_contra hne
    rw [jsonString, if_neg hne] at hstring
    cases hstring
  have htail : value.length ≤ tail.length := hskip ▸ skipSpace_length tail
  have hcolonLength : (skipSpace behind).length ≤ behind.length := skipSpace_length behind
  rw [hbehind, List.length_cons] at hcolonLength
  have hmember := jsonString_length hstring
  rw [topLevelLoop]
  rw [if_neg (not_or.mpr ⟨by omega, fun h => h hquote⟩)]
  split
  · rename_i hnone
    rw [hstring] at hnone
    cases hnone
  · rename_i name' behind' hsome
    rw [hstring, Option.some.injEq, Prod.mk.injEq] at hsome
    obtain ⟨rfl, rfl⟩ := hsome
    have hopen : ¬ ((58 :: tail).length ≤ limit ∨ (58 :: tail).head? ≠ some 58) :=
      not_or.mpr ⟨by rw [List.length_cons]; omega, fun h => h rfl⟩
    have hfit : ¬ (skipSpace tail).length ≤ limit := by rw [hskip]; omega
    simp only [hbehind, List.tail_cons]
    rw [if_neg hopen, if_neg hfit, hskip]
    by_cases hsame : same name key = true
    · rw [if_pos hsame, if_pos hsame]
    rw [if_neg hsame, if_neg hsame]
    have hread : jsonRawValue (skipSpace (skipSpace behind).tail) = some (raw, after) := by
      rw [hbehind, List.tail_cons, hskip, hvalue]
    split
    · rename_i hnone
      rw [hread] at hnone
      cases hnone
    · rename_i raw' after' hsome
      rw [hread, Option.some.injEq, Prod.mk.injEq] at hsome
      rw [hsome.2]

theorem skipSpace_behindValue (after : Gap) (rest : Json .members) (s : Bytes) :
    skipSpace (behindValue after rest (125 :: s)) = rest.comma ++ (rest.render ++ 125 :: s) := by
  rw [behindValue, skipSpace_gap]
  cases rest <;> exact skipSpace_cons (by decide) _

/-- The loop finds the first member whose name is the key up to blanks at the end. -/
theorem topLevelLoop_render {k : Kind} (j : Json k) (hk : k = .members) :
    ∀ (gap : Gap) (s : Bytes), topLevelLoop key (s.length + 1) (gap.bytes ++ (j.render ++ 125 :: s)) =
      paddedMember key j (125 :: s) := by
  induction j with
  | literal | number | string | array | object | noElement | element => exact nomatch hk
  | noMember =>
    intro gap s
    refine topLevelLoop_end ?_
    rw [Json.render, List.nil_append, skipSpace_gap_cons gap (by decide), List.length_cons]
  | member before name beforeColon afterColon v after rest ihv ihrest =>
    intro gap s
    set value := v.render ++ behindValue after rest (125 :: s) with hv
    set behind := beforeColon.bytes ++ 58 :: (afterColon.bytes ++ value) with hbehind
    have hshape : gap.bytes ++ ((Json.member before name beforeColon afterColon v after rest).render ++
        125 :: s) = gap.bytes ++ (before.bytes ++ (name.render ++ behind)) := by
      simp only [hbehind, hv, Json.render, behindValue, List.append_assoc, List.cons_append]
    have hlength : s.length + 1 < value.length := by
      have hle := length_behindValue after rest (125 :: s)
      have hpos := render_pos v
      rw [List.length_append, List.length_cons] at hle
      rw [hv, List.length_append]
      omega
    have hstring : jsonString (skipSpace (gap.bytes ++ (before.bytes ++ (name.render ++ behind)))) =
        some (name.decode, behind) := by
      rw [skipSpace_gap, skipSpace_gap, Text.render, List.cons_append, skipSpace_cons (by decide)]
      exact jsonString_render name behind
    have hcolon : ∃ tail, skipSpace behind = 58 :: tail ∧ skipSpace tail = value :=
      ⟨_, skipSpace_gap_cons beforeColon (by decide) _, skipSpace_render afterColon v _⟩
    have hvalue : jsonRawValue value = some (v.render, behindValue after rest (125 :: s)) :=
      jsonRawValue_render v (ended_gap after (ended_comma rest s))
    rw [hshape, topLevelLoop_turn hlength hstring hcolon hvalue, paddedMember]
    by_cases hsame : same name.decode key = true
    · rw [if_pos hsame, if_pos hsame]
    rw [if_neg hsame, if_neg hsame, skipSpace_behindValue, ← ihrest rfl default s]
    rcases comma_cases rest (fun h => by cases h) with hcomma | ⟨hcomma, hrender⟩
    · have hmore : ¬ (rest.comma ++ (rest.render ++ 125 :: s)).length ≤ s.length + 1 := by
        rw [hcomma]
        simp only [List.length_append, List.length_cons, List.length_nil]
        omega
      rw [if_neg hmore, hcomma]
      exact if_pos rfl
    · rw [hcomma, hrender]
      have hend : topLevelLoop key (s.length + 1) ((default : Gap).bytes ++ ([] ++ 125 :: s)) = none :=
        topLevelLoop_end (Nat.le_refl _)
      rw [hend]
      exact if_pos (Nat.le_refl _)

/-- What `json_top_level_key` finds in the text of an object. -/
theorem jsonTopLevelKey_render (before gap : Gap) (members : Json .members) (after : Gap) :
    jsonTopLevelKey (before.bytes ++ ((Json.object gap members).render ++ after.bytes)) key =
      paddedMember key members (125 :: after.bytes) := by
  have hskip : skipSpace (before.bytes ++ ((Json.object gap members).render ++ after.bytes)) =
      (Json.object gap members).render ++ after.bytes := skipSpace_render before (.object gap members) _
  have hlimit : ((Json.object gap members).render ++ after.bytes).length -
      (Json.object gap members).render.length + 1 = after.bytes.length + 1 := by
    rw [List.length_append, Nat.add_sub_cancel_left]
  have htail : ((Json.object gap members).render ++ after.bytes).tail =
      gap.bytes ++ (members.render ++ 125 :: after.bytes) := by
    simp only [Json.render, List.cons_append, List.append_assoc, List.nil_append, List.tail_cons]
  rw [jsonTopLevelKey, hskip, if_neg (fun h => h rfl), matchingDelimiter_object]
  show topLevelLoop key (((Json.object gap members).render ++ after.bytes).length -
    (Json.object gap members).render.length + 1) ((Json.object gap members).render ++ after.bytes).tail = _
  rw [hlimit, htail]
  exact topLevelLoop_render members rfl gap after.bytes

/-! ### The member asked for -/

/-- The member found is the member asked for exactly when the first name that is the key up to blanks
is the key. -/
theorem paddedMember_eq_topLevel {k : Kind} (j : Json k) (s : Bytes) :
    paddedMember key j s = topLevel key j s ↔ Unpadded key j := by
  induction j with
  | literal | number | string | array | object | noElement | element | noMember =>
    exact ⟨fun _ => trivial, fun _ => rfl⟩
  | member before name beforeColon afterColon v after rest ihv ihrest =>
    have hbehind := length_behindValue after rest s
    have hlength : (v.render ++ behindValue after rest s).length =
        v.render.length + (behindValue after rest s).length := List.length_append
    have hpos := render_pos v
    rw [topLevel_member, paddedMember, Unpadded]
    by_cases hsame : same name.decode key = true
    · rw [if_pos hsame, if_pos hsame]
      by_cases hname : name.decode = key
      · rw [if_pos hname]
        exact ⟨fun _ => hname, fun _ => rfl⟩
      · -- the member that is found stands before every member of that name
        rw [if_neg hname]
        refine ⟨fun h => ?_, fun h => absurd h hname⟩
        have := topLevel_length rest h.symm
        omega
    · have hname : name.decode ≠ key := by
        rintro rfl
        exact hsame (decide_eq_true rfl)
      rw [if_neg hsame, if_neg hsame, if_neg hname]
      exact ihrest

/-- In the text of an object, `json_top_level_key` finds the first member of the object itself whose
name is the key, and nothing when there is none, exactly when the first name that is the key up to
blanks at the end is the key. -/
theorem exact_iff_unpadded (key : Bytes) (before gap : Gap) (members : Json .members) (after : Gap) :
    jsonTopLevelKey (before.bytes ++ ((Json.object gap members).render ++ after.bytes)) key =
      topLevel key members (125 :: after.bytes) ↔ Unpadded key members := by
  rw [jsonTopLevelKey_render]
  exact paddedMember_eq_topLevel members _

/-- The first member whose name is the key up to blanks at the end. -/
def paddedOf (key : Bytes) (members : Json .members) : Option (Json .value) :=
  (members.memberList.find? fun m => same m.1.decode key).map Prod.snd

/-- What is found is the value of that member, with what is behind it. -/
theorem paddedMember_eq (key s : Bytes) {k : Kind} (j : Json k) :
    ((j.memberList.find? fun m => same m.1.decode key) = none ∧ paddedMember key j s = none) ∨
      ∃ name v behind, (j.memberList.find? fun m => same m.1.decode key) = some (name, v) ∧
        paddedMember key j s = some (v.render ++ behind) := by
  induction j with
  | literal | number | string | array | object | noElement | element | noMember => exact .inl ⟨rfl, rfl⟩
  | member before name beforeColon afterColon v after rest ihv ihrest =>
    rw [Json.memberList, paddedMember, List.find?_cons]
    by_cases hsame : same name.decode key = true
    · rw [if_pos hsame, hsame]
      exact .inr ⟨name, v, _, rfl, rfl⟩
    · rw [if_neg hsame, Bool.eq_false_iff.mpr hsame]
      exact ihrest

/-- When no padded name is in front, the member found is the one asked for. -/
theorem paddedOf_of_unpadded {k : Kind} (j : Json k) (h : Unpadded key j) :
    (j.memberList.find? fun m => same m.1.decode key).map Prod.snd = (topMember key j []).map Prod.fst := by
  induction j with
  | literal | number | string | array | object | noElement | element | noMember => rfl
  | member before name beforeColon afterColon v after rest ihv ihrest =>
    rw [Unpadded] at h
    rw [Json.memberList, topMember, List.find?_cons]
    by_cases hsame : same name.decode key = true
    · rw [if_pos hsame] at h
      rw [hsame, if_pos h]
      rfl
    · have hname : name.decode ≠ key := fun heq => hsame (heq ▸ decide_eq_true rfl)
      rw [if_neg hsame] at h
      rw [Bool.eq_false_iff.mpr hsame, if_neg hname]
      exact ihrest h

/-- The members of `{"a ":null}`. -/
def paddedObject : Json .members :=
  .member default [.plain 97 rfl, .plain 32 rfl] default default (.literal .null) default .noMember

theorem not_exact_paddedObject :
    jsonTopLevelKey ((default : Gap).bytes ++ ((Json.object default paddedObject).render ++
      (default : Gap).bytes)) (ascii "a") ≠
      topLevel (ascii "a") paddedObject (125 :: (default : Gap).bytes) := by
  rw [jsonTopLevelKey_render]
  decide

end Settings

end FortAI
