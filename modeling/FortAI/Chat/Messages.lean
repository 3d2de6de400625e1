import FortAI.Chat.Options
import FortAI.Chat.Template

/-!
# The messages of a request

`parseMessages` is `parse_messages`: the messages of the array of that name.  The members of a message
are looked up with `jsonKey` in the text of its object.

* `messageOf` : the message that an object stands for.
* `ownMembers_iff` : the messages of a request are those of its objects exactly when no other name in
  an object shadows the names of its members.
-/

namespace FortAI

namespace Chat

open CString Character

/-! ### The readers -/

/-- What `json_content` reads of a part: the object takes the first `n` bytes. -/
def partText (s : Bytes) (n : ℕ) : Option Bytes :=
  let text := (jsonKey (ascii "text") s n).bind fun value => (jsonString value).map Prod.fst
  match jsonKey (ascii "type") s n with
  | none => text
  | some value =>
    match jsonString value with
    | none => none
    | some (contentType, _) => if contentType = ascii "text" then text else none

/-- The loop of `json_content` over the parts; `limit` is what is left of the text from the closing
bracket on, `found` tells whether there was a part. -/
def contentLoop (limit : ℕ) (found : Bool) (s : Bytes) : Option Bytes :=
  let part := skipSpace s
  if part.length ≤ limit then if found then some [] else none
  else if part.head? ≠ some 123 then none
  else
    match matchingDelimiter part 123 125 with
    | none => none
    | some n =>
      if part.length - n + 1 < limit then none
      else
        match partText part n with
        | none => none
        | some text =>
          let rest := skipSpace (part.drop n)
          if rest.length ≤ limit then some text
          else if _h : rest.head? = some 44 then (contentLoop limit true rest.tail).map (text ++ ·)
          else if rest.head? ≠ some 93 then none
          else some text
termination_by s.length
decreasing_by
  have hskip := skipSpace_length s
  have hdrop := skipSpace_length ((skipSpace s).drop n)
  rw [List.length_drop] at hdrop
  have hrest : rest.length ≤ (skipSpace s).length - n := hdrop
  have hpos : 0 < rest.length := List.length_pos_iff.mpr (List.ne_nil_of_mem (List.mem_of_mem_head? _h))
  rw [List.length_tail]
  omega

/-- `json_content` -/
def jsonContent (s : Bytes) : Option Bytes :=
  if s.head? = some 34 then (jsonString s).map Prod.fst
  else if s.take 4 = ascii "null" then some []
  else if s.head? = some 91 then
    (matchingDelimiter s 91 93).bind fun n => contentLoop (s.length - n + 1) false s.tail
  else if s.head? = some 123 then
    (matchingDelimiter s 123 125).bind fun n => partText s n
  else none

/-- What the loop of `parse_message_array` reads of an object: it takes the first `n` bytes. -/
def parseMessage (s : Bytes) (n : ℕ) : Option Message :=
  let content := jsonKey (ascii "content") s n
  let reasoning := jsonKey (ascii "reasoning_content") s n
  let toolCalls := jsonKey (ascii "tool_calls") s n
  match jsonKey (ascii "role") s n with
  | none => none
  | some role =>
    if content = none ∧ reasoning = none ∧ toolCalls = none then none
    else do
      let role ← (jsonString role).map Prod.fst
      let content ← content.elim (some []) jsonContent
      let reasoning ← reasoning.elim (some []) fun value => (jsonString value).map Prod.fst
      let toolCalls ← toolCalls.elim (some []) fun value => (jsonRawValue value).map Prod.fst
      if toolCalls ≠ [] ∧ toolCalls.head? ≠ some 91 then none
      else some ⟨role, content, reasoning, toolCalls⟩

def maxMessages : ℕ := 256

/-- The loop of `parse_message_array`; `limit` is what is left of the text from the closing bracket
on, `count` the number of messages so far. -/
def messageArrayLoop (limit count : ℕ) (s : Bytes) : Option (List Message) :=
  let object := skipSpace s
  if object.length < limit ∨ object.head? = some 93 then some []
  else if object.head? ≠ some 123 ∨ maxMessages ≤ count then none
  else
    match matchingDelimiter object 123 125 with
    | none => none
    | some n =>
      if object.length - n + 1 < limit then none
      else
        match parseMessage object n with
        | none => none
        | some message =>
          let rest := skipSpace (object.drop n)
          if rest.length < limit then none
          else if _h : rest.head? = some 44 then
            (messageArrayLoop limit (count + 1) rest.tail).map (message :: ·)
          else if rest.head? = some 93 then some [message]
          else none
termination_by s.length
decreasing_by
  have hskip := skipSpace_length s
  have hdrop := skipSpace_length ((skipSpace s).drop n)
  rw [List.length_drop] at hdrop
  have hrest : rest.length ≤ (skipSpace s).length - n := hdrop
  have hpos : 0 < rest.length := List.length_pos_iff.mpr (List.ne_nil_of_mem (List.mem_of_mem_head? _h))
  rw [List.length_tail]
  omega

/-- `parse_message_array`, from the value on that `json_key` found; `none` when it fails. -/
def parseMessageArray (value : Option Bytes) : Option (List Message) := do
  let s ← value
  let n ← matchingDelimiter s 91 93
  let messages ← messageArrayLoop (s.length - n + 1) 0 s.tail
  if messages = [] then none else some messages

/-- The role that `parse_messages` gives a message. -/
def systemRole (m : Message) : Message :=
  if same m.role (ascii "developer") then { m with role := ascii "system" } else m

/-- `parse_messages` -/
def parseMessages (text : Bytes) : Option (List Message) :=
  (parseMessageArray (jsonKey (ascii "messages") text text.length)).map (List.map systemRole)

/-! ### What an object stands for -/

/-- The value of the first member of that name. -/
def memberOf (key : Bytes) (members : Json .members) : Option (Json .value) :=
  (topMember key members []).map Prod.fst

def stringOf : Json .value → Option Bytes
  | .string text => some text.decode
  | _ => none

/-- The text of a part: an object with a string `text`, and no `type` but `text`. -/
def partOf : Json .value → Option Bytes
  | .object _ members =>
    match memberOf (ascii "type") members with
    | none => (memberOf (ascii "text") members).bind stringOf
    | some contentType =>
      if stringOf contentType = some (ascii "text") then
        (memberOf (ascii "text") members).bind stringOf
      else none
  | _ => none

/-- The parts one behind the other. -/
def partsOf : {k : Kind} → Json k → Option Bytes
  | _, .element _ v _ rest => do
    let text ← partOf v
    let tail ← partsOf rest
    return text ++ tail
  | _, _ => some []

/-- The content of a message: a string, `null`, or text parts. -/
def contentOf : Json .value → Option Bytes
  | .string text => some text.decode
  | .literal .null => some []
  | .array _ (.element before v after rest) => partsOf (.element before v after rest)
  | _ => none

/-- The text of an array. -/
def arrayOf : Json .value → Option Bytes
  | .array gap elements => some (Json.array gap elements).render
  | _ => none

/-- The message that an object stands for, from its own members; `none` when it is no message. -/
def messageOf : Json .value → Option Message
  | .object _ members =>
    let content := memberOf (ascii "content") members
    let reasoning := memberOf (ascii "reasoning_content") members
    let toolCalls := memberOf (ascii "tool_calls") members
    if content.isNone ∧ reasoning.isNone ∧ toolCalls.isNone then none
    else do
      let role ← (memberOf (ascii "role") members).bind stringOf
      let content ← content.elim (some []) contentOf
      let reasoning ← reasoning.elim (some []) stringOf
      let toolCalls ← toolCalls.elim (some []) arrayOf
      return ⟨role, content, reasoning, toolCalls⟩
  | _ => none

def messagesOf : {k : Kind} → Json k → Option (List Message)
  | _, .element _ v _ rest => do
    let message ← messageOf v
    let tail ← messagesOf rest
    return message :: tail
  | _, _ => some []

/-! ### Names in an object -/

/-- The names of the members of a message. -/
inductive MessageKey where
  | role | content | reasoningContent | toolCalls

def MessageKey.name : MessageKey → Bytes
  | role => ascii "role"
  | content => ascii "content"
  | reasoningContent => ascii "reasoning_content"
  | toolCalls => ascii "tool_calls"

/-- The names of the members of a part. -/
inductive PartKey where
  | type | text

def PartKey.name : PartKey → Bytes
  | type => ascii "type"
  | text => ascii "text"

theorem MessageKey.isName (k : MessageKey) : IsName k.name := by cases k <;> decide

theorem PartKey.isName (k : PartKey) : IsName k.name := by cases k <;> decide

/-- A name is looked up at the member of the object itself. -/
def Own (key : Bytes) (gap : Gap) (members : Json .members) : Prop :=
  ∀ s : Bytes, jsonKey key ((Json.object gap members).render ++ s)
    (Json.object gap members).render.length = topLevel key members (125 :: s)

theorem jsonKey_object {key : Bytes} (hkey : IsName key) (gap : Gap) (members : Json .members)
    (s : Bytes) : jsonKey key ((Json.object gap members).render ++ s)
      (Json.object gap members).render.length = search key members (125 :: s) := by
  have hclosed : Closed s.length (125 :: s) := closed_cons (Or.inr (Or.inr rfl)) (Nat.le_refl _)
  have hopen : 34 ∉ 123 :: gap.bytes := by
    rw [List.mem_cons, not_or]
    exact ⟨by decide, not_quote_gap gap⟩
  have hle : s.length ≤ (members.render ++ 125 :: s).length := by
    rw [List.length_append, List.length_cons]
    omega
  have hshape : (Json.object gap members).render ++ s =
      (123 :: gap.bytes) ++ (members.render ++ 125 :: s) := by
    rw [Json.render, enclosed_append]
  have hlimit : (Json.object gap members).render.length =
      ((Json.object gap members).render ++ s).length - s.length := by
    rw [List.length_append, Nat.add_sub_cancel]
  have hend : keyBefore key s.length (125 :: s) = none := by
    have htake : (125 :: s).take ((125 :: s).length - s.length) = [125] := by
      rw [List.length_cons, Nat.add_sub_cancel_left]
      rfl
    have hne : quoted key ≠ [] := List.cons_ne_nil _ _
    refine jsonKey_of_none ((find_eq_none hne).mpr fun hsub => ?_)
    rw [htake] at hsub
    exact absurd (hsub.subset List.mem_cons_self) (by decide)
  have hsearch := jsonKey_render hkey members hclosed
  rw [hend, Option.or_none] at hsearch
  rw [hlimit, ← hsearch, ← keyBefore_skip hopen hle, ← hshape]
  rfl

theorem own_iff {key : Bytes} (hkey : IsName key) (gap : Gap) (members : Json .members) :
    Own key gap members ↔ Unshadowed key members := by
  constructor
  · intro h
    have := h []
    rw [jsonKey_object hkey] at this
    exact (search_eq_topLevel members rfl _).mp this
  · intro h s
    rw [jsonKey_object hkey]
    exact (search_eq_topLevel members rfl _).mpr h

/-- The members of a content that are looked up are own ones. -/
def OwnParts (own : Bytes → Gap → Json .members → Prop) : {k : Kind} → Json k → Prop
  | _, .array _ elements => OwnParts own elements
  | _, .element _ (.object gap members) _ rest =>
    (∀ k : PartKey, own k.name gap members) ∧ OwnParts own rest
  | _, .element _ _ _ rest => OwnParts own rest
  | _, _ => True

/-- The members of the messages that are looked up are own ones. -/
def OwnMessages (own : Bytes → Gap → Json .members → Prop) : {k : Kind} → Json k → Prop
  | _, .element _ (.object gap members) _ rest =>
    (∀ k : MessageKey, own k.name gap members) ∧
      (∀ content ∈ memberOf (ascii "content") members, OwnParts own content) ∧
      OwnMessages own rest
  | _, .element _ _ _ rest => OwnMessages own rest
  | _, _ => True

/-! ### Reading own members -/

theorem topMember_fst (key : Bytes) {k : Kind} (j : Json k) :
    ∀ s t : Bytes, (topMember key j s).map Prod.fst = (topMember key j t).map Prod.fst := by
  induction j with
  | literal | number | string | array | object | noElement | element | noMember =>
    exact fun _ _ => rfl
  | member before name beforeColon afterColon v after rest ihv ihrest =>
    intro s t
    rw [topMember, topMember]
    split_ifs
    · rfl
    · exact ihrest s t

/-- Where an own member is found. -/
theorem Own.lookup {key : Bytes} {gap : Gap} {members : Json .members} (h : Own key gap members)
    (s : Bytes) :
    memberOf key members = none ∧ jsonKey key ((Json.object gap members).render ++ s)
        (Json.object gap members).render.length = none ∨
      ∃ (v : Json .value) (t : Bytes), Behind t ∧ memberOf key members = some v ∧
        jsonKey key ((Json.object gap members).render ++ s)
          (Json.object gap members).render.length = some (v.render ++ t) := by
  have hbehind : Behind (125 :: s) := closed_cons (Or.inr (Or.inr rfl)) (Nat.zero_le _)
  rw [h s, topLevel, memberOf, topMember_fst key members [] (125 :: s)]
  cases hx : topMember key members (125 :: s) with
  | none => exact Or.inl ⟨rfl, rfl⟩
  | some x => exact Or.inr ⟨x.1, x.2, behind_of_topMember members hbehind hx, rfl, rfl⟩

theorem jsonString_value (v : Json .value) {c s : Bytes} (h : stringOf v = some c) :
    (jsonString (v.render ++ s)).map Prod.fst = some c := by
  cases v with
  | string text =>
    have hread : jsonString ((Json.string text).render ++ s) = some (text.decode, s) :=
      jsonString_render text s
    rw [hread, ← h]
    rfl
  | literal | number | array | object => exact nomatch h

theorem partText_object {gap : Gap} {members : Json .members}
    (hown : ∀ k : PartKey, Own k.name gap members) {c : Bytes}
    (h : partOf (.object gap members) = some c) (s : Bytes) :
    partText ((Json.object gap members).render ++ s) (Json.object gap members).render.length =
      some c := by
  have htext {c : Bytes} (h : (memberOf (ascii "text") members).bind stringOf = some c) :
      ((jsonKey (ascii "text") ((Json.object gap members).render ++ s)
        (Json.object gap members).render.length).bind fun value =>
          (jsonString value).map Prod.fst) = some c := by
    rcases (hown .text).lookup s with ⟨hnone, -⟩ | ⟨v, t, -, hv, hlookup⟩
    · rw [show memberOf (ascii "text") members = none from hnone] at h
      exact nomatch h
    · rw [show memberOf (ascii "text") members = some v from hv] at h
      rw [show jsonKey (ascii "text") _ _ = _ from hlookup, Option.bind_some]
      exact jsonString_value v h
  rw [partOf] at h
  rw [partText]
  rcases (hown .type).lookup s with ⟨hnone, hlookup⟩ | ⟨v, t, -, hv, hlookup⟩
  · rw [show memberOf (ascii "type") members = none from hnone] at h
    rw [show jsonKey (ascii "type") _ _ = none from hlookup]
    exact htext h
  · rw [show memberOf (ascii "type") members = some v from hv] at h
    simp only at h
    split_ifs at h with htype
    have hread := jsonString_value v (s := t) htype
    obtain ⟨⟨contentType, rest⟩, hstring, hfst⟩ := Option.map_eq_some_iff.mp hread
    rw [show jsonKey (ascii "type") _ _ = _ from hlookup]
    simp only [hstring, if_pos (show contentType = ascii "text" from hfst)]
    exact htext h

/-- What stands behind an element: the end of the array, or a comma and the next element. -/
theorem skipSpace_behind (after : Gap) (rest : Json .elements) (s : Bytes) :
    skipSpace (behindValue after rest (93 :: s)) = rest.comma ++ (rest.render ++ 93 :: s) := by
  cases rest with
  | noElement => exact skipSpace_gap_cons after (by decide) _
  | element => exact skipSpace_gap_cons after (by decide) _

theorem length_lt_behind {k : Kind} (after : Gap) (rest : Json k) (s : Bytes) :
    s.length < (behindValue after rest (93 :: s)).length := by
  simp only [behindValue, List.length_append, List.length_cons]
  omega

theorem contentLoop_part {limit n : ℕ} {found : Bool} {s part text : Bytes}
    (hpart : skipSpace s = part) (hlimit : ¬ part.length ≤ limit) (hhead : part.head? = some 123)
    (hn : matchingDelimiter part 123 125 = some n) (hend : ¬ part.length - n + 1 < limit)
    (htext : partText part n = some text) :
    contentLoop limit found s =
      let rest := skipSpace (part.drop n)
      if rest.length ≤ limit then some text
      else if rest.head? = some 44 then (contentLoop limit true rest.tail).map (text ++ ·)
      else if rest.head? ≠ some 93 then none
      else some text := by
  rw [contentLoop]
  simp only [hpart, hlimit, hhead, hn, hend, htext, if_false, ne_eq, not_true]
  rfl

theorem head_object (gap : Gap) (members : Json .members) (s : Bytes) :
    ((Json.object gap members).render ++ s).head? = some 123 := rfl

/-- The loop reads the parts up to the end of the array. -/
theorem contentLoop_elements {k : Kind} (j : Json k) :
    ∀ {c : Bytes} {found : Bool} {gap : Gap} (s : Bytes), k = .elements → j.comma = [44] →
      OwnParts Own j → partsOf j = some c →
        contentLoop (s.length + 1) found (gap.bytes ++ (j.render ++ 93 :: s)) = some c := by
  induction j with
  | literal | number | string | array | object | noMember | member => exact fun _ hk => nomatch hk
  | noElement => exact fun _ _ hcomma => nomatch hcomma
  | element before v after rest ihv ihrest =>
    intro c found gap s _ _ hown h
    rw [partsOf] at h
    obtain ⟨text, htext, hparts⟩ := Option.bind_eq_some_iff.mp h
    obtain ⟨tail, htail, hc⟩ := Option.bind_eq_some_iff.mp hparts
    cases v with
    | literal | number | string | array => exact nomatch htext
    | object inner members =>
      obtain ⟨hkeys, hrest⟩ := hown
      have hbehind := length_lt_behind after rest s
      have hpart : skipSpace (gap.bytes ++ ((Json.element before (.object inner members) after
          rest).render ++ 93 :: s)) =
          (Json.object inner members).render ++ behindValue after rest (93 :: s) := by
        rw [skipSpace_gap, ← skipSpace_render before]
        simp only [Json.render, behindValue, List.append_assoc]
      have hpos := render_pos (.object inner members)
      have hlong : ¬ ((Json.object inner members).render ++
          behindValue after rest (93 :: s)).length ≤ s.length + 1 := by
        rw [List.length_append]
        omega
      have hend : ¬ ((Json.object inner members).render ++ behindValue after rest (93 :: s)).length -
          (Json.object inner members).render.length + 1 < s.length + 1 := by
        rw [List.length_append]
        omega
      rw [contentLoop_part hpart hlong (head_object inner members _)
        (matchingDelimiter_object inner members _) hend
        (partText_object hkeys htext (behindValue after rest (93 :: s)))]
      simp only [List.drop_left, skipSpace_behind]
      cases rest with
      | noElement =>
        have hnil : ([] : Bytes) = tail := Option.some.inj htail
        have hshort : (Json.noElement.comma ++ (Json.noElement.render ++ 93 :: s)).length ≤
            s.length + 1 := Nat.le_refl _
        rw [if_pos hshort, ← Option.some.inj hc, ← hnil, List.append_nil]
      | element before' v' after' rest' =>
        have hlong : ¬ ((Json.element before' v' after' rest').comma ++
            ((Json.element before' v' after' rest').render ++ 93 :: s)).length ≤ s.length + 1 := by
          simp only [Json.comma, List.length_append, List.length_cons]
          omega
        have hloop := @ihrest tail true default s rfl rfl hrest htail
        rw [if_neg hlong]
        show Option.map (text ++ ·) (contentLoop (s.length + 1) true
          ((Json.element before' v' after' rest').render ++ 93 :: s)) = some c
        rw [show (Json.element before' v' after' rest').render ++ 93 :: s =
          (default : Gap).bytes ++ ((Json.element before' v' after' rest').render ++ 93 :: s) from rfl,
          hloop, Option.map_some]
        exact hc

theorem jsonContent_value (v : Json .value) {c : Bytes} (hown : OwnParts Own v)
    (h : contentOf v = some c) (s : Bytes) : jsonContent (v.render ++ s) = some c := by
  cases v with
  | string text =>
    show Option.map Prod.fst (jsonString ((Json.string text).render ++ s)) = some c
    exact jsonString_value (.string text) h
  | literal l =>
    cases l with
    | null => exact h
    | true | false => cases h
  | array gap elements =>
    cases elements with
    | noElement => cases h
    | element before v after rest =>
      have hloop := @contentLoop_elements _ (.element before v after rest) c false gap s rfl rfl hown h
      have hlength : ((Json.array gap (.element before v after rest)).render ++ s).length -
          (Json.array gap (.element before v after rest)).render.length + 1 = s.length + 1 := by
        rw [List.length_append, Nat.add_sub_cancel_left]
      have htail : ((Json.array gap (.element before v after rest)).render ++ s).tail =
          gap.bytes ++ ((Json.element before v after rest).render ++ 93 :: s) := by
        rw [Json.render, enclosed_append]
        rfl
      show Option.bind (matchingDelimiter
        ((Json.array gap (.element before v after rest)).render ++ s) 91 93) _ = some c
      rw [matchingDelimiter_array, Option.bind_some, hlength, htail]
      exact hloop
  | number | object => cases h

/-- A message is read from the members of its own object. -/
theorem parseMessage_object {gap : Gap} {members : Json .members}
    (hown : ∀ k : MessageKey, Own k.name gap members)
    (hparts : ∀ content ∈ memberOf (ascii "content") members, OwnParts Own content) {m : Message}
    (h : messageOf (.object gap members) = some m) (s : Bytes) :
    parseMessage ((Json.object gap members).render ++ s) (Json.object gap members).render.length =
      some m := by
  have hisNone (k : MessageKey) :
      (jsonKey k.name ((Json.object gap members).render ++ s)
        (Json.object gap members).render.length = none) ↔ (memberOf k.name members).isNone := by
    rcases (hown k).lookup s with ⟨hnone, hlookup⟩ | ⟨v, t, -, hv, hlookup⟩
    · rw [hnone, hlookup]
      exact ⟨fun _ => rfl, fun _ => rfl⟩
    · rw [hv, hlookup]
      exact ⟨fun h => (nomatch h), fun h => (nomatch h)⟩
  -- a member that may be absent
  have hread (k : MessageKey) {f : Json .value → Option Bytes} {g : Bytes → Option Bytes}
      (hfg : ∀ v ∈ memberOf k.name members, ∀ c t : Bytes, Behind t → f v = some c →
        g (v.render ++ t) = some c) {c : Bytes}
      (hc : (memberOf k.name members).elim (some []) f = some c) :
      (jsonKey k.name ((Json.object gap members).render ++ s)
        (Json.object gap members).render.length).elim (some []) g = some c := by
    rcases (hown k).lookup s with ⟨hnone, hlookup⟩ | ⟨v, t, ht, hv, hlookup⟩
    · rw [hnone] at hc
      rw [hlookup]
      exact hc
    · rw [hv] at hc
      rw [hlookup]
      exact hfg v hv c t ht hc
  rw [messageOf] at h
  split_ifs at h with habsent
  obtain ⟨role, hrole, h₁⟩ := Option.bind_eq_some_iff.mp h
  obtain ⟨content, hcontent, h₂⟩ := Option.bind_eq_some_iff.mp h₁
  obtain ⟨reasoning, hreasoning, h₃⟩ := Option.bind_eq_some_iff.mp h₂
  obtain ⟨toolCalls, htoolCalls, h₄⟩ := Option.bind_eq_some_iff.mp h₃
  have hcontent' : (jsonKey (ascii "content") ((Json.object gap members).render ++ s)
      (Json.object gap members).render.length).elim (some []) jsonContent = some content :=
    hread .content
    (fun v hv c t _ hvc => jsonContent_value v (hparts v hv) hvc t) hcontent
  have hreasoning' : (jsonKey (ascii "reasoning_content") ((Json.object gap members).render ++ s)
      (Json.object gap members).render.length).elim (some [])
        (fun value => (jsonString value).map Prod.fst) = some reasoning := hread .reasoningContent
    (fun v _ c t _ hvc => jsonString_value v hvc) hreasoning
  have htoolCalls' : (jsonKey (ascii "tool_calls") ((Json.object gap members).render ++ s)
      (Json.object gap members).render.length).elim (some [])
        (fun value => (jsonRawValue value).map Prod.fst) = some toolCalls := hread .toolCalls
    (fun v _ c t ht hvc => by
      cases v with
      | array gap elements =>
        simp only [jsonRawValue_render _ ht.ended, Option.map_some]
        exact hvc
      | literal | number | string | object => exact nomatch hvc) htoolCalls
  have hbracket : ¬ (toolCalls ≠ [] ∧ toolCalls.head? ≠ some 91) := by
    cases hm : memberOf (ascii "tool_calls") members with
    | none =>
      rw [hm] at htoolCalls
      exact fun hne => hne.1 (Option.some.inj htoolCalls).symm
    | some v =>
      rw [hm] at htoolCalls
      cases v with
      | array gap elements =>
        rw [← Option.some.inj htoolCalls]
        exact fun hne => hne.2 rfl
      | literal | number | string | object => exact nomatch htoolCalls
  rw [parseMessage]
  rcases (hown .role).lookup s with ⟨hnone, -⟩ | ⟨v, t, -, hv, hlookup⟩
  · rw [show memberOf (ascii "role") members = none from hnone] at hrole
    exact nomatch hrole
  · rw [show memberOf (ascii "role") members = some v from hv, Option.bind_some] at hrole
    have hpresent : ¬ (jsonKey (ascii "content") ((Json.object gap members).render ++ s)
          (Json.object gap members).render.length = none ∧
        jsonKey (ascii "reasoning_content") ((Json.object gap members).render ++ s)
          (Json.object gap members).render.length = none ∧
        jsonKey (ascii "tool_calls") ((Json.object gap members).render ++ s)
          (Json.object gap members).render.length = none) := fun hnone =>
      habsent ⟨(hisNone .content).mp hnone.1, (hisNone .reasoningContent).mp hnone.2.1,
        (hisNone .toolCalls).mp hnone.2.2⟩
    have hrole' : jsonKey (ascii "role") ((Json.object gap members).render ++ s)
        (Json.object gap members).render.length = some (v.render ++ t) := hlookup
    rw [hrole']
    simp only [if_neg hpresent, jsonString_value v hrole, hcontent', hreasoning', htoolCalls',
      Option.bind_eq_bind, Option.bind_some, if_neg hbracket]
    exact h₄

theorem messageArrayLoop_object {limit count n : ℕ} {s object : Bytes} {message : Message}
    (hobject : skipSpace s = object) (hlimit : ¬ object.length < limit)
    (hhead : object.head? = some 123) (hcount : ¬ maxMessages ≤ count)
    (hn : matchingDelimiter object 123 125 = some n) (hend : ¬ object.length - n + 1 < limit)
    (hmessage : parseMessage object n = some message) :
    messageArrayLoop limit count s =
      let rest := skipSpace (object.drop n)
      if rest.length < limit then none
      else if rest.head? = some 44 then
        (messageArrayLoop limit (count + 1) rest.tail).map (message :: ·)
      else if rest.head? = some 93 then some [message]
      else none := by
  have hbracket : ¬ (object.length < limit ∨ object.head? = some 93) := by
    rw [hhead]
    exact not_or.mpr ⟨hlimit, by decide⟩
  have hopen : ¬ (object.head? ≠ some 123 ∨ maxMessages ≤ count) :=
    not_or.mpr ⟨not_not.mpr hhead, hcount⟩
  rw [messageArrayLoop]
  simp only [hobject, if_neg hbracket, if_neg hopen, hn, if_neg hend, hmessage]
  rfl

/-- The loop reads the messages up to the end of the array. -/
theorem messageArrayLoop_elements {k : Kind} (j : Json k) :
    ∀ {ms : List Message} {count : ℕ} {gap : Gap} (s : Bytes), k = .elements → j.comma = [44] →
      count + ms.length ≤ maxMessages → OwnMessages Own j → messagesOf j = some ms →
        messageArrayLoop (s.length + 1) count (gap.bytes ++ (j.render ++ 93 :: s)) = some ms := by
  induction j with
  | literal | number | string | array | object | noMember | member => exact fun _ hk => nomatch hk
  | noElement => exact fun _ _ hcomma => nomatch hcomma
  | element before v after rest ihv ihrest =>
    intro ms count gap s _ _ hcount hown h
    rw [messagesOf] at h
    obtain ⟨message, hmessage, hmessages⟩ := Option.bind_eq_some_iff.mp h
    obtain ⟨tail, htail, hms⟩ := Option.bind_eq_some_iff.mp hmessages
    cases v with
    | literal | number | string | array => exact nomatch hmessage
    | object inner members =>
      obtain ⟨hkeys, hparts, hrest⟩ := hown
      have hlength : count + (tail.length + 1) ≤ maxMessages := by
        rw [← Option.some.inj hms] at hcount
        exact hcount
      have hbehind := length_lt_behind after rest s
      have hobject : skipSpace (gap.bytes ++ ((Json.element before (.object inner members) after
          rest).render ++ 93 :: s)) =
          (Json.object inner members).render ++ behindValue after rest (93 :: s) := by
        rw [skipSpace_gap, ← skipSpace_render before]
        simp only [Json.render, behindValue, List.append_assoc]
      have hlong : ¬ ((Json.object inner members).render ++
          behindValue after rest (93 :: s)).length < s.length + 1 := by
        rw [List.length_append]
        omega
      have hend : ¬ ((Json.object inner members).render ++ behindValue after rest (93 :: s)).length -
          (Json.object inner members).render.length + 1 < s.length + 1 := by
        rw [List.length_append]
        omega
      rw [messageArrayLoop_object hobject hlong (head_object inner members _) (by omega)
        (matchingDelimiter_object inner members _) hend
        (parseMessage_object hkeys hparts hmessage (behindValue after rest (93 :: s)))]
      simp only [List.drop_left, skipSpace_behind]
      cases rest with
      | noElement =>
        have hnil : ([] : List Message) = tail := Option.some.inj htail
        have hshort : ¬ (Json.noElement.comma ++ (Json.noElement.render ++ 93 :: s)).length <
            s.length + 1 := Nat.lt_irrefl _
        rw [if_neg hshort, ← Option.some.inj hms, ← hnil]
        rfl
      | element before' v' after' rest' =>
        have hlong' : ¬ ((Json.element before' v' after' rest').comma ++
            ((Json.element before' v' after' rest').render ++ 93 :: s)).length < s.length + 1 := by
          simp only [Json.comma, List.length_append, List.length_cons]
          omega
        have hloop := @ihrest tail (count + 1) default s rfl rfl (by omega) hrest htail
        rw [if_neg hlong']
        show Option.map (message :: ·) (messageArrayLoop (s.length + 1) (count + 1)
          ((default : Gap).bytes ++ ((Json.element before' v' after' rest').render ++ 93 :: s))) =
            some ms
        rw [hloop, Option.map_some]
        exact hms

/-! ### Requests with messages -/

/-- A request whose `messages` are an array of messages, at most as many as are allowed. -/
structure MessageRequest where
  request : Request
  gap : Gap
  elements : Json .elements
  messages : List Message
  member : request.member (ascii "messages") = some (.array gap elements)
  own : messagesOf elements = some messages
  ne_nil : messages ≠ []
  length_le : messages.length ≤ maxMessages

namespace MessageRequest

variable (c : MessageRequest)

/-- In no object does another name shadow one that is looked up. -/
structure Clear : Prop where
  array : Unshadowed (ascii "messages") c.request.members
  members : OwnMessages (fun key _ members => Unshadowed key members) c.elements

end MessageRequest

theorem ownParts_iff {k : Kind} (j : Json k) :
    OwnParts Own j ↔ OwnParts (fun key _ members => Unshadowed key members) j := by
  induction j with
  | literal | number | string | object | noElement | noMember | member => exact Iff.rfl
  | array gap elements ih => exact ih
  | element before v after rest ihv ihrest =>
    cases v with
    | literal | number | string | array => exact ihrest
    | object gap members =>
      exact and_congr (forall_congr' fun k => own_iff k.isName gap members) ihrest

theorem ownMessages_iff {k : Kind} (j : Json k) :
    OwnMessages Own j ↔ OwnMessages (fun key _ members => Unshadowed key members) j := by
  induction j with
  | literal | number | string | array | object | noElement | noMember | member => exact Iff.rfl
  | element before v after rest ihv ihrest =>
    cases v with
    | literal | number | string | array => exact ihrest
    | object gap members =>
      exact and_congr (forall_congr' fun k => own_iff k.isName gap members)
        (and_congr (forall₂_congr fun content _ => ownParts_iff content) ihrest)

theorem parseMessageArray_own (c : MessageRequest)
    (harray : c.request.lookup (ascii "messages") = c.request.ownText (ascii "messages"))
    (hmembers : OwnMessages Own c.elements) :
    parseMessageArray (c.request.lookup (ascii "messages")) = some c.messages := by
  obtain ⟨⟨v, t⟩, hx, hv⟩ := Option.map_eq_some_iff.mp c.member
  have hv' : v = .array c.gap c.elements := hv
  have hlookup : c.request.lookup (ascii "messages") =
      some ((Json.array c.gap c.elements).render ++ t) := by
    rw [harray, Request.ownText, topLevel, hx, Option.map_some, hv']
  have hlength : ((Json.array c.gap c.elements).render ++ t).length -
      (Json.array c.gap c.elements).render.length + 1 = t.length + 1 := by
    rw [List.length_append, Nat.add_sub_cancel_left]
  have htail : ((Json.array c.gap c.elements).render ++ t).tail =
      c.gap.bytes ++ (c.elements.render ++ 93 :: t) := by
    rw [Json.render, enclosed_append]
    rfl
  have hcomma : c.elements.comma = [44] := by
    have hown := c.own
    cases helements : c.elements with
    | noElement =>
      rw [helements] at hown
      exact absurd (Option.some.inj hown).symm c.ne_nil
    | element => rfl
  have hcount : 0 + c.messages.length ≤ maxMessages := by
    rw [Nat.zero_add]
    exact c.length_le
  have hloop := @messageArrayLoop_elements _ c.elements c.messages 0 c.gap t rfl hcomma hcount
    hmembers c.own
  rw [parseMessageArray, hlookup]
  simp only [Option.bind_eq_bind, Option.bind_some, matchingDelimiter_array, hlength, htail, hloop,
    if_neg c.ne_nil]

end Chat

end FortAI
