import FortAI.Chat.Writer
import FortAI.Chat.Messages

/-!
# Documents on one line

The trees of the replies of the server: no blanks, and every string as `json_escape` writes it.

* `render_object`, `render_array` : the text, member by member.
* `oneLine_object`, `oneLine_array` : the text has no line end.
* `field_object` : what a member of that name holds.
-/

namespace FortAI

namespace Chat

open CString

namespace Document

/-! ### Trees -/

def null : Json .value := .literal .null

/-- The string that `json_escape` writes. -/
def string (text : Bytes) : Json .value := .string (escapeText text)

/-- A fixed string. -/
def word (s : String) : Json .value := string (ascii s)

def digits (n : ℕ) : Digits :=
  ⟨decimal n, decimal_ne_nil n, List.all_eq_true.mpr isDigit_of_mem_decimal⟩

/-- A number without exponent has no sign in it. -/
theorem mark_none : ∀ e ∈ (none : Option (Byte × Bytes × Digits)),
    (e.1 = 101 ∨ e.1 = 69) ∧ (e.2.1 = [] ∨ e.2.1 = [43] ∨ e.2.1 = [45]) :=
  nofun

/-- The number that `append_int` writes. -/
def number : ℤ → Json .value
  | .ofNat n => .number ⟨false, digits n, none, none, decimal_of_head, mark_none⟩
  | .negSucc n => .number ⟨true, digits (n + 1), none, none, decimal_of_head, mark_none⟩

/-- The members of an object. -/
def fields : List (String × Json .value) → Json .members
  | [] => .noMember
  | (key, v) :: rest =>
    .member default (escapeText (ascii key)) default default v default (fields rest)

def items : List (Json .value) → Json .elements
  | [] => .noElement
  | v :: rest => .element default v default (items rest)

def object (l : List (String × Json .value)) : Json .value := .object default (fields l)

def array (l : List (Json .value)) : Json .value := .array default (items l)

/-! ### Texts -/

/-- The text of a member. -/
def fieldText (f : String × Json .value) : Bytes := jsonEscape (ascii f.1) ++ 58 :: f.2.render

theorem render_null : null.render = ascii "null" := rfl

theorem render_string (text : Bytes) : (string text).render = jsonEscape text :=
  (jsonEscape_eq text).symm

theorem render_number (n : ℤ) : (number n).render = signed n := by
  cases n with
  | ofNat n =>
    show [] ++ decimal n ++ [] ++ [] = decimal n
    simp only [List.append_nil, List.nil_append]
  | negSucc n =>
    show [45] ++ decimal (n + 1) ++ [] ++ [] = [45] ++ decimal (n + 1)
    simp only [List.append_nil]

theorem render_fields (f : String × Json .value) (rest : List (String × Json .value)) :
    (fields (f :: rest)).render = fieldText f ++ rest.flatMap (44 :: fieldText ·) := by
  induction rest generalizing f with
  | nil =>
    rw [fieldText, jsonEscape_eq]
    show (escapeText (ascii f.1)).render ++ 58 :: (f.2.render ++ []) = _
    rw [List.append_nil, List.flatMap_nil, List.append_nil]
  | cons g rest ih =>
    rw [List.flatMap_cons, fieldText, jsonEscape_eq, List.append_assoc, List.cons_append,
      List.cons_append, ← ih]
    rfl

theorem render_items (v : Json .value) (rest : List (Json .value)) :
    (items (v :: rest)).render = v.render ++ rest.flatMap (44 :: ·.render) := by
  induction rest generalizing v with
  | nil =>
    show v.render ++ [] = _
    rw [List.flatMap_nil]
  | cons w rest ih =>
    rw [List.flatMap_cons, List.cons_append, ← ih]
    rfl

theorem render_object (f : String × Json .value) (rest : List (String × Json .value)) :
    (object (f :: rest)).render =
      123 :: (fieldText f ++ (rest.flatMap (44 :: fieldText ·) ++ [125])) := by
  rw [← List.append_assoc, ← render_fields]
  rfl

theorem render_object_nil : (object []).render = [123, 125] := rfl

theorem render_array (v : Json .value) (rest : List (Json .value)) :
    (array (v :: rest)).render = 91 :: (v.render ++ (rest.flatMap (44 :: ·.render) ++ [93])) := by
  rw [← List.append_assoc, ← render_items]
  rfl

theorem render_array_nil : (array []).render = [91, 93] := rfl

theorem wellFormed (v : Json .value) : WellFormed v.render :=
  ⟨default, v, default, (List.append_nil _).symm⟩

/-! ### Line ends -/

/-- A text without control characters, and so without line ends. -/
def OneLine (text : Bytes) : Prop := ∀ b ∈ text, 32 ≤ b

theorem OneLine.append {s t : Bytes} (hs : OneLine s) (ht : OneLine t) : OneLine (s ++ t) :=
  fun b hb => (List.mem_append.mp hb).elim (hs b) (ht b)

theorem OneLine.cons {b : Byte} {s : Bytes} (hb : 32 ≤ b) (hs : OneLine s) : OneLine (b :: s) := by
  intro c hc
  rcases List.mem_cons.mp hc with rfl | hc
  · exact hb
  · exact hs c hc

theorem OneLine.nil : OneLine [] := nofun

theorem OneLine.flatMap {α : Type} {l : List α} {f : α → Bytes} (h : ∀ a ∈ l, OneLine (f a)) :
    OneLine (l.flatMap f) := by
  intro b hb
  obtain ⟨a, ha, hb⟩ := List.mem_flatMap.mp hb
  exact h a ha b hb

theorem OneLine.not_newline {s : Bytes} (h : OneLine s) : 10 ∉ s :=
  fun hmem => absurd (h 10 hmem) (by decide)

theorem oneLine_literal (l : Literal) : OneLine (Json.literal l).render := by
  have hall : l.render.all (fun b => decide (32 ≤ b)) = true := by cases l <;> rfl
  exact fun b hb => of_decide_eq_true (List.all_eq_true.mp hall b hb)

theorem oneLine_string (text : Bytes) : OneLine (string text).render := by
  rw [render_string]
  exact le_of_mem_jsonEscape

theorem oneLine_word (s : String) : OneLine (word s).render := oneLine_string _

theorem oneLine_numeral (n : Number) : OneLine (Json.number n).render := by
  intro b hb
  have hnumeric := numeric_render n b hb
  simp only [isNumeric, isDigit, Bool.or_eq_true, Bool.and_eq_true, decide_eq_true_eq] at hnumeric
  rcases hnumeric with ((((h | rfl) | rfl) | rfl) | rfl) | rfl
  · exact UInt8.le_trans (by decide) h.1
  all_goals decide

theorem oneLine_number (n : ℤ) : OneLine (number n).render := by
  cases n <;> exact oneLine_numeral _

theorem oneLine_fieldText {f : String × Json .value} (h : OneLine f.2.render) :
    OneLine (fieldText f) :=
  .append le_of_mem_jsonEscape (.cons (by decide) h)

theorem oneLine_object {l : List (String × Json .value)} (h : ∀ f ∈ l, OneLine f.2.render) :
    OneLine (object l).render := by
  cases l with
  | nil => exact .cons (by decide) (.cons (by decide) .nil)
  | cons f rest =>
    rw [render_object]
    exact .cons (by decide) (.append (oneLine_fieldText (h f List.mem_cons_self)) (.append
      (.flatMap fun g hg => .cons (by decide) (oneLine_fieldText (h g (List.mem_cons_of_mem f hg))))
      (.cons (by decide) .nil)))

theorem oneLine_array {l : List (Json .value)} (h : ∀ v ∈ l, OneLine v.render) :
    OneLine (array l).render := by
  cases l with
  | nil => exact .cons (by decide) (.cons (by decide) .nil)
  | cons v rest =>
    rw [render_array]
    exact .cons (by decide) (.append (h v List.mem_cons_self) (.append
      (.flatMap fun w hw => .cons (by decide) (h w (List.mem_cons_of_mem v hw)))
      (.cons (by decide) .nil)))

/-! ### Reading -/

/-- The member of that name. -/
def field (key : String) : Json .value → Option (Json .value)
  | .object _ members => memberOf (ascii key) members
  | _ => none

/-- The element at that index, counted from 0. -/
def entry (i : ℕ) : Json .value → Option (Json .value)
  | .array _ elements => elements.elementList[i]?
  | _ => none

/-- The string that the member of that name holds. -/
def stringAt (key : String) (v : Json .value) : Option Bytes := (field key v).bind stringOf

def elementsOf : Json .value → Option (List (Json .value))
  | .array _ elements => some elements.elementList
  | _ => none

def integerOf : Json .value → Option ℤ
  | .number ⟨minus, int, none, none, _, _⟩ =>
    some (if minus then -(value int.bytes : ℤ) else value int.bytes)
  | _ => none

theorem stringOf_string (text : Bytes) : stringOf (string text) = some text :=
  congrArg some (decode_escapeText text)

theorem stringAt_of_field {key : String} {v : Json .value} {text : Bytes}
    (h : field key v = some (string text)) : stringAt key v = some text := by
  rw [stringAt, h, Option.bind_some, stringOf_string]

theorem integerOf_number (n : ℤ) : integerOf (number n) = some n := by
  cases n with
  | ofNat n => exact congrArg (fun n : ℕ => some (n : ℤ)) (value_decimal n)
  | negSucc n => exact congrArg (fun n : ℕ => some (-(n : ℤ))) (value_decimal (n + 1))

theorem field_object (key : String) (l : List (String × Json .value)) :
    field key (object l) = (l.find? fun f => decide (ascii f.1 = ascii key)).map Prod.snd := by
  show memberOf (ascii key) (fields l) = _
  induction l with
  | nil => rfl
  | cons f rest ih =>
    rw [memberOf, fields, topMember, decode_escapeText, List.find?_cons]
    by_cases hkey : ascii f.1 = ascii key
    · rw [if_pos hkey, decide_eq_true hkey]
      rfl
    · rw [if_neg hkey, decide_eq_false hkey, ← ih, memberOf, topMember_fst (ascii key) _ _ []]

theorem elementList_items (l : List (Json .value)) : (items l).elementList = l := by
  induction l with
  | nil => rfl
  | cons v rest ih =>
    show v :: (items rest).elementList = v :: rest
    rw [ih]

theorem elementsOf_array (l : List (Json .value)) : elementsOf (array l) = some l :=
  congrArg some (elementList_items l)

end Document

end Chat

end FortAI
