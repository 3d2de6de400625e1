import FortAI.Chat.Options
import FortAI.Http.Header
import FortAI.Machine.Character
import FortAI.Machine.Decimal
import FortAI.Service.Sampling

/-!
# Server properties

`POST /props` stores settings in the environment of the process (`server_props_update`), and every
request reads its defaults from there.

* `Single` : single precision numbers, with the input and output of Fortran that the settings pass
  through.
* `serverRealDefault_printed`, `serverIntegerDefault_signed` : what is stored is read back.
* `updateAll_eq` : what a list of updates leaves in the environment.
-/

namespace FortAI

namespace Settings

open CString Character Chat Http

/-! ### Numbers in text -/

/-- The exponent of an `es` edit descriptor: a sign and two digits. -/
def exponentText (e : ℤ) : Bytes :=
  let digits := decimal e.natAbs
  69 :: (if e < 0 then 45 else 43) :: (List.replicate (2 - digits.length) 48 ++ digits)

/-- What the format `(es24.16)` makes of a number, without the blanks behind it in a longer
variable. -/
def esText (d : Scientific 16) : Bytes :=
  let digits := List.replicate (17 - (decimal d.digits).length) 48 ++ decimal d.digits
  let number := (if d.minus then [45] else []) ++ digits.take 1 ++ 46 :: digits.drop 1 ++
    exponentText d.exponent
  List.replicate (24 - number.length) space ++ number

/-- `real32`, with its constants and with list-directed input.  Input takes the nearest number, and
`(es24.16)` prints the number with 17 digits. -/
structure Single (R : Type) {D : Type} [Arithmetic R D] extends Reals R where
  /-- The value of a finite number. -/
  value : R → Option ℚ
  /-- `tiny(1.0_real32)` -/
  tiny : R
  /-- `huge(0.0_real32)` -/
  huge : R
  /-- `-huge(0.0_real32)` -/
  minusHuge : R
  /-- `0.8_real32` -/
  temperature : R
  /-- `0.95_real32` -/
  topP : R
  /-- `0.05_real32` -/
  minP : R
  printed : R → Scientific 16
  readInteger : Bytes → ℤ → Option ℤ
  binary : ∀ {x q}, value x = some q → IsBinary 24 q
  finite_eq : ∀ x, finite x = (value x).isSome
  finite_eq' : ∀ x, Arithmetic.finite x = (value x).isSome
  le_iff : ∀ {x y p q}, value x = some p → value y = some q → (Arithmetic.le x y = true ↔ p ≤ q)
  lt_iff : ∀ {x y p q}, value x = some p → value y = some q → (Arithmetic.lt x y = true ↔ p < q)
  value_zero : value Arithmetic.zero = some 0
  value_one : value Arithmetic.one = some 1
  value_tiny : value tiny = some (1 / 2 ^ 126)
  value_huge : value huge = some ((2 ^ 24 - 1) * 2 ^ 104)
  value_minusHuge : value minusHuge = some (-((2 ^ 24 - 1) * 2 ^ 104))
  value_temperature : value temperature = some (13421773 / 2 ^ 24)
  value_topP : value topP = some (15938355 / 2 ^ 24)
  value_minP : value minP = some (13421773 / 2 ^ 28)
  exponent_lt : ∀ x, (printed x).exponent.natAbs < 100
  prints : ∀ {x q}, value x = some q → Prints (printed x) q
  read_printed : ∀ {x q}, value x = some q → ∀ old, ∃ y r,
    readReal (esText (printed x)) old = some y ∧ value y = some r ∧
      ∀ z s, value z = some s → |(printed x).value - r| ≤ |(printed x).value - s|
  read_integer : ∀ n old, -2147483648 ≤ n → n ≤ 2147483647 → readInteger (signed n) old = some n

/-! ### The environment -/

/-- The name under which a setting may be given as well: `'LLAMACPP_' // primary(8:)` -/
def alternative (primary : String) : String :=
  String.ofList ("LLAMACPP_".toList ++ primary.toList.drop 7)

/-- The text that a setting is read from; empty when it is not set. -/
def settingText (getenv : Environment) (primary : String) : Bytes :=
  if (getenv primary).getD [] = [] then (getenv (alternative primary)).getD []
  else (getenv primary).getD []

/-- `server_text_default` -/
def serverTextDefault (getenv : Environment) (primary : String) (fallback : Bytes) : Bytes :=
  let value := settingText getenv primary
  if value = [] ∨ 4096 < value.length then fallback else value

/-- `server_boolean_default` -/
def serverBooleanDefault (getenv : Environment) (primary : String) (fallback : Bool) : Bool :=
  let value := serverTextDefault getenv primary []
  if [ascii "1", ascii "true", ascii "on", ascii "yes"].any (same value) then true
  else if [ascii "0", ascii "false", ascii "off", ascii "no"].any (same value) then false
  else fallback

/-- `server_integer_default` -/
def serverIntegerDefault (readInteger : Bytes → ℤ → Option ℤ) (getenv : Environment) (primary : String)
    (fallback : ℤ) : ℤ :=
  let value := settingText getenv primary
  if value = [] ∨ 64 < value.length then fallback else (readInteger value fallback).getD fallback

/-- `server_real_default` -/
def serverRealDefault {R : Type} (m : Reals R) (getenv : Environment) (primary : String) (fallback : R) :
    R :=
  let value := settingText getenv primary
  if value = [] ∨ 64 < value.length then fallback else (m.readReal value fallback).getD fallback

/-! ### Updating a property -/

/-- The properties, in the order in which they are updated. -/
inductive Property
  | temperature | topP | minP | repeatPenalty | presencePenalty | frequencyPenalty | topK | repeatLastN
  deriving DecidableEq

namespace Property

def all : List Property :=
  [temperature, topP, minP, repeatPenalty, presencePenalty, frequencyPenalty, topK, repeatLastN]

def key : Property → OptionKey
  | temperature => .temperature
  | topP => .topP
  | minP => .minP
  | repeatPenalty => .repeatPenalty
  | presencePenalty => .presencePenalty
  | frequencyPenalty => .frequencyPenalty
  | topK => .topK
  | repeatLastN => .repeatLastN

def environment : Property → String
  | temperature => "FORTAI_TEMPERATURE"
  | topP => "FORTAI_TOP_P"
  | minP => "FORTAI_MIN_P"
  | repeatPenalty => "FORTAI_REPEAT_PENALTY"
  | presencePenalty => "FORTAI_PRESENCE_PENALTY"
  | frequencyPenalty => "FORTAI_FREQUENCY_PENALTY"
  | topK => "FORTAI_TOP_K"
  | repeatLastN => "FORTAI_REPEAT_LAST_N"

end Property

/-- A value of a property. -/
inductive Setting (R : Type)
  | real (x : R)
  | integer (n : ℤ)

section

variable {R D : Type} [Arithmetic R D] (m : Single R)

/-- The text that is stored for a value. -/
def Setting.text : Setting R → Bytes
  | .real x => esText (m.printed x)
  | .integer n => signed n

/-- The number that `update_real_property` stores, read from the text of a value on; `none` when it
refuses it. -/
def acceptedReal (value : Option Bytes) (minimum maximum : R) : Option (Setting R) :=
  let x := real m.toReals value minimum
  if x.2 && m.finite x.1 && Arithmetic.le minimum x.1 && Arithmetic.le x.1 maximum then some (.real x.1)
  else none

/-- The number that `update_integer_property` stores. -/
def acceptedInteger (value : Option Bytes) (minimum maximum : ℤ) : Option (Setting R) :=
  let x := integerChecked value minimum minimum
  if x.2 = true ∧ minimum ≤ x.1 ∧ x.1 ≤ maximum then some (.integer x.1) else none

/-- The value that an update stores, read from the text of a value on. -/
def Property.accepted (value : Option Bytes) : Property → Option (Setting R)
  | temperature => acceptedReal m value Arithmetic.zero m.huge
  | topP => acceptedReal m value Arithmetic.zero Arithmetic.one
  | minP => acceptedReal m value Arithmetic.zero Arithmetic.one
  | repeatPenalty => acceptedReal m value m.tiny m.huge
  | presencePenalty => acceptedReal m value m.minusHuge m.huge
  | frequencyPenalty => acceptedReal m value m.minusHuge m.huge
  | topK => acceptedInteger value 0 maxGeneration
  | repeatLastN => acceptedInteger value (-1) maxGeneration

/-- The loop of `json_top_level_key` over the members; it ends where `limit` bytes are left. -/
def topLevelLoop (key : Bytes) (limit : ℕ) (s : Bytes) : Option Bytes :=
  let member := skipSpace s
  if member.length ≤ limit ∨ member.head? ≠ some 34 then none
  else
    match _hname : jsonString member with
    | none => none
    | some (name, behind) =>
      let colon := skipSpace behind
      if colon.length ≤ limit ∨ colon.head? ≠ some 58 then none
      else
        let value := skipSpace colon.tail
        if value.length ≤ limit then none
        else if same name key then some value
        else
          match _hvalue : jsonRawValue value with
          | none => none
          | some (_, after) =>
            let rest := skipSpace after
            if rest.length ≤ limit then none
            else if rest.head? = some 44 then topLevelLoop key limit rest.tail
            else none
termination_by s.length
decreasing_by
  have hmember := skipSpace_length s
  have hafter := jsonString_length _hname
  have hcolon := skipSpace_length behind
  have hskip := skipSpace_length (skipSpace behind).tail
  have hrest := jsonRawValue_length _hvalue
  have hlast := skipSpace_length after
  have htail : value.length ≤ colon.length := hskip.trans (List.tail_suffix _).length_le
  have hnext : (skipSpace after).tail.length ≤ (skipSpace after).length :=
    (List.tail_suffix _).length_le
  exact (hnext.trans hlast).trans_lt (hrest.trans_le (htail.trans (hcolon.trans
    (hafter.le.trans hmember))))

/-- `json_top_level_key`: the text from the value of the member on. -/
def jsonTopLevelKey (text key : Bytes) : Option Bytes :=
  let s := skipSpace text
  if s.head? ≠ some 123 then none
  else
    match matchingDelimiter s 123 125 with
    | none => none
    | some n => topLevelLoop key (s.length - n + 1) s.tail

/-- The text from the value on that an update reads. -/
def Property.lookup (p : Property) (text : Bytes) : Option Bytes :=
  jsonKey p.key.name text text.length

/-- The text from the value of the member of the object itself on. -/
def Property.topLevel (p : Property) (text : Bytes) : Option Bytes :=
  jsonTopLevelKey text p.key.name

/-- `set_http_environment`; `stores` says whether `setenv` has room for the variable. -/
def setHttpEnvironment (stores : String → Bytes → Bool) (getenv : Environment) (name : String)
    (value : Bytes) : Bool × Environment :=
  if stores name value then (true, Function.update getenv name (some value)) else (false, getenv)

/-- `update_real_property` and `update_integer_property` -/
def Property.update (stores : String → Bytes → Bool) (text : Bytes) (getenv : Environment)
    (p : Property) : Bool × Environment :=
  match p.accepted m (p.lookup text) with
  | none => (false, getenv)
  | some v => setHttpEnvironment stores getenv p.environment (v.text m)

/-- The branches of `server_props_update` for the properties one after the other: the first one that
is refused, and the environment. -/
def updateAll (stores : String → Bytes → Bool) (text : Bytes) :
    List Property → Environment → Option Property × Environment
  | [], getenv => (none, getenv)
  | p :: rest, getenv =>
    if (p.topLevel text).isSome then
      let r := p.update m stores text getenv
      if r.1 then updateAll stores text rest r.2 else (some p, r.2)
    else updateAll stores text rest getenv

/-- The answers to `POST /props`. -/
inductive Answer
  | disabled
  | invalid (p : Property)
  | updated
  deriving DecidableEq

def Answer.status : Answer → ℕ
  | disabled => 404
  | invalid _ => 400
  | updated => 200

/-- The message of an error. -/
def Answer.message : Answer → Option Bytes
  | disabled => some (ascii "props endpoint disabled")
  | invalid p => some (ascii "invalid " ++ p.key.name ++ ascii " property")
  | updated => none

/-- `POST /props` in `fortai_native_http_handle` -/
def postProps (stores : String → Bytes → Bool) (getenv : Environment) (body : Bytes) :
    Answer × Environment :=
  if serverBooleanDefault getenv "FORTAI_ENDPOINT_PROPS" false then
    let r := updateAll m stores body Property.all getenv
    (r.1.elim .updated .invalid, r.2)
  else (.disabled, getenv)

end

/-! ### Reading what was stored -/

theorem length_decimal_le {n k : ℕ} (hk : 0 < k) (h : n < 10 ^ k) : (decimal n).length ≤ k := by
  rw [decimal, List.length_map]
  exact (Nat.length_toDigits_le_iff (by decide) hk).mpr h

theorem length_esText {d : Scientific 16} (h : d.exponent.natAbs < 100) : (esText d).length = 24 := by
  have hdigits := length_decimal_le (k := 17) (by decide) d.digits_lt
  have hexponent := length_decimal_le (k := 2) (by decide) h
  have hbody : (List.replicate (17 - (decimal d.digits).length) 48 ++ decimal d.digits).length = 17 := by
    rw [List.length_append, List.length_replicate]
    omega
  have htail : (exponentText d.exponent).length = 4 := by
    simp only [exponentText, List.length_cons, List.length_append, List.length_replicate]
    omega
  simp only [esText]
  generalize List.replicate (17 - (decimal d.digits).length) 48 ++ decimal d.digits = digits at hbody ⊢
  have hsign : (if d.minus then [45] else [] : Bytes).length ≤ 1 := by split_ifs <;> decide
  simp only [List.length_append, List.length_replicate, List.length_cons, List.length_take,
    List.length_drop, htail, hbody]
  omega

theorem settingText_eq {getenv : Environment} {primary : String} {text : Bytes}
    (h : getenv primary = some text) (hne : text ≠ []) : settingText getenv primary = text := by
  rw [settingText, h, Option.getD_some, if_neg hne]

section

variable {R D : Type} [Arithmetic R D] (m : Single R)

/-- A stored number is read back. -/
theorem serverRealDefault_printed {getenv : Environment} {primary : String} {x : R} {q : ℚ}
    (hx : m.value x = some q) (h : getenv primary = some (esText (m.printed x))) (fallback : R) :
    m.value (serverRealDefault m.toReals getenv primary fallback) = some q := by
  have hlength := length_esText (m.exponent_lt x)
  have hne : esText (m.printed x) ≠ [] := List.ne_nil_of_length_pos (by omega)
  obtain ⟨y, r, hread, hy, hnearest⟩ := m.read_printed hx fallback
  have hvalue : r = q := (m.prints hx).eq_of_nearest (by norm_num) (m.binary hx) (m.binary hy)
    (hnearest x q hx)
  have hopen : ¬ (esText (m.printed x) = [] ∨ 64 < (esText (m.printed x)).length) := by
    rw [hlength]
    exact not_or.mpr ⟨hne, by decide⟩
  simp only [serverRealDefault, settingText_eq h hne, if_neg hopen, hread, Option.getD_some]
  rw [hy, hvalue]

theorem length_signed {n : ℤ} (h : n.natAbs < 10 ^ 10) :
    0 < (signed n).length ∧ (signed n).length ≤ 11 := by
  cases n with
  | ofNat n =>
    have hle := length_decimal_le (k := 10) (by decide) h
    have hpos := List.length_pos_iff.mpr (decimal_ne_nil n)
    exact ⟨hpos, hle.trans (by decide)⟩
  | negSucc n =>
    have hle := length_decimal_le (k := 10) (by decide) h
    have hsign : (ascii "-").length = 1 := by decide
    rw [Int.natAbs_negSucc, Nat.succ_eq_add_one] at hle
    rw [signed, List.length_append, hsign]
    omega

theorem serverIntegerDefault_signed {getenv : Environment} {primary : String} {n : ℤ}
    (hlow : -2147483648 ≤ n) (hhigh : n ≤ 2147483647) (h : getenv primary = some (signed n))
    (fallback : ℤ) : serverIntegerDefault m.readInteger getenv primary fallback = n := by
  obtain ⟨hpos, hlength⟩ := length_signed (n := n) (by norm_num; omega)
  have hne : signed n ≠ [] := List.ne_nil_of_length_pos hpos
  have hopen : ¬ (signed n = [] ∨ 64 < (signed n).length) := not_or.mpr ⟨hne, by omega⟩
  simp only [serverIntegerDefault, settingText_eq h hne, if_neg hopen,
    m.read_integer n fallback hlow hhigh, Option.getD_some]

end

/-! ### A list of updates -/

theorem Property.environment_injective {p q : Property} (h : p.environment = q.environment) :
    p = q := by
  revert h
  cases p <;> cases q <;> decide

section

variable {R D : Type} [Arithmetic R D] (m : Single R) (stores : String → Bytes → Bool) (text : Bytes)

/-- The text that an update stores. -/
def Property.stored (p : Property) : Option Bytes :=
  ((p.accepted m (p.lookup text)).map (Setting.text m)).filter (stores p.environment)

/-- The properties among these that the object has as members of its own. -/
def present (l : List Property) : List Property := l.filter fun p => (p.topLevel text).isSome

/-- The properties among these that are updated: those before the first one that is refused. -/
def updated (l : List Property) : List Property :=
  (present text l).takeWhile fun p => (p.stored m stores text).isSome

theorem Property.update_eq (getenv : Environment) (p : Property) :
    p.update m stores text getenv =
      (p.stored m stores text).elim (false, getenv) fun value =>
        (true, Function.update getenv p.environment (some value)) := by
  rw [Property.update, Property.stored]
  cases p.accepted m (p.lookup text) with
  | none => rfl
  | some v =>
    have hset : setHttpEnvironment stores getenv p.environment (v.text m) =
        if stores p.environment (v.text m) then
          (true, Function.update getenv p.environment (some (v.text m))) else (false, getenv) := rfl
    simp only [hset, Option.map_some, Option.filter_some]
    split_ifs <;> rfl

theorem mem_of_mem_updated {l : List Property} {p : Property} (h : p ∈ updated m stores text l) :
    p ∈ present text l ∧ p.stored m stores text ≠ none := by
  have hstored : (p.stored m stores text).isSome = true :=
    List.mem_takeWhile_imp (p := fun q : Property => (q.stored m stores text).isSome) h
  exact ⟨(List.takeWhile_sublist _).subset h, Option.isSome_iff_ne_none.mp hstored⟩

theorem updated_cons_none {p : Property} {l : List Property} (htop : (p.topLevel text).isSome = true)
    (h : p.stored m stores text = none) : updated m stores text (p :: l) = [] := by
  rw [updated, present, List.filter_cons, if_pos htop]
  exact List.takeWhile_cons_of_neg (by rw [h]; exact Bool.false_ne_true)

theorem updated_cons_some {p : Property} {l : List Property} {value : Bytes}
    (htop : (p.topLevel text).isSome = true) (h : p.stored m stores text = some value) :
    updated m stores text (p :: l) = p :: updated m stores text l := by
  rw [updated, present, List.filter_cons, if_pos htop]
  exact List.takeWhile_cons_of_pos (by rw [h]; rfl)

theorem updated_cons_absent {p : Property} {l : List Property}
    (htop : ¬ (p.topLevel text).isSome = true) :
    updated m stores text (p :: l) = updated m stores text l := by
  rw [updated, present, List.filter_cons, if_neg htop]
  rfl

/-- What a list of updates leaves in the environment. -/
theorem updateAll_eq {l : List Property} (hl : l.Nodup) (getenv : Environment) :
    (updateAll m stores text l getenv).1 =
      ((present text l).find? fun p => (p.stored m stores text).isNone) ∧
    (∀ p ∈ updated m stores text l,
      (updateAll m stores text l getenv).2 p.environment = p.stored m stores text) ∧
    ∀ name, (∀ p ∈ updated m stores text l, p.environment ≠ name) →
      (updateAll m stores text l getenv).2 name = getenv name := by
  induction l generalizing getenv with
  | nil => exact ⟨rfl, fun _ hp => (by cases hp), fun _ _ => rfl⟩
  | cons p rest ih =>
    obtain ⟨hp, hrest⟩ := List.nodup_cons.mp hl
    rw [updateAll]
    by_cases htop : (p.topLevel text).isSome = true
    · have hpresent : present text (p :: rest) = p :: present text rest := by
        rw [present, List.filter_cons, if_pos htop]
        rfl
      rw [if_pos htop, hpresent]
      simp only [Property.update_eq]
      cases hstored : p.stored m stores text with
      | none =>
        rw [List.find?_cons_of_pos (by rw [hstored]; rfl), updated_cons_none m stores text htop hstored]
        exact ⟨rfl, fun _ hq => (by cases hq), fun _ _ => rfl⟩
      | some value =>
        obtain ⟨hfirst, hset, hkept⟩ := ih hrest (Function.update getenv p.environment (some value))
        rw [List.find?_cons_of_neg (by rw [hstored]; exact Bool.false_ne_true),
          updated_cons_some m stores text htop hstored]
        simp only [Option.elim_some, if_true]
        refine ⟨hfirst, fun q hq => ?_, fun name hname => ?_⟩
        · rcases List.mem_cons.mp hq with rfl | hq
          · -- no later update is one of the same property
            rw [hkept, Function.update_self, hstored]
            intro r hr heq
            rw [Property.environment_injective heq] at hr
            exact hp (List.mem_of_mem_filter (mem_of_mem_updated m stores text hr).1)
          · exact hset q hq
        · rw [hkept name fun q hq => hname q (List.mem_cons_of_mem p hq)]
          exact Function.update_of_ne (hname p List.mem_cons_self).symm _ _
    · have hpresent : present text (p :: rest) = present text rest := by
        rw [present, List.filter_cons, if_neg htop]
        rfl
      rw [if_neg htop, hpresent, updated_cons_absent m stores text htop]
      exact ih hrest getenv

end

end Settings

end FortAI
