import FortAI.Chat.Search

/-!
# The options of a request

The options that `fortai_native_http_handle` reads from a request for a completion.  Every one of
them is looked up with `jsonKey` in the whole text of the body.

* `parseOptions` : the options, with the readers of the source.
* `topLevelOnly_iff` : the options are those of the members of the request itself exactly when no
  other name in the request shadows theirs.
-/

namespace FortAI

namespace Chat

open CString

/-! ### Readers -/

/-- The loop over digits of `fortai_native_http_json_integer_checked`; `none` when the number gets
too large. -/
def digitsLoop : ℕ → Bytes → Option (ℕ × Bytes)
  | value, [] => some (value, [])
  | value, b :: s =>
    if isDigit b then
      if 100000000 < value then none else digitsLoop (10 * value + (b.toNat - 48)) s
    else some (value, b :: s)

/-- What `fortai_native_http_json_integer_checked` takes behind a number. -/
def endsInteger (s : Bytes) : Bool :=
  match (skipSpace s).head? with
  | none => true
  | some b => b = 44 || b = 125 || b = 93

/-- The position behind a sign. -/
def behindSign (s : Bytes) : Bytes := if s.head? = some 45 ∨ s.head? = some 43 then s.tail else s

/-- `fortai_native_http_json_integer_checked`, from the position of the value on: the number, and
whether it is valid. -/
def integerChecked (value : Option Bytes) (fallback minimum : ℤ) : ℤ × Bool :=
  match value with
  | none => (fallback, true)
  | some s =>
    let sign : ℤ := if s.head? = some 45 then -1 else 1
    match digitsLoop 0 (behindSign s) with
    | none => (fallback, false)
    | some (n, rest) =>
      if rest.length = (behindSign s).length then (fallback, false)
      else if sign * n < minimum then (fallback, false)
      else if endsInteger rest then (sign * n, true)
      else (fallback, false)

/-- The loop of `json_int64` and `json_real` up to the end of the value. -/
def valueToken (s : Bytes) : Bytes := s.takeWhile (!endsValue ·)

/-- The reals of the machine: list-directed input of a real and of an integer into a variable, and
`finite_real32`. -/
structure Reals (R : Type) where
  readReal : Bytes → R → Option R
  readInt64 : Bytes → ℤ → Option ℤ
  finite : R → Bool

/-- `json_int64` -/
def int64 {R : Type} (m : Reals R) (value : Option Bytes) (fallback : ℤ) : ℤ :=
  match value with
  | none => fallback
  | some s =>
    if valueToken s = [] then fallback else (m.readInt64 (valueToken s) fallback).getD fallback

/-- `json_real`: the number, and whether it is valid. -/
def real {R : Type} (m : Reals R) (value : Option Bytes) (fallback : R) : R × Bool :=
  match value with
  | none => (fallback, true)
  | some s =>
    if valueToken s = [] then (fallback, false)
    else
      match m.readReal (valueToken s) fallback with
      | none => (fallback, false)
      | some x => if m.finite x then (x, true) else (fallback, false)

/-- `json_boolean` -/
def boolean (value : Option Bytes) (fallback : Bool) : Bool :=
  match value with
  | none => fallback
  | some s =>
    if s.take 5 = ascii "false" then false
    else if s.take 4 = ascii "true" then true
    else fallback

/-! ### Options -/

/-- The names that the handler looks up. -/
inductive OptionKey where
  | maxOutputTokens | maxCompletionTokens | maxTokens | nPredict | temperature | seed | topK
  | repeatLastN | topP | minP | repeatPenalty | presencePenalty | frequencyPenalty | stream
  | prompt | content | messages | input
  deriving DecidableEq

def OptionKey.name : OptionKey → Bytes
  | maxOutputTokens => ascii "max_output_tokens"
  | maxCompletionTokens => ascii "max_completion_tokens"
  | maxTokens => ascii "max_tokens"
  | nPredict => ascii "n_predict"
  | temperature => ascii "temperature"
  | seed => ascii "seed"
  | topK => ascii "top_k"
  | repeatLastN => ascii "repeat_last_n"
  | topP => ascii "top_p"
  | minP => ascii "min_p"
  | repeatPenalty => ascii "repeat_penalty"
  | presencePenalty => ascii "presence_penalty"
  | frequencyPenalty => ascii "frequency_penalty"
  | stream => ascii "stream"
  | prompt => ascii "prompt"
  | content => ascii "content"
  | messages => ascii "messages"
  | input => ascii "input"

/-- The three kinds of requests. -/
inductive Endpoint where
  | responses | chat | completion
  deriving DecidableEq

/-- What the environment gives for the options. -/
structure Defaults (R : Type) where
  maxTokens : ℤ
  temperature : R
  seed : ℤ
  topK : ℤ
  repeatLastN : ℤ
  topP : R
  minP : R
  repeatPenalty : R
  presencePenalty : R
  frequencyPenalty : R

/-- The options of a request; a pair is a value with its validity. -/
structure Options (R : Type) where
  maxTokens : Option ℤ
  temperature : R × Bool
  seed : ℤ
  topK : ℤ × Bool
  repeatLastN : ℤ × Bool
  topP : R × Bool
  minP : R × Bool
  repeatPenalty : R × Bool
  presencePenalty : R × Bool
  frequencyPenalty : R × Bool
  stream : Bool
  /-- The text of the prompt, the messages or the input. -/
  prompt : Option Bytes

def maxGeneration : ℤ := 32768

/-- The aliases that `json_token_limit` tries, in this order. -/
def tokenKeys : Endpoint → List OptionKey
  | .responses => [.maxOutputTokens, .maxCompletionTokens, .maxTokens, .nPredict]
  | _ => [.maxTokens, .maxCompletionTokens, .nPredict]

/-- The names under which the handler looks for the text to go on from, in this order. -/
def promptKeys : Endpoint → List OptionKey
  | .responses => [.input]
  | .chat => [.messages]
  | .completion => [.prompt, .content]

/-- The names that are looked up in any case. -/
def samplingKeys : List OptionKey :=
  [.temperature, .seed, .topK, .repeatLastN, .topP, .minP, .repeatPenalty, .presencePenalty,
    .frequencyPenalty, .stream]

/-- The aliases that are looked up: up to the first one that is found. -/
def keysTried (lookup : Bytes → Option Bytes) : List OptionKey → List OptionKey
  | [] => []
  | k :: rest => k :: if (lookup k.name).isSome then [] else keysTried lookup rest

/-- The first alias that is found. -/
def firstFound (lookup : Bytes → Option Bytes) : List OptionKey → Option OptionKey
  | [] => none
  | k :: rest => if (lookup k.name).isSome then some k else firstFound lookup rest

/-- All names that a request of this kind looks up. -/
def keysRead (lookup : Bytes → Option Bytes) (endpoint : Endpoint) : List OptionKey :=
  samplingKeys ++ (keysTried lookup (tokenKeys endpoint) ++ keysTried lookup (promptKeys endpoint))

/-- The end of `json_token_limit`: the number and its validity; `none` when it is not valid. -/
def checkedLimit (value : ℤ × Bool) : Option ℤ :=
  if value.2 = false then none
  else
    let limit := if value.1 = -1 then maxGeneration else value.1
    if limit ≤ 0 ∨ maxGeneration < limit then none else some limit

/-- `json_token_limit` -/
def tokenLimit (lookup : Bytes → Option Bytes) (endpoint : Endpoint) (fallback : ℤ) : Option ℤ :=
  checkedLimit <| (firstFound lookup (tokenKeys endpoint)).elim (fallback, true) fun k =>
    integerChecked (lookup k.name) (-1) 0

/-- The part of `fortai_native_http_handle` that reads the options; `lookup` gives the text from a
value on. -/
def parseOptions {R : Type} (m : Reals R) (d : Defaults R) (lookup : Bytes → Option Bytes)
    (endpoint : Endpoint) : Options R where
  maxTokens := tokenLimit lookup endpoint d.maxTokens
  temperature := real m (lookup OptionKey.temperature.name) d.temperature
  seed :=
    let seed := int64 m (lookup OptionKey.seed.name) d.seed
    if seed < 0 then 0 else seed
  topK := integerChecked (lookup OptionKey.topK.name) d.topK 0
  repeatLastN := integerChecked (lookup OptionKey.repeatLastN.name) d.repeatLastN (-1)
  topP := real m (lookup OptionKey.topP.name) d.topP
  minP := real m (lookup OptionKey.minP.name) d.minP
  repeatPenalty := real m (lookup OptionKey.repeatPenalty.name) d.repeatPenalty
  presencePenalty := real m (lookup OptionKey.presencePenalty.name) d.presencePenalty
  frequencyPenalty := real m (lookup OptionKey.frequencyPenalty.name) d.frequencyPenalty
  stream := boolean (lookup OptionKey.stream.name) false
  prompt := (firstFound lookup (promptKeys endpoint)).bind fun k =>
    (lookup k.name).bind fun s => (jsonRawValue s).map Prod.fst

/-! ### What stands behind a value does not matter -/

/-- What stands behind a value in an object. -/
def Behind (s : Bytes) : Prop := Closed 0 s

theorem Behind.ended {s : Bytes} (h : Behind s) : Ended s := by
  obtain ⟨gap, b, r, rfl, hb, -⟩ := h
  intro c hc
  cases hg : gap.bytes with
  | nil =>
    rw [hg] at hc
    rw [← Option.some.inj hc]
    rcases hb with rfl | rfl | rfl <;> rfl
  | cons d ds =>
    rw [hg] at hc
    have hd := List.all_eq_true.mp gap.blank d (hg ▸ List.mem_cons_self)
    rw [← Option.some.inj hc]
    simp only [isGap, Bool.or_eq_true, decide_eq_true_eq] at hd
    rcases hd with ((rfl | rfl) | rfl) | rfl <;> rfl

theorem valueToken_append (x : Bytes) {s : Bytes} (hs : Ended s) :
    valueToken (x ++ s) = valueToken x := by
  induction x with
  | nil =>
    cases s with
    | nil => rfl
    | cons b s =>
      rw [List.nil_append, valueToken, List.takeWhile_cons_of_neg (by rw [hs b rfl]; simp)]
      rfl
  | cons b x ih =>
    rw [valueToken] at ih
    rw [valueToken, valueToken, List.cons_append, List.takeWhile_cons, List.takeWhile_cons, ih]
    rfl

theorem digitsLoop_append {s : Bytes} (hs : Ended s) (x : Bytes) :
    ∀ n : ℕ, digitsLoop n (x ++ s) = (digitsLoop n x).map fun r => (r.1, r.2 ++ s) := by
  induction x with
  | nil =>
    intro n
    cases s with
    | nil => rfl
    | cons b s =>
      have hb : isDigit b = false := by
        rw [Bool.eq_false_iff]
        intro hdigit
        have hends := hs b rfl
        rw [not_endsValue_of_isNumeric (by rw [isNumeric, hdigit]; rfl)] at hends
        exact Bool.noConfusion hends
      have hnot : ¬ isDigit b = true := by
        rw [hb]
        exact Bool.false_ne_true
      rw [List.nil_append, digitsLoop, digitsLoop]
      · rw [if_neg hnot]
        rfl
  | cons b x ih =>
    intro n
    rw [List.cons_append, digitsLoop, digitsLoop]
    split_ifs
    · rfl
    · exact ih _
    · rfl

/-- What is left behind digits is a part of the text. -/
theorem digitsLoop_suffix (x : Bytes) :
    ∀ {n m : ℕ} {rest : Bytes}, digitsLoop n x = some (m, rest) → rest <:+ x := by
  induction x with
  | nil =>
    intro n m rest h
    rw [digitsLoop, Option.some.injEq, Prod.mk.injEq] at h
    exact h.2 ▸ List.suffix_refl _
  | cons b x ih =>
    intro n m rest h
    rw [digitsLoop] at h
    split_ifs at h
    · exact (ih h).trans (List.suffix_cons b x)
    · rw [Option.some.injEq, Prod.mk.injEq] at h
      exact h.2 ▸ List.suffix_refl _

theorem endsInteger_append {x s : Bytes} (hx : ∀ b ∈ x.head?, isGap b = false) (hs : Behind s) :
    endsInteger (x ++ s) = endsInteger x := by
  cases x with
  | nil =>
    obtain ⟨gap, b, r, rfl, hb, -⟩ := hs
    have hgap : isGap b = false := by rcases hb with rfl | rfl | rfl <;> rfl
    rw [List.nil_append, endsInteger, skipSpace_gap_cons gap hgap]
    rcases hb with rfl | rfl | rfl <;> rfl
  | cons b x =>
    have hb := hx b rfl
    rw [List.cons_append, endsInteger, endsInteger, skipSpace_cons hb, skipSpace_cons hb]
    rfl

/-- A value that is no number does not start like one. -/
theorem render_cases (v : Json .value) :
    (∀ b ∈ v.render, isNumeric b = true) ∨
      ∃ b rest, v.render = b :: rest ∧ isDigit b = false ∧ b ≠ 45 ∧ b ≠ 43 := by
  cases v with
  | literal l =>
    right
    cases l <;> exact ⟨_, _, rfl, by decide⟩
  | number n => exact Or.inl (numeric_render n)
  | string text => exact Or.inr ⟨34, _, rfl, by decide⟩
  | array gap elements => exact Or.inr ⟨91, _, rfl, by decide⟩
  | object gap members => exact Or.inr ⟨123, _, rfl, by decide⟩

theorem not_isGap_of_isNumeric {b : Byte} (h : isNumeric b = true) : isGap b = false := by
  rw [Bool.eq_false_iff]
  intro hgap
  simp only [isGap, Bool.or_eq_true, decide_eq_true_eq] at hgap
  rcases hgap with ((rfl | rfl) | rfl) | rfl <;> exact absurd h (by decide)

theorem behindSign_append (v : Json .value) (s : Bytes) :
    behindSign (v.render ++ s) = behindSign v.render ++ s := by
  obtain ⟨b, tail, hv, -⟩ := exists_cons_render v
  rw [hv, List.cons_append, behindSign, behindSign]
  by_cases h : (b :: tail).head? = some 45 ∨ (b :: tail).head? = some 43
  · have h' : (b :: (tail ++ s)).head? = some 45 ∨ (b :: (tail ++ s)).head? = some 43 := h
    rw [if_pos h, if_pos h']
    rfl
  · have h' : ¬ ((b :: (tail ++ s)).head? = some 45 ∨ (b :: (tail ++ s)).head? = some 43) := h
    rw [if_neg h, if_neg h']
    rfl

/-- Digits are only read in numbers. -/
theorem digits_spec (v : Json .value) :
    (∀ c ∈ behindSign v.render, isGap c = false) ∨
      digitsLoop 0 (behindSign v.render) = some (0, behindSign v.render) := by
  rcases render_cases v with hnumeric | ⟨d, rest, hd, hdigit, hminus, hplus⟩
  · refine Or.inl fun c hc => not_isGap_of_isNumeric (hnumeric c ?_)
    rw [behindSign] at hc
    split_ifs at hc
    · exact List.mem_of_mem_tail hc
    · exact hc
  · have hsign : behindSign v.render = d :: rest := by
      rw [hd, behindSign, if_neg]
      rintro (h | h)
      · exact hminus (Option.some.inj h)
      · exact hplus (Option.some.inj h)
    have hnot : ¬ isDigit d = true := by
      rw [hdigit]
      exact Bool.false_ne_true
    refine Or.inr ?_
    rw [hsign, digitsLoop, if_neg hnot]

theorem integerChecked_append (v : Json .value) {s : Bytes} (hs : Behind s) (fallback minimum : ℤ) :
    integerChecked (some (v.render ++ s)) fallback minimum =
      integerChecked (some v.render) fallback minimum := by
  obtain ⟨b, tail, hv, -⟩ := exists_cons_render v
  have hhead : (v.render ++ s).head? = v.render.head? := by rw [hv]; rfl
  have hspec := digits_spec v
  rw [integerChecked, integerChecked]
  simp only [hhead, behindSign_append, digitsLoop_append hs.ended]
  cases hloop : digitsLoop 0 (behindSign v.render) with
  | none => rfl
  | some r =>
    obtain ⟨n, rest⟩ := r
    simp only [Option.map_some, List.length_append, Nat.add_right_cancel_iff]
    by_cases hblank : rest.length = (behindSign v.render).length
    · rw [if_pos hblank, if_pos hblank]
    · have hends : endsInteger (rest ++ s) = endsInteger rest := by
        refine endsInteger_append (fun c hc => ?_) hs
        have hmem := (digitsLoop_suffix _ hloop).subset (List.mem_of_mem_head? hc)
        rcases hspec with hgap | hnone
        · exact hgap c hmem
        · rw [hloop, Option.some.injEq, Prod.mk.injEq] at hnone
          exact absurd (congrArg List.length hnone.2) hblank
      rw [hends]

theorem int64_append {R : Type} (m : Reals R) (x : Bytes) {s : Bytes} (hs : Ended s)
    (fallback : ℤ) : int64 m (some (x ++ s)) fallback = int64 m (some x) fallback := by
  rw [int64, int64]
  simp only [valueToken_append x hs]

theorem real_append {R : Type} (m : Reals R) (x : Bytes) {s : Bytes} (hs : Ended s) (fallback : R) :
    real m (some (x ++ s)) fallback = real m (some x) fallback := by
  rw [real, real]
  simp only [valueToken_append x hs]

/-- A word does not reach over the end of a value. -/
theorem take_word {word : Bytes} (hword : ∀ b ∈ word, endsValue b = false) (x : Bytes) {s : Bytes}
    (hs : Ended s) : (x ++ s).take word.length = word ↔ x.take word.length = word := by
  rw [List.take_append]
  by_cases hle : word.length ≤ x.length
  · rw [Nat.sub_eq_zero_of_le hle, List.take_zero, List.append_nil]
  · rw [Nat.not_le] at hle
    rw [List.take_of_length_le hle.le]
    constructor
    · intro h
      cases s with
      | nil => simpa using h
      | cons b s =>
        obtain ⟨k, hk⟩ : ∃ k, word.length - x.length = k + 1 := ⟨_, (Nat.succ_pred (by omega)).symm⟩
        rw [hk, List.take_succ_cons] at h
        have := hword b (h ▸ List.mem_append_right x List.mem_cons_self)
        rw [hs b rfl] at this
        exact Bool.noConfusion this
    · intro h
      rw [h] at hle
      exact absurd hle (Nat.lt_irrefl _)

theorem boolean_append (x : Bytes) {s : Bytes} (hs : Ended s) (fallback : Bool) :
    boolean (some (x ++ s)) fallback = boolean (some x) fallback := by
  have hword (w : String) (h : (ascii w).all (!endsValue ·) = true) :
      ∀ b ∈ ascii w, endsValue b = false := fun b hb => by
    have := List.all_eq_true.mp h b hb
    rwa [Bool.not_eq_true'] at this
  have hfalse : (x ++ s).take 5 = ascii "false" ↔ x.take 5 = ascii "false" :=
    take_word (hword "false" (by decide)) x hs
  have htrue : (x ++ s).take 4 = ascii "true" ↔ x.take 4 = ascii "true" :=
    take_word (hword "true" (by decide)) x hs
  rw [boolean, boolean]
  simp only [hfalse, htrue]

/-! ### Requests -/

/-- The body of a request: an object, and blanks around it. -/
structure Request where
  before : Gap
  gap : Gap
  members : Json .members
  after : Gap

namespace Request

variable (r : Request)

def text : Bytes := r.before.bytes ++ ((Json.object r.gap r.members).render ++ r.after.bytes)

/-- What stands behind the members. -/
def behind : Bytes := 125 :: r.after.bytes

/-- The text from the value of an option on, as the handler finds it. -/
def lookup (key : Bytes) : Option Bytes := jsonKey key r.text r.text.length

/-- The value of the first member of that name of the request itself. -/
def member (key : Bytes) : Option (Json .value) :=
  (topMember key r.members r.behind).map Prod.fst

/-- The text from the value of the member of that name on. -/
def ownText (key : Bytes) : Option Bytes := topLevel key r.members r.behind

/-- Every option is taken from the member of that name of the request itself, and only from there:
the text that it is read from starts at the value of the member, and the options are those of the
values. -/
structure TopLevelOnly (endpoint : Endpoint) : Prop where
  position : ∀ k ∈ keysRead r.lookup endpoint, r.lookup k.name = r.ownText k.name
  options : ∀ {R : Type} (m : Reals R) (d : Defaults R),
    parseOptions m d r.lookup endpoint =
      parseOptions m d (fun key => (r.member key).map Json.render) endpoint

end Request

theorem OptionKey.isName (k : OptionKey) : IsName k.name := by
  cases k <;> decide

theorem lookup_eq_search (r : Request) {key : Bytes} (hkey : IsName key) :
    r.lookup key = search key r.members r.behind := by
  have hclosed : Closed 0 r.behind := closed_cons (Or.inr (Or.inr rfl)) (Nat.zero_le _)
  have hshape : r.text =
      (r.before.bytes ++ 123 :: r.gap.bytes) ++ (r.members.render ++ r.behind) := by
    rw [Request.text, Json.render, enclosed_append, Request.behind, List.append_assoc]
  have hopen : 34 ∉ r.before.bytes ++ 123 :: r.gap.bytes := by
    rw [List.mem_append, List.mem_cons, not_or, not_or]
    exact ⟨not_quote_gap _, by decide, not_quote_gap _⟩
  have hend : keyBefore key 0 r.behind = none := by
    rw [keyBefore]
    have hquote : 34 ∉ r.behind := by
      rw [Request.behind, List.mem_cons, not_or]
      exact ⟨by decide, not_quote_gap _⟩
    have hne : quoted key ≠ [] := List.cons_ne_nil _ _
    exact jsonKey_of_none ((find_eq_none hne).mpr fun hsub =>
      hquote (List.mem_of_mem_take (hsub.subset List.mem_cons_self)))
  have := jsonKey_render hkey r.members hclosed
  rw [hend, Option.or_none] at this
  rw [← this, ← keyBefore_skip hopen (Nat.zero_le _), ← hshape]
  rfl

/-- What stands behind a member of the request. -/
theorem behind_of_topMember {key : Bytes} {k : Kind} (j : Json k) :
    ∀ {s : Bytes} {x : Json .value × Bytes}, Behind s → topMember key j s = some x → Behind x.2 := by
  induction j with
  | literal | number | string | array | object | noElement | element | noMember =>
    exact fun _ h => nomatch h
  | member before name beforeColon afterColon v after rest ihv ihrest =>
    intro s x hs h
    rw [topMember] at h
    split_ifs at h with hname
    · rw [← Option.some.inj h]
      exact closed_behindValue after rest hs (comma_cases rest fun h => by cases h)
    · exact ihrest hs h

section Congr

variable {f g : Bytes → Option Bytes}

/-- The same value is found, whatever stands behind it. -/
def Agrees (f g : Bytes → Option Bytes) (k : OptionKey) : Prop :=
  f k.name = none ∧ g k.name = none ∨ ∃ (v : Json .value) (s : Bytes), Behind s ∧
    f k.name = some (v.render ++ s) ∧ g k.name = some v.render

theorem Agrees.isSome {k : OptionKey} (h : Agrees f g k) :
    (f k.name).isSome = (g k.name).isSome := by
  rcases h with ⟨hf, hg⟩ | ⟨v, s, -, hf, hg⟩
  · rw [hf, hg]
  · rw [hf, hg]
    rfl

theorem integerChecked_congr {k : OptionKey} (h : Agrees f g k) (fallback minimum : ℤ) :
    integerChecked (f k.name) fallback minimum = integerChecked (g k.name) fallback minimum := by
  rcases h with ⟨hf, hg⟩ | ⟨v, s, hs, hf, hg⟩
  · rw [hf, hg]
  · rw [hf, hg, integerChecked_append v hs]

theorem real_congr {R : Type} (m : Reals R) {k : OptionKey} (h : Agrees f g k) (fallback : R) :
    real m (f k.name) fallback = real m (g k.name) fallback := by
  rcases h with ⟨hf, hg⟩ | ⟨v, s, hs, hf, hg⟩
  · rw [hf, hg]
  · rw [hf, hg, real_append m _ hs.ended]

theorem int64_congr {R : Type} (m : Reals R) {k : OptionKey} (h : Agrees f g k) (fallback : ℤ) :
    int64 m (f k.name) fallback = int64 m (g k.name) fallback := by
  rcases h with ⟨hf, hg⟩ | ⟨v, s, hs, hf, hg⟩
  · rw [hf, hg]
  · rw [hf, hg, int64_append m _ hs.ended]

theorem boolean_congr {k : OptionKey} (h : Agrees f g k) (fallback : Bool) :
    boolean (f k.name) fallback = boolean (g k.name) fallback := by
  rcases h with ⟨hf, hg⟩ | ⟨v, s, hs, hf, hg⟩
  · rw [hf, hg]
  · rw [hf, hg, boolean_append _ hs.ended]

theorem rawValue_congr {k : OptionKey} (h : Agrees f g k) :
    ((f k.name).bind fun s => (jsonRawValue s).map Prod.fst) =
      (g k.name).bind fun s => (jsonRawValue s).map Prod.fst := by
  rcases h with ⟨hf, hg⟩ | ⟨v, s, hs, hf, hg⟩
  · rw [hf, hg]
  · have halone := jsonRawValue_render v (show Ended [] from fun b hb => nomatch hb)
    rw [List.append_nil] at halone
    simp only [hf, hg, Option.bind_some, jsonRawValue_render v hs.ended, halone, Option.map_some]

theorem firstFound_congr {l : List OptionKey} (h : ∀ k ∈ keysTried f l, Agrees f g k) :
    firstFound f l = firstFound g l ∧ ∀ k ∈ firstFound f l, Agrees f g k := by
  induction l with
  | nil => exact ⟨rfl, fun k hk => nomatch hk⟩
  | cons k rest ih =>
    have hk := h k List.mem_cons_self
    rw [firstFound, firstFound, ← hk.isSome]
    by_cases hsome : (f k.name).isSome = true
    · rw [if_pos hsome, if_pos hsome]
      exact ⟨rfl, fun x hx => Option.some.inj hx ▸ hk⟩
    · rw [if_neg hsome, if_neg hsome]
      refine ih fun x hx => h x ?_
      rw [keysTried, if_neg hsome]
      exact List.mem_cons_of_mem k hx

theorem tokenLimit_congr {endpoint : Endpoint}
    (h : ∀ k ∈ keysTried f (tokenKeys endpoint), Agrees f g k) (fallback : ℤ) :
    tokenLimit f endpoint fallback = tokenLimit g endpoint fallback := by
  obtain ⟨hfind, hagrees⟩ := firstFound_congr h
  rw [tokenLimit, tokenLimit, ← hfind]
  cases hk : firstFound f (tokenKeys endpoint) with
  | none => rfl
  | some k => rw [Option.elim_some, Option.elim_some, integerChecked_congr (hagrees k hk)]

/-- What is found at the values is what is read of the values alone. -/
theorem parseOptions_congr {R : Type} (m : Reals R) (d : Defaults R) {endpoint : Endpoint}
    (h : ∀ k ∈ keysRead f endpoint, Agrees f g k) :
    parseOptions m d f endpoint = parseOptions m d g endpoint := by
  have hsampling : ∀ k ∈ samplingKeys, Agrees f g k := fun k hk =>
    h k (List.mem_append_left _ hk)
  have htokens : ∀ k ∈ keysTried f (tokenKeys endpoint), Agrees f g k := fun k hk =>
    h k (List.mem_append_right _ (List.mem_append_left _ hk))
  have hprompts : ∀ k ∈ keysTried f (promptKeys endpoint), Agrees f g k := fun k hk =>
    h k (List.mem_append_right _ (List.mem_append_right _ hk))
  obtain ⟨hfind, hagrees⟩ := firstFound_congr hprompts
  have hprompt : ((firstFound f (promptKeys endpoint)).bind fun k =>
      (f k.name).bind fun s => (jsonRawValue s).map Prod.fst) =
      (firstFound g (promptKeys endpoint)).bind fun k =>
        (g k.name).bind fun s => (jsonRawValue s).map Prod.fst := by
    rw [← hfind]
    cases hk : firstFound f (promptKeys endpoint) with
    | none => rfl
    | some k => exact rawValue_congr (hagrees k hk)
  have hreal {k : OptionKey} (hk : k ∈ samplingKeys) := real_congr m (hsampling k hk)
  have hinteger {k : OptionKey} (hk : k ∈ samplingKeys) := integerChecked_congr (hsampling k hk)
  rw [parseOptions, parseOptions, tokenLimit_congr htokens, hprompt,
    int64_congr m (hsampling .seed (by decide)), boolean_congr (hsampling .stream (by decide)),
    hinteger (show OptionKey.topK ∈ samplingKeys by decide),
    hinteger (show OptionKey.repeatLastN ∈ samplingKeys by decide),
    hreal (show OptionKey.temperature ∈ samplingKeys by decide),
    hreal (show OptionKey.topP ∈ samplingKeys by decide),
    hreal (show OptionKey.minP ∈ samplingKeys by decide),
    hreal (show OptionKey.repeatPenalty ∈ samplingKeys by decide),
    hreal (show OptionKey.presencePenalty ∈ samplingKeys by decide),
    hreal (show OptionKey.frequencyPenalty ∈ samplingKeys by decide)]

/-- Two lookups that agree on what the one reads agree on what the other reads. -/
theorem keysTried_congr (l : List OptionKey) :
    (∀ k ∈ keysTried f l, f k.name = g k.name) ↔ ∀ k ∈ keysTried g l, f k.name = g k.name := by
  induction l with
  | nil => rfl
  | cons k rest ih =>
    rw [keysTried, keysTried, List.forall_mem_cons, List.forall_mem_cons]
    refine and_congr_right fun hk => ?_
    rw [hk]
    cases (g k.name).isSome with
    | true => rfl
    | false => exact ih

theorem keysRead_congr (endpoint : Endpoint) :
    (∀ k ∈ keysRead f endpoint, f k.name = g k.name) ↔
      ∀ k ∈ keysRead g endpoint, f k.name = g k.name := by
  simp only [keysRead, List.forall_mem_append, keysTried_congr (f := f) (g := g)]

end Congr

/-- The options are those of the request itself exactly when the names that are looked up are not
shadowed. -/
theorem topLevelOnly_iff (r : Request) (endpoint : Endpoint) :
    r.TopLevelOnly endpoint ↔
      ∀ k ∈ keysRead r.ownText endpoint, Unshadowed k.name r.members := by
  have hposition (k : OptionKey) : r.lookup k.name = r.ownText k.name ↔
      Unshadowed k.name r.members := by
    rw [lookup_eq_search r k.isName]
    exact search_eq_topLevel r.members rfl r.behind
  have hread : (∀ k ∈ keysRead r.lookup endpoint, r.lookup k.name = r.ownText k.name) ↔
      ∀ k ∈ keysRead r.ownText endpoint, Unshadowed k.name r.members := by
    rw [keysRead_congr]
    exact forall₂_congr fun k _ => hposition k
  rw [← hread]
  constructor
  · exact fun h => h.position
  · intro h
    have hbehind : Behind r.behind := closed_cons (Or.inr (Or.inr rfl)) (Nat.zero_le _)
    refine ⟨h, fun m d => parseOptions_congr m d fun k hk => ?_⟩
    rw [Agrees, h k hk, Request.ownText, topLevel, Request.member]
    cases hx : topMember k.name r.members r.behind with
    | none => exact Or.inl ⟨rfl, rfl⟩
    | some x => exact Or.inr ⟨x.1, x.2, behind_of_topMember r.members hbehind hx, rfl, rfl⟩

/-! ### A tool with a parameter of that name -/

/-- A name without escapes. -/
def plainName (s : String) (h : (ascii s).all isPlain = true) : Text :=
  (ascii s).attach.map fun b => .plain b.1 (List.all_eq_true.mp h b.1 b.2)

/-- The request `{"tools":[{"temperature":{}}]}`. -/
def toolRequest : Request where
  before := default
  gap := default
  members := .member default (plainName "tools" (by decide)) default default
    (.array default (.element default (.object default (.member default
      (plainName "temperature" (by decide)) default default (.object default .noMember) default
        .noMember)) default .noElement)) default .noMember
  after := default

/-- The parameter of the tool is taken for the option of the request. -/
theorem not_topLevelOnly_toolRequest :
    ¬ ∀ (r : Request) (endpoint : Endpoint), r.TopLevelOnly endpoint := by
  intro h
  have hposition := (h toolRequest .chat).position .temperature
    (List.mem_append_left _ (by decide))
  rw [lookup_eq_search toolRequest (OptionKey.isName _)] at hposition
  have hfound : (search OptionKey.temperature.name toolRequest.members toolRequest.behind).isSome :=
    by decide +kernel
  have habsent : toolRequest.ownText OptionKey.temperature.name = none := by decide +kernel
  rw [hposition, habsent] at hfound
  exact Bool.noConfusion hfound

end Chat

end FortAI
