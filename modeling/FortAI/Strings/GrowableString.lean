import FortAI.Machine.Character
import FortAI.Machine.Growable
import Mathlib.Logic.Function.Basic

/-!
# The growable string

`fortai_string`: a character value that is allocated with room behind it, and the number of its
characters that are used.  Several strings are a family, since a string may be appended to another
one or to itself.

* `Op.run`, `Op.apply` : an operation on the strings, and what it means for their texts.
* `kept_iff_fits` : in a run, every string shows its text and no integer overflows exactly when no
  operation asks for more than half of what an integer can count.
-/

namespace FortAI

namespace Strings

open CString Storage Growable

variable {α : Type}

/-! ### Integers -/

/-- `huge(0)` -/
def hugeInteger : ℕ := 2 ^ 31 - 1

/-- A default integer. -/
structure Integer where
  toInt : ℤ
  lower : -(2 ^ 31) ≤ toInt
  upper : toInt ≤ hugeInteger

/-- The result of an operation on integers is out of their range. -/
inductive Overflow
  | overflow
  deriving DecidableEq

abbrev Run := Checked Overflow

def overflow : Run α := .error (.refused .overflow)

/-- The sum of two integers that are not negative. -/
def plus (a b : ℕ) : Run ℕ := if a + b ≤ hugeInteger then .ok (a + b) else overflow

/-! ### One string -/

/-- `string_t` -/
structure StringT where
  value : Allocatable Byte := none
  used : ℕ := 0

namespace StringT

/-- `self%value(:self%used)` -/
def front (self : StringT) : Run Bytes :=
  match self.value with
  | none => .error .outside
  | some value => substring value 1 self.used

/-- `string_clear` -/
def clear (self : StringT) : StringT := { self with used := 0 }

/-- `string_reserve` -/
def reserve (self : StringT) (required : ℤ) : Run StringT :=
  if required ≤ 0 then .ok self
  else if self.value.isSome ∧ required ≤ capacity self.value then .ok self
  else
    -- `max(16, len(self%value))` if it is allocated, and 16 if it is not
    match doubled hugeInteger required.toNat (if 16 < capacity self.value then capacity self.value else 16) with
    | none => overflow
    | some length =>
      if 0 < self.used ∧ self.value.isSome then do
        let front ← self.front
        let grown ← overlay (some (List.replicate length space)) 1 front
        return { self with value := grown }
      else .ok { self with value := some (List.replicate length space) }

/-- `string_append` -/
def append (self : StringT) (fragment : Bytes) : Run StringT := do
  let n ← plus 0 fragment.length
  if n = 0 then return self
  let required ← plus self.used n
  let grown ← self.reserve required
  let value ← overlay grown.value (grown.used + 1) fragment
  let used ← plus grown.used n
  return ⟨value, used⟩

/-- `string_append_char` -/
def appendChar (self : StringT) (fragment : Byte) : Run StringT := self.append [fragment]

/-- `write(buffer, '(i0)') number` for a buffer of 32 characters, and `buffer(:len_trim(buffer))` -/
def formatted (number : Integer) : Bytes :=
  Character.trim (signed number.toInt ++ List.replicate (32 - (signed number.toInt).length) space)

/-- `string_append_int` -/
def appendInt (self : StringT) (number : Integer) : Run StringT := self.append (formatted number)

/-- `string_append_logical` -/
def appendLogical (self : StringT) (value : Bool) : Run StringT :=
  if value then self.append (ascii "true") else self.append (ascii "false")

/-- `string_set` -/
def set (self : StringT) (text : Bytes) : Run StringT := self.clear.append text

/-- `do while (input(n + 1) /= c_null_char)`; `input` is what stands from the position `n + 1` on. -/
def countInput : Bytes → ℕ → Run ℕ
  | [], _ => .error .outside
  | b :: input, n => do
    let next ← plus n 1
    if b = 0 then return n else countInput input next

/-- `string_from_c` -/
def fromC (self : StringT) (input : Bytes) (length : Option Integer) : Run StringT := do
  let n ← match length with
    | some length => pure (if 0 < length.toInt then length.toInt.toNat else 0)
    | none => countInput input 0
  let reserved ← self.clear.reserve n
  let value ← (List.range n).foldlM (fun value i => do
    let character ← load (some input) (i + 1)
    store value (i + 1) character) reserved.value
  return ⟨value, n⟩

/-- `string_as_character` -/
def asCharacter (self : StringT) : Run Bytes := if 0 < self.used then self.front else .ok []

end StringT

/-! ### Several strings -/

/-- What `string_from_c` is called with: a buffer with as many bytes as the length says, or with a
NUL. -/
structure CInput where
  bytes : Bytes
  length : Option Integer
  readable : length.elim (0 ∈ bytes) fun n => n.toInt ≤ bytes.length

/-- The bytes that the input stands for. -/
def CInput.content (input : CInput) : Bytes :=
  input.length.elim (CString.text input.bytes) fun n => input.bytes.take n.toInt.toNat

/-- The operations on strings, each with the string it changes. -/
inductive Op (ι : Type)
  | clear (i : ι)
  | reserve (i : ι) (required : Integer)
  | append (i : ι) (fragment : Bytes)
  | appendChar (i : ι) (fragment : Byte)
  | appendString (i fragment : ι)
  | appendInt (i : ι) (number : Integer)
  | appendLogical (i : ι) (value : Bool)
  | set (i : ι) (text : Bytes)
  | fromC (i : ι) (input : CInput)

variable {ι : Type} [DecidableEq ι]

/-- `string_append_string`; `fragment` may be the string itself, and is read after it has grown. -/
def appendString (strings : ι → StringT) (self fragment : ι) : Run (ι → StringT) :=
  if (strings fragment).used = 0 then .ok strings
  else do
    let required ← plus (strings self).used (strings fragment).used
    let grown ← (strings self).reserve required
    let after := Function.update strings self grown
    let front ← (after fragment).front
    let value ← overlay grown.value (grown.used + 1) front
    let used ← plus grown.used (after fragment).used
    return Function.update after self ⟨value, used⟩

namespace Op

/-- A string of the family is replaced. -/
def put (strings : ι → StringT) (i : ι) (result : Run StringT) : Run (ι → StringT) := do
  return Function.update strings i (← result)

/-- What the source does. -/
def run (strings : ι → StringT) : Op ι → Run (ι → StringT)
  | clear i => put strings i (.ok (strings i).clear)
  | reserve i required => put strings i ((strings i).reserve required.toInt)
  | append i fragment => put strings i ((strings i).append fragment)
  | appendChar i fragment => put strings i ((strings i).appendChar fragment)
  | appendString i fragment => Strings.appendString strings i fragment
  | appendInt i number => put strings i ((strings i).appendInt number)
  | appendLogical i value => put strings i ((strings i).appendLogical value)
  | set i text => put strings i ((strings i).set text)
  | fromC i input => put strings i ((strings i).fromC input.bytes input.length)

/-- What an operation means for the texts. -/
def apply (texts : ι → Bytes) : Op ι → ι → Bytes
  | clear i => Function.update texts i []
  | reserve _ _ => texts
  | append i fragment => Function.update texts i (texts i ++ fragment)
  | appendChar i fragment => Function.update texts i (texts i ++ [fragment])
  | appendString i fragment => Function.update texts i (texts i ++ texts fragment)
  | appendInt i number => Function.update texts i (texts i ++ signed number.toInt)
  | appendLogical i value => Function.update texts i (texts i ++ ascii (if value then "true" else "false"))
  | set i text => Function.update texts i text
  | fromC i input => Function.update texts i input.content

/-- The size that an operation asks for: the argument of `reserve`, and the length of the text behind
every other operation. -/
def size (texts : ι → Bytes) : Op ι → ℤ
  | reserve _ required => required.toInt
  | clear i => ((clear i).apply texts i).length
  | append i fragment => ((append i fragment).apply texts i).length
  | appendChar i fragment => ((appendChar i fragment).apply texts i).length
  | appendString i fragment => ((appendString i fragment).apply texts i).length
  | appendInt i number => ((appendInt i number).apply texts i).length
  | appendLogical i value => ((appendLogical i value).apply texts i).length
  | set i text => ((set i text).apply texts i).length
  | fromC i input => ((fromC i input).apply texts i).length

end Op

/-- No string uses more than is allocated, and every one is read back as its text. -/
def Shows (strings : ι → StringT) (texts : ι → Bytes) : Prop :=
  ∀ i, (strings i).used ≤ capacity (strings i).value ∧ (strings i).asCharacter = .ok (texts i)

/-- No operation of the run ends in an overflow or outside of the storage, and the strings show their
texts all along. -/
def Kept : (ι → StringT) → (ι → Bytes) → List (Op ι) → Prop
  | strings, texts, [] => Shows strings texts
  | strings, texts, op :: ops =>
    Shows strings texts ∧ ∃ after, op.run strings = .ok after ∧ Kept after (op.apply texts) ops

/-- No operation of the run asks for more than `2 ^ 30` bytes. -/
def Fits : (ι → Bytes) → List (Op ι) → Prop
  | _, [] => True
  | texts, op :: ops => op.size texts ≤ 2 ^ 30 ∧ Fits (op.apply texts) ops

/-! ### One string and its text -/

/-- A string holds its text, and what is allocated is a power of two. -/
structure Good (s : StringT) (t : Bytes) : Prop where
  holds : Holds s.value s.used t
  power : s.value.isSome → ∃ k, 4 ≤ k ∧ k ≤ 30 ∧ capacity s.value = 2 ^ k

/-- The operation asks for `size` bytes: it returns what meets `P` if that is at most `2 ^ 30`, and
it overflows if it is more. -/
structure Meets (r : Run α) (size : ℤ) (P : α → Prop) : Prop where
  returns : size ≤ 2 ^ 30 → ∃ a, r = .ok a ∧ P a
  overflows : 2 ^ 30 < size → r = overflow

namespace Good

variable {s : StringT} {t : Bytes}

theorem new : Good {} [] where
  holds := .nil none
  power h := absurd h (by decide)

theorem clear (h : Good s t) : Good s.clear [] where
  holds := .nil s.value
  power := h.power

/-- At most `2 ^ 30` bytes are allocated. -/
theorem capacity_le (h : Good s t) : capacity s.value ≤ 2 ^ 30 := by
  cases hvalue : s.value with
  | none => exact Nat.zero_le _
  | some value =>
    obtain ⟨k, -, hk, hpower⟩ := h.power (by rw [hvalue]; rfl)
    rw [← hvalue, hpower]
    exact Nat.pow_le_pow_right (by decide) hk

theorem length_le (h : Good s t) : t.length ≤ 2 ^ 30 := by
  rw [← h.holds.used_eq]
  exact h.holds.used_le.trans h.capacity_le

/-- The capacity from which the doubling starts. -/
theorem start (h : Good s t) :
    ∃ k, 4 ≤ k ∧ k ≤ 30 ∧ (if 16 < capacity s.value then capacity s.value else 16) = 2 ^ k ∧
      capacity s.value ≤ 2 ^ k := by
  cases hvalue : s.value with
  | none => exact ⟨4, by decide, by decide, rfl, Nat.zero_le _⟩
  | some value =>
    obtain ⟨k, hlow, hhigh, hpower⟩ := h.power (by rw [hvalue]; rfl)
    rw [hvalue] at hpower
    have hge : 2 ^ 4 ≤ 2 ^ k := Nat.pow_le_pow_right (by decide) hlow
    refine ⟨k, hlow, hhigh, ?_, Nat.le_of_eq hpower⟩
    rw [hpower]
    split_ifs <;> omega

theorem front_eq (h : Good s t) (hsome : s.value.isSome) : s.front = .ok t := by
  obtain ⟨value, hvalue⟩ := Option.isSome_iff_exists.mp hsome
  have hholds := h.holds
  rw [hvalue] at hholds
  rw [StringT.front, hvalue]
  exact hholds.substring_eq

theorem asCharacter_eq (h : Good s t) : s.asCharacter = .ok t := by
  rw [StringT.asCharacter]
  by_cases hused : 0 < s.used
  · rw [if_pos hused]
    refine h.front_eq ?_
    by_contra hnone
    have ht : Holds none s.used t := Option.not_isSome_iff_eq_none.mp hnone ▸ h.holds
    rw [ht.used_eq, ht.eq_nil] at hused
    exact absurd hused (by decide)
  · have hlength := h.holds.used_eq
    obtain rfl : t = [] := List.eq_nil_of_length_eq_zero (by omega)
    rw [if_neg hused]

/-- `reserve` keeps the text and makes room, or overflows. -/
theorem reserve_meets (h : Good s t) (required : ℤ) :
    Meets (s.reserve required) required fun s' =>
      Good s' t ∧ s'.used = s.used ∧ required ≤ capacity s'.value := by
  obtain ⟨k, hlow, hhigh, hstart, hcapacity⟩ := h.start
  have hhuge : hugeInteger = 2 ^ (30 + 1) - 1 := rfl
  constructor
  · intro hsize
    rw [StringT.reserve]
    by_cases hneg : required ≤ 0
    · exact ⟨s, if_pos hneg, h, rfl, Int.le_trans hneg (Int.natCast_nonneg _)⟩
    rw [if_neg hneg]
    by_cases hroom : s.value.isSome ∧ required ≤ capacity s.value
    · exact ⟨s, if_pos hroom, h, rfl, hroom.2⟩
    rw [if_neg hroom, hstart, hhuge]
    obtain ⟨m, hkm, hm, hrequired, hdoubled⟩ :=
      doubled_pow (show 1 ≤ k by omega) hhigh (show required.toNat ≤ 2 ^ 30 by omega)
    have hpower : 2 ^ k ≤ 2 ^ m := Nat.pow_le_pow_right (by decide) hkm
    have hfit : s.used ≤ (List.replicate (2 ^ m) space).length := by
      rw [List.length_replicate]
      exact h.holds.used_le.trans (hcapacity.trans hpower)
    rw [hdoubled]
    by_cases hcopy : 0 < s.used ∧ s.value.isSome
    · obtain ⟨ys, hmoved, hlength, hholds⟩ := h.holds.moved (E := Overflow) hfit
      have hys : capacity (some ys) = 2 ^ m := hlength.trans List.length_replicate
      refine ⟨{ s with value := some ys }, ?_, ⟨hholds, fun _ => ⟨m, by omega, hm, hys⟩⟩, rfl, ?_⟩
      · simp only [if_pos hcopy, h.front_eq hcopy.2, ok_bind, hmoved]
        rfl
      · show required ≤ (capacity (some ys) : ℤ)
        rw [hys]
        omega
    · -- nothing is used, so nothing is copied
      have ht : t = [] := by
        rcases not_and_or.mp hcopy with hused | hnone
        · have := h.holds.used_eq
          exact List.eq_nil_of_length_eq_zero (by omega)
        · have hholds : Holds none s.used t := Option.not_isSome_iff_eq_none.mp hnone ▸ h.holds
          exact hholds.eq_nil
      have hused : s.used = 0 := by rw [h.holds.used_eq, ht]; rfl
      have hlength : capacity (some (List.replicate (2 ^ m) space)) = 2 ^ m := List.length_replicate
      refine ⟨{ s with value := some (List.replicate (2 ^ m) space) }, if_neg hcopy, ⟨?_, fun _ => ⟨m, by omega, hm, hlength⟩⟩,
        rfl, ?_⟩
      · show Holds (some (List.replicate (2 ^ m) space)) s.used t
        rw [ht, hused]
        exact .nil _
      · show required ≤ (capacity (some (List.replicate (2 ^ m) space)) : ℤ)
        rw [hlength]
        omega
  · intro hsize
    have hroom : ¬ (s.value.isSome ∧ required ≤ capacity s.value) := by
      rintro ⟨-, hle⟩
      have := h.capacity_le
      omega
    have hnone := doubled_pow_none (show 1 ≤ k by omega) hhigh (show 2 ^ 30 < required.toNat by omega)
    rw [StringT.reserve, if_neg (by omega), if_neg hroom, hstart, hhuge, hnone]

/-- Bytes are written behind the text of a string that has room for them. -/
theorem overlay_meets (h : Good s t) {fragment : Bytes} (hsome : s.value.isSome)
    (hroom : s.used + fragment.length ≤ capacity s.value) :
    ∃ value, (overlay s.value (s.used + 1) fragment : Run _) = .ok value ∧
      Good ⟨value, s.used + fragment.length⟩ (t ++ fragment) := by
  obtain ⟨value, hvalue⟩ := Option.isSome_iff_exists.mp hsome
  have hholds := h.holds
  have hpower := h.power hsome
  rw [hvalue] at hholds hpower hroom
  obtain ⟨after, hafter, hlength, hnew⟩ := hholds.append hroom
  have hcapacity : capacity (some after) = capacity (some value) := hlength
  exact ⟨some after, hvalue ▸ hafter, hnew, fun _ => hcapacity ▸ hpower⟩

/-- `append` puts the fragment behind the text. -/
theorem append_meets (h : Good s t) (fragment : Bytes) :
    Meets (s.append fragment) (t ++ fragment).length (Good · (t ++ fragment)) := by
  have hhuge : hugeInteger = 2 ^ 31 - 1 := rfl
  have hused := h.holds.used_eq
  have hlength : (t ++ fragment).length = s.used + fragment.length := by rw [List.length_append, hused]
  have hreserve := h.reserve_meets ((s.used + fragment.length : ℕ) : ℤ)
  rw [hlength]
  constructor
  · intro hsize
    have hn : plus 0 fragment.length = .ok fragment.length := by rw [plus, Nat.zero_add, if_pos (by omega)]
    have hrequired : plus s.used fragment.length = .ok (s.used + fragment.length) := if_pos (by omega)
    rw [StringT.append, hn, ok_bind]
    by_cases hempty : fragment.length = 0
    · obtain rfl : fragment = [] := List.eq_nil_of_length_eq_zero hempty
      rw [List.append_nil]
      exact ⟨s, if_pos rfl, h⟩
    obtain ⟨grown, hgrown, hgood, hsame, hroom⟩ := hreserve.returns hsize
    have hsome : grown.value.isSome := by
      rw [← Option.ne_none_iff_isSome]
      intro hnone
      rw [hnone] at hroom
      have : capacity (none : Allocatable Byte) = 0 := rfl
      omega
    rw [← hsame] at hroom
    obtain ⟨value, hvalue, hfinal⟩ := hgood.overlay_meets hsome (Int.ofNat_le.mp hroom)
    refine ⟨⟨value, grown.used + fragment.length⟩, ?_, hfinal⟩
    rw [if_neg hempty, hrequired, ok_bind, hgrown, ok_bind, hvalue, ok_bind, hsame, hrequired]
    rfl
  · intro hsize
    have hne : fragment.length ≠ 0 := by
      have := h.length_le
      omega
    rw [StringT.append, plus, Nat.zero_add]
    by_cases hfits : fragment.length ≤ hugeInteger
    · rw [if_pos hfits, ok_bind, if_neg hne, plus]
      by_cases hsum : s.used + fragment.length ≤ hugeInteger
      · rw [if_pos hsum, ok_bind, hreserve.overflows hsize]
        rfl
      · rw [if_neg hsum]
        rfl
    · rw [if_neg hfits]
      rfl

theorem formatted_eq (number : Integer) : StringT.formatted number = signed number.toInt := by
  have hspace : space ∉ signed number.toInt := not_mem_signed (by decide) (by decide)
  rw [StringT.formatted]
  -- the blanks behind the number are trimmed one by one
  induction 32 - (signed number.toInt).length with
  | zero => rw [List.replicate_zero, List.append_nil, Character.trim_eq_self hspace]
  | succ n ih =>
    rw [List.replicate_succ', ← List.append_assoc, Character.trim, trimEnd, List.rdropWhile_concat_pos _ _ _ rfl]
    exact ih

/-- The input is counted up to its NUL. -/
theorem countInput_eq {input : Bytes} (h : 0 ∈ input) (n : ℕ) :
    StringT.countInput input n =
      if n + (CString.text input).length + 1 ≤ hugeInteger then .ok (n + (CString.text input).length) else overflow := by
  induction input generalizing n with
  | nil => exact absurd h (List.not_mem_nil)
  | cons b input ih =>
    rw [StringT.countInput]
    by_cases hb : b = 0
    · subst hb
      have htext : CString.text (0 :: input) = [] := List.takeWhile_cons_of_neg (by decide)
      rw [htext, plus, List.length_nil, Nat.add_zero]
      by_cases hnext : n + 1 ≤ hugeInteger
      · rw [if_pos hnext, if_pos hnext, ok_bind, if_pos rfl]
        rfl
      · rw [if_neg hnext, if_neg hnext]
        rfl
    · have hrest : 0 ∈ input := (List.mem_cons.mp h).resolve_left (Ne.symm hb)
      have htext : CString.text (b :: input) = b :: CString.text input :=
        List.takeWhile_cons_of_pos (decide_eq_true hb)
      have hlength : n + (CString.text (b :: input)).length = n + 1 + (CString.text input).length := by
        rw [htext, List.length_cons, Nat.add_assoc, Nat.add_comm 1]
      rw [hlength, plus]
      by_cases hnext : n + 1 ≤ hugeInteger
      · rw [if_pos hnext, ok_bind, if_neg hb, ih hrest]
      · rw [if_neg hnext, if_neg (by omega)]
        rfl

/-- The characters of the input are taken one by one. -/
theorem copy_meets (h : Good s t) {input : Bytes} {n : ℕ} (hn : n ≤ input.length) :
    Meets (do
      let reserved ← s.clear.reserve n
      let value ← (List.range n).foldlM (fun value i => do
        let character ← load (some input) (i + 1)
        store value (i + 1) character) reserved.value
      return (⟨value, n⟩ : StringT)) n (Good · (input.take n)) := by
  have hreserve := h.clear.reserve_meets n
  constructor
  · intro hsize
    obtain ⟨reserved, hreserved, hgood, -, hroom⟩ := hreserve.returns hsize
    rw [hreserved, ok_bind]
    have hlength : (input.take n).length = n := List.length_take_of_le hn
    cases hvalue : reserved.value with
    | none =>
      -- nothing is asked for
      rw [hvalue] at hroom
      obtain rfl : n = 0 := by
        have : capacity (none : Allocatable Byte) = 0 := rfl
        omega
      exact ⟨⟨none, 0⟩, rfl, .nil none, fun hsome => absurd hsome (by decide)⟩
    | some ys =>
      have hpower := hgood.power (by rw [hvalue]; rfl)
      rw [hvalue] at hroom hpower
      have hys : n ≤ ys.length := Int.ofNat_le.mp hroom
      have hturn (array : Allocatable Byte) (i : ℕ) (hi : i < n) : (do
          let character ← load (some input) (i + 1)
          store array (i + 1) character : Run _) = store array (i + 1) (input.getD i 0) := by
        rw [load_getD (hi.trans_le hn) 0, ok_bind]
      have hfront : (List.range n).map (fun i => input.getD i 0) = input.take n := by
        refine List.ext_getElem (by rw [List.length_map, List.length_range, hlength]) fun i hi hi' => ?_
        have hlt : i < input.length := by
          rw [List.length_map, List.length_range] at hi
          omega
        rw [List.getElem_map, List.getElem_range, List.getElem_take, List.getD_eq_getElem?_getD,
          List.getElem?_eq_getElem hlt,
          Option.getD_some]
      have hcapacity : capacity (some (input.take n ++ ys.drop n)) = capacity (some ys) := by
        show (input.take n ++ ys.drop n).length = ys.length
        rw [List.length_append, hlength, List.length_drop]
        omega
      refine ⟨⟨some (input.take n ++ ys.drop n), n⟩, ?_, ⟨hlength.symm, ⟨_, rfl⟩⟩, fun _ => hcapacity ▸ hpower⟩
      rw [foldlM_store_front hturn hys, hfront, ok_bind]
      rfl
  · intro hsize
    rw [hreserve.overflows hsize]
    rfl

/-- `from_c` replaces the text by what the input stands for. -/
theorem fromC_meets (h : Good s t) (input : CInput) :
    Meets (s.fromC input.bytes input.length) input.content.length (Good · input.content) := by
  obtain ⟨bytes, length, hreadable⟩ := input
  cases length with
  | some n =>
    have hn : n.toInt.toNat ≤ bytes.length := by
      have : n.toInt ≤ bytes.length := hreadable
      omega
    have hmax : (if 0 < n.toInt then n.toInt.toNat else 0) = n.toInt.toNat := by split_ifs <;> omega
    have hlength : (CInput.content ⟨bytes, some n, hreadable⟩).length = n.toInt.toNat := List.length_take_of_le hn
    rw [StringT.fromC, hmax, hlength]
    exact h.copy_meets hn
  | none =>
    have hprefix : CString.text bytes <+: bytes := List.takeWhile_prefix _
    have hcopy := h.copy_meets hprefix.length_le
    rw [← List.prefix_iff_eq_take.mp hprefix] at hcopy
    have hcount := countInput_eq (show 0 ∈ bytes from hreadable) 0
    rw [Nat.zero_add] at hcount
    by_cases hfits : (CString.text bytes).length + 1 ≤ hugeInteger
    · rw [StringT.fromC, hcount, if_pos hfits]
      exact hcopy
    · rw [StringT.fromC, hcount, if_neg hfits]
      have hlarge : hugeInteger < (CString.text bytes).length + 1 := Nat.lt_of_not_le hfits
      refine ⟨fun hsize => ?_, fun _ => rfl⟩
      have hhuge : hugeInteger = 2 ^ 31 - 1 := rfl
      have : ((CString.text bytes).length : ℤ) ≤ 2 ^ 30 := hsize
      omega

end Good

/-! ### Several strings and their texts -/

/-- Every string holds its text. -/
def AllGood (strings : ι → StringT) (texts : ι → Bytes) : Prop := ∀ i, Good (strings i) (texts i)

namespace AllGood

variable {strings : ι → StringT} {texts : ι → Bytes}

theorem update (h : AllGood strings texts) (i : ι) {s : StringT} {t : Bytes} (hs : Good s t) :
    AllGood (Function.update strings i s) (Function.update texts i t) := by
  intro j
  by_cases hj : j = i
  · subst hj
    rw [Function.update_self, Function.update_self]
    exact hs
  · rw [Function.update_of_ne hj, Function.update_of_ne hj]
    exact h j

omit [DecidableEq ι] in
theorem shows (h : AllGood strings texts) : Shows strings texts := fun i =>
  ⟨(h i).holds.used_le, (h i).asCharacter_eq⟩

/-- An operation on one string, for the family. -/
theorem put_meets (h : AllGood strings texts) (i : ι) {result : Run StringT} {size : ℤ} {t : Bytes}
    (hmeets : Meets result size (Good · t)) :
    Meets (Op.put strings i result) size (AllGood · (Function.update texts i t)) := by
  constructor
  · intro hsize
    obtain ⟨s, hresult, hs⟩ := hmeets.returns hsize
    exact ⟨Function.update strings i s, by rw [Op.put, hresult]; rfl, h.update i hs⟩
  · intro hsize
    rw [Op.put, hmeets.overflows hsize]
    rfl

/-- A string is appended to another one or to itself. -/
theorem appendString_meets (h : AllGood strings texts) (i fragment : ι) :
    Meets (appendString strings i fragment) (texts i ++ texts fragment).length
      (AllGood · (Function.update texts i (texts i ++ texts fragment))) := by
  have hhuge : hugeInteger = 2 ^ 31 - 1 := rfl
  have hself := (h i).holds.used_eq
  have hfragment := (h fragment).holds.used_eq
  have hselfLength := (h i).length_le
  have hfragmentLength := (h fragment).length_le
  have hlength : (texts i ++ texts fragment).length = (strings i).used + (strings fragment).used := by
    rw [List.length_append, hself, hfragment]
  have hreserve := (h i).reserve_meets (((strings i).used + (strings fragment).used : ℕ) : ℤ)
  rw [hlength]
  by_cases hempty : (strings fragment).used = 0
  · -- nothing is appended
    have hnil : texts fragment = [] := List.eq_nil_of_length_eq_zero (by omega)
    rw [hnil, List.append_nil, Function.update_eq_self, appendString, if_pos hempty]
    exact ⟨fun _ => ⟨strings, rfl, h⟩, fun hsize => absurd hsize (by omega)⟩
  rw [appendString, if_neg hempty]
  constructor
  · intro hsize
    have hrequired : plus (strings i).used (strings fragment).used =
        .ok ((strings i).used + (strings fragment).used) := if_pos (by omega)
    obtain ⟨grown, hgrown, hgood, hsame, hroom⟩ := hreserve.returns hsize
    have hafter : AllGood (Function.update strings i grown) texts := by
      have := h.update i hgood
      rwa [Function.update_eq_self] at this
    -- the fragment as it is after the string has grown, which may be the string itself
    have hread : (Function.update strings i grown fragment).used = (strings fragment).used := by
      rw [(hafter fragment).holds.used_eq, hfragment]
    have hsome (s : StringT) (hs : ((strings i).used + (strings fragment).used : ℕ) ≤ capacity s.value ∨ 0 < s.used)
        {t : Bytes} (hgood : Good s t) : s.value.isSome := by
      rw [← Option.ne_none_iff_isSome]
      intro hnone
      have hzero : capacity s.value = 0 := by rw [hnone]; rfl
      have := hgood.holds.used_le
      omega
    have hfront : (Function.update strings i grown fragment).front = .ok (texts fragment) :=
      (hafter fragment).front_eq (hsome _ (.inr (by omega)) (hafter fragment))
    obtain ⟨value, hvalue, hfinal⟩ := hgood.overlay_meets
      (hsome grown (.inl (Int.ofNat_le.mp hroom)) hgood)
      (show grown.used + (texts fragment).length ≤ capacity grown.value by omega)
    have hused : plus grown.used (Function.update strings i grown fragment).used =
        .ok (grown.used + (texts fragment).length) := by
      rw [hread, hfragment, plus, if_pos (by omega)]
    refine ⟨Function.update strings i ⟨value, grown.used + (texts fragment).length⟩, ?_, h.update i hfinal⟩
    simp only [hrequired, hgrown, ok_bind, hfront, hvalue, hused, Function.update_idem]
    rfl
  · intro hsize
    by_cases hsum : (strings i).used + (strings fragment).used ≤ hugeInteger
    · rw [plus, if_pos hsum, ok_bind, hreserve.overflows hsize]
      rfl
    · rw [plus, if_neg hsum]
      rfl

/-- An operation does to the strings what it means for the texts, unless it asks for too much. -/
theorem run_meets (h : AllGood strings texts) (op : Op ι) :
    Meets (op.run strings) (op.size texts) (AllGood · (op.apply texts)) := by
  cases op with
  | clear i =>
    refine h.put_meets i ⟨fun _ => ⟨_, rfl, (h i).clear⟩, fun hsize => ?_⟩
    rw [Op.size, Op.apply, Function.update_self] at hsize
    exact absurd hsize (by decide)
  | reserve i required =>
    have hmeets := @put_meets _ _ _ _ h i ((strings i).reserve required.toInt) required.toInt (texts i)
      ⟨fun hsize => ?_, ((h i).reserve_meets _).overflows⟩
    · rwa [Function.update_eq_self] at hmeets
    · obtain ⟨s, hs, hgood, -⟩ := ((h i).reserve_meets _).returns hsize
      exact ⟨s, hs, hgood⟩
  | append i fragment =>
    rw [Op.size, Op.apply, Function.update_self]
    exact h.put_meets i ((h i).append_meets fragment)
  | appendChar i fragment =>
    rw [Op.size, Op.apply, Function.update_self]
    exact h.put_meets i ((h i).append_meets [fragment])
  | appendString i fragment =>
    rw [Op.size, Op.apply, Function.update_self]
    exact h.appendString_meets i fragment
  | appendInt i number =>
    have hmeets := (h i).append_meets (StringT.formatted number)
    rw [Op.size, Op.apply, Function.update_self]
    rw [Good.formatted_eq] at hmeets
    refine h.put_meets i ?_
    rw [StringT.appendInt, Good.formatted_eq]
    exact hmeets
  | appendLogical i value =>
    rw [Op.size, Op.apply, Function.update_self]
    refine h.put_meets i ?_
    cases value with
    | true => exact (h i).append_meets (ascii "true")
    | false => exact (h i).append_meets (ascii "false")
  | set i text =>
    rw [Op.size, Op.apply, Function.update_self]
    exact h.put_meets i ((h i).clear.append_meets text)
  | fromC i input =>
    rw [Op.size, Op.apply, Function.update_self]
    exact h.put_meets i ((h i).fromC_meets input)

/-- The strings keep their texts in a run exactly when no operation asks for too much. -/
theorem kept_iff (h : AllGood strings texts) (ops : List (Op ι)) : Kept strings texts ops ↔ Fits texts ops := by
  induction ops generalizing strings texts with
  | nil => exact ⟨fun _ => trivial, fun _ => h.shows⟩
  | cons op ops ih =>
    have hmeets := h.run_meets op
    rw [Kept, Fits]
    constructor
    · rintro ⟨-, after, hrun, hkept⟩
      have hsize : op.size texts ≤ 2 ^ 30 := by
        by_contra hlarge
        rw [hmeets.overflows (Int.not_le.mp hlarge)] at hrun
        cases hrun
      obtain ⟨after', hrun', hgood⟩ := hmeets.returns hsize
      rw [hrun, Except.ok.injEq] at hrun'
      exact ⟨hsize, (ih (hrun' ▸ hgood)).mp hkept⟩
    · rintro ⟨hsize, hfits⟩
      obtain ⟨after, hrun, hgood⟩ := hmeets.returns hsize
      exact ⟨h.shows, after, hrun, (ih hgood).mpr hfits⟩

end AllGood

/-- In every run from strings that hold nothing, every string shows its text after every operation, and
nothing overflows, exactly when no operation asks for more than `2 ^ 30` bytes. -/
theorem kept_iff_fits (ops : List (Op ι)) : Kept (fun _ : ι => {}) (fun _ => []) ops ↔ Fits (fun _ => []) ops :=
  AllGood.kept_iff (fun _ => Good.new) ops

/-- A first fragment of more than half of what an integer can count. -/
theorem not_kept_large : ¬ ∀ ops : List (Op Unit), Kept (fun _ => {}) (fun _ => []) ops := by
  intro h
  obtain ⟨-, after, hrun, -⟩ := h [.append () (List.replicate (2 ^ 30 + 1) 97)]
  have hlarge : 2 ^ 30 < (([] ++ List.replicate (2 ^ 30 + 1) 97 : Bytes).length : ℤ) := by
    rw [List.nil_append, List.length_replicate]
    decide
  rw [Op.run, Op.put, (Good.new.append_meets _).overflows hlarge] at hrun
  cases hrun

end Strings

end FortAI
