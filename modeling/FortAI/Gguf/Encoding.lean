import FortAI.Gguf.Format
import FortAI.Machine.Float

/-!
# The encoding of metadata

A value of metadata is written as it stands in a file: integers in little-endian order, strings and
arrays behind their lengths.

* `Datum` : the values; `Datum.encoding` : their bytes.
* `Datum.Kept` : what is kept of a value that has been read.
* `metadata_encoding` : values, and entries one behind the other, are read back.
-/

namespace FortAI

namespace Gguf

open Binary Scanner Rounding

/-! ### Values -/

inductive IntegerType
  | uint8 | int8 | uint16 | int16 | uint32 | int32 | uint64 | int64
  deriving DecidableEq

namespace IntegerType

def code : IntegerType → ℤ
  | uint8 => 0
  | int8 => 1
  | uint16 => 2
  | int16 => 3
  | uint32 => 4
  | int32 => 5
  | uint64 => 10
  | int64 => 11

def width : IntegerType → Width
  | uint8 | int8 => .int8
  | uint16 | int16 => .int16
  | uint32 | int32 => .int32
  | uint64 | int64 => .int64

def low : IntegerType → ℤ
  | uint8 | uint16 | uint32 | uint64 => 0
  | t => -t.width.limit

def high : IntegerType → ℤ
  | t@uint8 | t@uint16 | t@uint32 | t@uint64 => 2 * t.width.limit
  | t => t.width.limit

end IntegerType

/-- An integer of a type. -/
structure Number (t : IntegerType) where
  value : ℤ
  low_le : t.low ≤ value
  lt_high : value < t.high

/-- The values of metadata; floating-point numbers are given by their patterns. -/
inductive Datum
  | integer (t : IntegerType) (x : Number t)
  | float32 (bits : UInt32)
  | float64 (bits : UInt64)
  | bool (b : Bool)
  | string (s : Bytes)
  | integers (t : IntegerType) (xs : List (Number t))
  | float32s (xs : List UInt32)
  | float64s (xs : List UInt64)
  | bools (xs : List Bool)
  | strings (xs : List Bytes)

/-! ### Bytes -/

def Number.encoding {t : IntegerType} (x : Number t) : Bytes := encode t.width x.value
def float32Encoding (bits : UInt32) : Bytes := littleEndian 4 bits.toNat
def float64Encoding (bits : UInt64) : Bytes := littleEndian 8 bits.toNat
def boolEncoding (b : Bool) : Bytes := [if b then 1 else 0]

/-- A string behind its length. -/
def stringEncoding (s : Bytes) : Bytes := littleEndian 8 s.length ++ s

/-- The elements of an array behind their type and their number. -/
def arrayEncoding {α : Type} (elementType : ℤ) (encoding : α → Bytes) (xs : List α) : Bytes :=
  encode .int32 elementType ++ (littleEndian 8 xs.length ++ xs.flatMap encoding)

namespace Datum

def valueType : Datum → ℤ
  | integer t _ => t.code
  | float32 _ => 6
  | float64 _ => 12
  | bool _ => 7
  | string _ => 8
  | _ => 9

def encoding : Datum → Bytes
  | integer _ x => x.encoding
  | float32 bits => float32Encoding bits
  | float64 bits => float64Encoding bits
  | bool b => boolEncoding b
  | string s => stringEncoding s
  | integers t xs => arrayEncoding t.code Number.encoding xs
  | float32s xs => arrayEncoding 6 float32Encoding xs
  | float64s xs => arrayEncoding 12 float64Encoding xs
  | bools xs => arrayEncoding 7 boolEncoding xs
  | strings xs => arrayEncoding 8 stringEncoding xs

end Datum

/-- An entry of the metadata. -/
structure Entry where
  key : Bytes
  datum : Datum

def Entry.encoding (entry : Entry) : Bytes :=
  stringEncoding entry.key ++ (encode .int32 entry.datum.valueType ++ entry.datum.encoding)

/-! ### What is kept -/

/-- `real_value`: the pattern of the number that was read from these bytes. -/
def realValue (s : Bytes) : ℕ := if s.length = 8 then convert .double .single (unsigned s) else unsigned s

/-- A number of double precision becomes the nearest one of single precision. -/
def Narrowed (a b : ℕ) : Prop :=
  (¬ Format.double.IsNaN a → RoundsTo .double .single a b) ∧ (Format.double.IsNaN a → Format.single.IsNaN b)

/-- The text of a string that was read. -/
def textOf (s : Bytes) : Text := ⟨s.length, some s⟩

namespace Datum

/-- What is kept of a value: integers in 64 signed bits, floating-point numbers in single precision, and
of an array its elements or their number alone. -/
def Kept : Datum → Value → Prop
  | integer _ x, v => v = .integer (wrap .int64 x.value)
  | float32 bits, v => ∃ s, v = .real s ∧ realValue s = bits.toNat
  | float64 bits, v => ∃ s, v = .real s ∧ Narrowed bits.toNat (realValue s)
  | bool b, v => v = .logical b
  | string s, v => v = .string (textOf s)
  | integers t xs, v =>
    if t.width = .int32 ∨ t.width = .int64 then
      v = .integers xs.length t.code (xs.map fun x => wrap .int64 x.value)
    else v = .skipped xs.length t.code xs.length
  | float32s xs, v => v = .skipped xs.length 6 xs.length
  | float64s xs, v => v = .skipped xs.length 12 xs.length
  | bools xs, v => v = .skipped xs.length 7 xs.length
  | strings xs, v => v = .strings xs.length (xs.map textOf)

/-- The lengths fit 64 signed bits, and the elements of an array of the type `uint32` are below
`2 ^ 31`. -/
def InRange : Datum → Prop
  | integer _ _ | float32 _ | float64 _ | bool _ => True
  | string s => s.length < 2 ^ 63
  | integers t xs => xs.length < 2 ^ 63 ∧ (t = .uint32 → ∀ x ∈ xs, x.value < 2 ^ 31)
  | float32s xs => xs.length < 2 ^ 63
  | float64s xs => xs.length < 2 ^ 63
  | bools xs => xs.length < 2 ^ 63
  | strings xs => xs.length < 2 ^ 63 ∧ ∀ s ∈ xs, s.length < 2 ^ 63

end Datum

/-! ### Reading -/

section
variable {after : Bytes} {n : ℕ}

/-- A length in front of what it counts. -/
theorem unsigned_length (h : n < 2 ^ 63) : unsigned (littleEndian 8 n) = n := by
  rw [unsigned_littleEndian]
  exact Nat.mod_eq_of_lt (h.trans_le (by norm_num))

theorem signed_length (h : n < 2 ^ 63) : signed .int64 n = n := if_pos h

theorem yields_readString (e : OpenError) {s : Bytes} (h : s.length < 2 ^ 63) (after : Bytes) :
    (readString e).Yields (stringEncoding s ++ after) (textOf s) after := by
  rw [stringEncoding, List.append_assoc]
  refine (yields_next.mpr ⟨rfl, length_littleEndian 8 _⟩).bind ?_
  simp only [unsigned_length h, signed_length h, Int.toNat_natCast,
    if_neg (Int.not_lt.mpr (Int.natCast_nonneg s.length))]
  exact (yields_ask.mpr rfl).bind ((yields_next.mpr ⟨rfl, rfl⟩).bind (yields_pure.mpr ⟨rfl, rfl⟩))

/-- The code of a type. -/
theorem yields_code {code : ℤ} (h : wrap .int32 code = code) (after : Bytes) :
    (nextInt .int32 .unreadableMetadata : Reader ℤ).Yields (encode .int32 code ++ after) code after := by
  have hcode := @yields_encode Request OpenError .int32 .unreadableMetadata code after
  rwa [h] at hcode

/-! #### Scalars -/

theorem low_le_wrap {t : IntegerType} (x : Number t) (h : x.value < t.width.limit) :
    wrap t.width x.value = x.value := by
  refine wrap_eq_self ?_ h
  have hlow := x.low_le
  cases t <;> exact le_trans (by decide) hlow

/-- The bits of an unsigned integer are those of the number. -/
theorem wrap_emod {t : IntegerType} (x : Number t) (hlow : t.low = 0) (hhigh : t.high = 2 * t.width.limit) :
    wrap t.width x.value % (2 * t.width.limit) = x.value := by
  have hnonneg := x.low_le
  have hlt := x.lt_high
  rw [hlow] at hnonneg
  rw [hhigh] at hlt
  rw [Int.emod_eq_emod_iff_emod_sub_eq_zero.mpr (Int.emod_eq_zero_of_dvd (dvd_wrap_sub t.width x.value)),
    Int.emod_eq_of_lt hnonneg hlt]

/-- In 64 bits there is room for all but the largest numbers of the type `uint64`. -/
theorem wrap_int64 {t : IntegerType} (x : Number t) (h : t.width ≠ .int64) : wrap .int64 x.value = x.value := by
  have hlow := x.low_le
  have hhigh := x.lt_high
  refine wrap_eq_self ?_ ?_
  · cases t <;> exact le_trans (by decide) hlow
  · cases t
    case uint64 | int64 => exact absurd rfl h
    all_goals exact lt_of_lt_of_le hhigh (by decide)

theorem yields_readInteger {w : Width} {f : ℤ → ℤ} {x y : ℤ} (h : f (wrap w x) = y) (after : Bytes) :
    (readInteger w f).Yields (encode w x ++ after) (.integer y) after :=
  (yields_encode w _ x after).bind (yields_pure.mpr ⟨by rw [h], rfl⟩)

theorem yields_readValue_integer {t : IntegerType} (x : Number t) (after : Bytes) :
    (readValue t.code).Yields (x.encoding ++ after) (.integer (wrap .int64 x.value)) after := by
  cases t
  case uint8 =>
    exact yields_readInteger ((wrap_emod x rfl rfl).trans (wrap_int64 x (by decide)).symm) after
  case uint16 =>
    exact yields_readInteger ((wrap_emod x rfl rfl).trans (wrap_int64 x (by decide)).symm) after
  case uint32 =>
    exact yields_readInteger ((wrap_emod x rfl rfl).trans (wrap_int64 x (by decide)).symm) after
  case int8 =>
    exact yields_readInteger ((low_le_wrap x x.lt_high).trans (wrap_int64 x (by decide)).symm) after
  case int16 =>
    exact yields_readInteger ((low_le_wrap x x.lt_high).trans (wrap_int64 x (by decide)).symm) after
  case int32 =>
    exact yields_readInteger ((low_le_wrap x x.lt_high).trans (wrap_int64 x (by decide)).symm) after
  case uint64 => exact yields_readInteger rfl after
  case int64 => exact yields_readInteger rfl after

theorem unsigned_float32 (bits : UInt32) : unsigned (float32Encoding bits) = bits.toNat := by
  rw [float32Encoding, unsigned_littleEndian]
  exact Nat.mod_eq_of_lt bits.toNat_lt

theorem unsigned_float64 (bits : UInt64) : unsigned (float64Encoding bits) = bits.toNat := by
  rw [float64Encoding, unsigned_littleEndian]
  exact Nat.mod_eq_of_lt bits.toNat_lt

theorem realValue_float32 (bits : UInt32) : realValue (float32Encoding bits) = bits.toNat := by
  rw [realValue, if_neg, unsigned_float32]
  rw [float32Encoding, length_littleEndian]
  decide

theorem narrowed_float64 (bits : UInt64) : Narrowed bits.toNat (realValue (float64Encoding bits)) := by
  have hlength : (float64Encoding bits).length = 8 := length_littleEndian 8 _
  rw [realValue, if_pos hlength, unsigned_float64]
  exact ⟨fun _ => roundsTo_convert (by decide) _, isNaN_convert .single⟩

theorem boolEncoding_eq (b : Bool) : boolEncoding b = encode .int8 (if b then 1 else 0) := by
  cases b <;> rfl

/-! #### Arrays -/

/-- The part of `readArray` behind the type of the elements and their number. -/
def readElements (elementType : ℤ) (declared n : ℕ) : Reader Value :=
  if elementType ∈ [4, 5, 10, 11] then do
    ask (.integers n)
    let w := if elementType ∈ [4, 5] then Width.int32 else Width.int64
    let xs ← times n (nextInt w .unreadableMetadata)
    pure (.integers declared elementType xs)
  else if elementType = 8 then do
    ask (.strings n)
    let xs ← times n (readString .unreadableMetadata)
    pure (.strings declared xs)
  else do
    let xs ← times n (skipValue elementType)
    pure (.skipped declared elementType xs.length)

theorem yields_readArray {α : Type} {elementType : ℤ} {encoding : α → Bytes} {xs : List α} {v : Value}
    (htype : wrap .int32 elementType = elementType) (hlength : xs.length < 2 ^ 63)
    (h : (readElements elementType xs.length xs.length).Yields (xs.flatMap encoding ++ after) v after) :
    readArray.Yields (arrayEncoding elementType encoding xs ++ after) v after := by
  rw [arrayEncoding, List.append_assoc, List.append_assoc]
  refine (yields_code htype _).bind ((yields_next.mpr ⟨rfl, length_littleEndian 8 _⟩).bind ?_)
  simp only [unsigned_length hlength, signed_length hlength, Int.toNat_natCast]
  exact h

/-- The elements of an array that are one value each. -/
theorem exists_times {α β : Type} {x : Reader β} {encoding : α → Bytes} {f : α → β} {xs : List α}
    (h : ∀ a ∈ xs, ∀ after, x.Yields (encoding a ++ after) (f a) after) (after : Bytes) :
    (times xs.length x).Yields (xs.flatMap encoding ++ after) (xs.map f) after := by
  obtain ⟨bs, hbs, hall⟩ := yields_times (R := fun a b => f a = b) (fun a ha after => ⟨f a, h a ha after, rfl⟩) after
  rw [← List.forall₂_map_left_iff, List.forall₂_eq_eq_eq] at hall
  rwa [hall]

theorem yields_readArray_integers {t : IntegerType} {xs : List (Number t)}
    (ht : t.width = .int32 ∨ t.width = .int64) (hlength : xs.length < 2 ^ 63)
    (hsmall : t = .uint32 → ∀ x ∈ xs, x.value < 2 ^ 31) (after : Bytes) :
    readArray.Yields (arrayEncoding t.code Number.encoding xs ++ after)
      (.integers xs.length t.code (xs.map fun x => wrap .int64 x.value)) after := by
  have hcode : wrap .int32 t.code = t.code ∧ t.code ∈ [4, 5, 10, 11] ∧
      (if t.code ∈ [4, 5] then Width.int32 else Width.int64) = t.width := by
    cases t
    case uint8 | int8 | uint16 | int16 => exact absurd ht (by decide)
    all_goals decide
  have hwrap (x : Number t) (hx : x ∈ xs) : wrap t.width x.value = wrap .int64 x.value := by
    rcases ht with hw | hw
    · rw [wrap_int64 x (by rw [hw]; decide), low_le_wrap]
      cases t
      case int32 => exact x.lt_high
      case uint32 => exact hsmall rfl x hx
      all_goals exact absurd hw (by decide)
    · rw [hw]
  refine yields_readArray hcode.1 hlength ?_
  have helements : (times xs.length (nextInt t.width .unreadableMetadata : Reader ℤ)).Yields
      (xs.flatMap Number.encoding ++ after) (xs.map fun x => wrap .int64 x.value) after := by
    refine exists_times (fun x hx after => ?_) after
    rw [← hwrap x hx]
    exact yields_encode t.width _ x.value after
  simp only [readElements, if_pos hcode.2.1, hcode.2.2]
  exact (yields_ask.mpr rfl).bind (helements.bind (yields_pure.mpr ⟨rfl, rfl⟩))

theorem yields_readArray_strings {xs : List Bytes} (hlength : xs.length < 2 ^ 63)
    (hstrings : ∀ s ∈ xs, s.length < 2 ^ 63) (after : Bytes) :
    readArray.Yields (arrayEncoding 8 stringEncoding xs ++ after) (.strings xs.length (xs.map textOf))
      after := by
  have helements := exists_times (fun s hs after =>
    yields_readString .unreadableMetadata (hstrings s hs) after) after
  refine yields_readArray rfl hlength ((yields_ask.mpr rfl).bind (helements.bind (yields_pure.mpr ⟨rfl, rfl⟩)))

/-- Elements of which there is only the number. -/
theorem yields_readArray_skipped {α : Type} {elementType : ℤ} {encoding : α → Bytes} {xs : List α}
    (size : ℕ) (htype : wrap .int32 elementType = elementType) (hkept : elementType ∉ [4, 5, 10, 11])
    (hstring : elementType ≠ 8) (hsize : skipSize elementType = some size)
    (hencoding : ∀ x ∈ xs, (encoding x).length = size) (hlength : xs.length < 2 ^ 63) (after : Bytes) :
    readArray.Yields (arrayEncoding elementType encoding xs ++ after)
      (.skipped xs.length elementType xs.length) after := by
  have helements := exists_times (x := skipValue elementType) (f := fun _ => ()) (fun x hx after => by
    rw [skipValue, if_neg hstring]
    simp only [hsize]
    exact (yields_next.mpr ⟨rfl, hencoding x hx⟩).bind (yields_pure.mpr ⟨rfl, rfl⟩)) after
  refine yields_readArray htype hlength ?_
  rw [readElements, if_neg hkept, if_neg hstring]
  exact helements.bind (yields_pure.mpr ⟨by rw [List.length_map], rfl⟩)

end

/-! ### Entries -/

/-- A value that is read back. -/
theorem yields_readValue {d : Datum} (h : d.InRange) (after : Bytes) :
    ∃ v, (readValue d.valueType).Yields (d.encoding ++ after) v after ∧ d.Kept v := by
  cases d with
  | integer t x => exact ⟨_, yields_readValue_integer x after, rfl⟩
  | float32 bits =>
    exact ⟨_, (yields_next.mpr ⟨rfl, length_littleEndian 4 _⟩).bind (yields_pure.mpr ⟨rfl, rfl⟩), _, rfl,
      realValue_float32 bits⟩
  | float64 bits =>
    exact ⟨_, (yields_next.mpr ⟨rfl, length_littleEndian 8 _⟩).bind (yields_pure.mpr ⟨rfl, rfl⟩), _, rfl,
      narrowed_float64 bits⟩
  | bool b =>
    refine ⟨.logical b, ?_, rfl⟩
    rw [Datum.encoding, boolEncoding_eq]
    exact (yields_encode .int8 _ _ after).bind (yields_pure.mpr ⟨by cases b <;> rfl, rfl⟩)
  | string s =>
    exact ⟨_, (yields_readString .unreadableMetadata h after).bind (yields_pure.mpr ⟨rfl, rfl⟩), rfl⟩
  | integers t xs =>
    by_cases ht : t.width = .int32 ∨ t.width = .int64
    · exact ⟨_, yields_readArray_integers ht h.1 h.2 after, by rw [Datum.Kept, if_pos ht]⟩
    · refine ⟨.skipped xs.length t.code xs.length, ?_, by rw [Datum.Kept, if_neg ht]⟩
      refine yields_readArray_skipped t.width.size ?_ ?_ ?_ ?_
        (fun x _ => length_encode t.width x.value) h.1 after
      all_goals
        cases t
        case uint32 | int32 | uint64 | int64 => exact absurd (by decide) ht
        all_goals decide
  | float32s xs =>
    exact ⟨_, yields_readArray_skipped 4 rfl (by decide) (by decide) rfl
      (fun _ _ => length_littleEndian 4 _) h after, rfl⟩
  | float64s xs =>
    exact ⟨_, yields_readArray_skipped 8 rfl (by decide) (by decide) rfl
      (fun _ _ => length_littleEndian 8 _) h after, rfl⟩
  | bools xs =>
    exact ⟨_, yields_readArray_skipped 1 rfl (by decide) (by decide) rfl (fun _ _ => rfl) h after,
      rfl⟩
  | strings xs => exact ⟨_, yields_readArray_strings h.1 h.2 after, rfl⟩

theorem wrap_valueType (d : Datum) : wrap .int32 d.valueType = d.valueType := by
  cases d with
  | integer t x => cases t <;> rfl
  | _ => rfl

/-- An entry that has been read. -/
structure Entry.Kept (entry : Entry) (m : Meta) : Prop where
  key : m.key = textOf entry.key
  valueType : m.valueType = entry.datum.valueType
  value : entry.datum.Kept m.value

/-- The lengths of an entry fit. -/
structure Entry.InRange (entry : Entry) : Prop where
  key : entry.key.length < 2 ^ 63
  datum : entry.datum.InRange

theorem yields_readMeta {entry : Entry} (h : entry.InRange) (after : Bytes) :
    ∃ m, readMeta.Yields (entry.encoding ++ after) m after ∧ entry.Kept m := by
  obtain ⟨v, hv, hkept⟩ := yields_readValue h.datum after
  refine ⟨⟨textOf entry.key, entry.datum.valueType, v⟩, ?_, rfl, rfl, hkept⟩
  rw [Entry.encoding, List.append_assoc, List.append_assoc]
  exact (yields_readString .unreadableMetadata h.key _).bind
    ((yields_code (wrap_valueType _) _).bind (hv.bind (yields_pure.mpr ⟨rfl, rfl⟩)))

/-- Of the largest number of the type `uint64` the bits are kept, which are those of -1, of an array of the
type `int8` the number of its elements, and of 0.1 the nearest number of single precision. -/
theorem kept_otherwise :
    (∃ x : Number .uint64, x.value = 2 ^ 64 - 1 ∧ (readValue 10).Yields x.encoding (.integer (-1)) []) ∧
    (∃ x : Number .int8, x.value = 5 ∧
      (readValue 9).Yields (arrayEncoding 1 Number.encoding [x]) (.skipped 1 1 1) []) ∧
    ∃ s, (readValue 12).Yields (float64Encoding 0x3fb999999999999a) (.real s) [] ∧ realValue s = 0x3dcccccd ∧
      Format.single.value 0x3dcccccd ≠ Format.double.value 0x3fb999999999999a := by
  refine ⟨⟨⟨2 ^ 64 - 1, by decide, by decide⟩, rfl, ?_⟩, ⟨⟨5, by decide, by decide⟩, rfl, ?_⟩, _, rfl, ?_, ?_⟩
  · rfl
  · rfl
  · decide +kernel
  · decide +kernel

/-- Metadata that is written is read back, value by value and entry by entry, and what is behind it is left. -/
theorem metadata_encoding :
    (∀ (d : Datum) (after : Bytes), d.InRange →
      ∃ v, (readValue d.valueType).Yields (d.encoding ++ after) v after ∧ d.Kept v) ∧
    ∀ (entries : List Entry) (after : Bytes), (∀ entry ∈ entries, entry.InRange) →
      ∃ ms, (times entries.length readMeta).Yields (entries.flatMap Entry.encoding ++ after) ms after ∧
        List.Forall₂ Entry.Kept entries ms :=
  ⟨fun _ after h => yields_readValue h after, fun _ after h =>
    yields_times (fun entry hentry => yields_readMeta (h entry hentry)) after⟩

end Gguf

end FortAI
