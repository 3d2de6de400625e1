import FortAI.Machine.CString

/-!
# JSON texts

The texts of RFC 8259 as syntax trees that keep everything that is written: the blanks, the way a
string is escaped, the digits of a number.  A text is well formed when it is the rendering of a
tree.  The grammar is that of the encoded text: a byte from 128 on is part of an encoded character
and stands for itself.

* `Json.render` : the text of a tree.
* `Text.decode` : the string that a quoted text stands for; an unpaired surrogate is encoded as it
  stands.
* `WellFormed`, `IsObject` : the byte strings that are texts.
-/

namespace FortAI

open CString

/-! ### Blanks and numbers -/

/-- `ws` -/
def isGap (b : Byte) : Bool := b = 32 || b = 9 || b = 10 || b = 13

/-- Any number of blanks. -/
structure Gap where
  bytes : Bytes
  blank : bytes.all isGap = true
  deriving DecidableEq

instance : Inhabited Gap := ⟨⟨[], rfl⟩⟩

/-- At least one digit. -/
structure Digits where
  bytes : Bytes
  ne_nil : bytes ≠ []
  digit : bytes.all isDigit = true
  deriving DecidableEq

/-- `number`: the sign, the integer without leading zeros, fraction and exponent. -/
structure Number where
  minus : Bool
  int : Digits
  fraction : Option Digits
  exponent : Option (Byte × Bytes × Digits)
  no_zero : int.bytes.head? = some 48 → int.bytes = [48]
  mark : ∀ e ∈ exponent, (e.1 = 101 ∨ e.1 = 69) ∧ (e.2.1 = [] ∨ e.2.1 = [43] ∨ e.2.1 = [45])
  deriving DecidableEq

namespace Number

def render (n : Number) : Bytes :=
  (if n.minus then [45] else []) ++ n.int.bytes ++
    (n.fraction.elim [] fun d => 46 :: d.bytes) ++
    (n.exponent.elim [] fun e => e.1 :: (e.2.1 ++ e.2.2.bytes))

end Number

/-! ### Strings -/

/-- `unescaped` -/
def isPlain (b : Byte) : Bool := 32 ≤ b && b ≠ 34 && b ≠ 92

/-- The letters behind a backslash, with what they stand for. -/
def escapes : List (Byte × Byte) :=
  [(34, 34), (92, 92), (47, 47), (98, 8), (102, 12), (110, 10), (114, 13), (116, 9)]

/-- The value of a hexadecimal digit. -/
def hexValue (b : Byte) : Option ℕ :=
  if 48 ≤ b && b ≤ 57 then some (b.toNat - 48)
  else if 97 ≤ b && b ≤ 102 then some (b.toNat - 87)
  else if 65 ≤ b && b ≤ 70 then some (b.toNat - 55)
  else none

/-- A hexadecimal digit. -/
structure Hex where
  byte : Byte
  value : ℕ
  hex : hexValue byte = some value
  deriving DecidableEq

/-- One `char` of a string. -/
inductive Piece where
  | plain (b : Byte) (h : isPlain b = true)
  | escape (letter meaning : Byte) (h : (letter, meaning) ∈ escapes)
  | unicode (a b c d : Hex)
  deriving DecidableEq

/-- The UTF-8 encoding of a code point. -/
def utf8 (code : ℕ) : Bytes :=
  let tail (n : ℕ) : Byte := UInt8.ofNat (128 + n % 64)
  if code ≤ 127 then [UInt8.ofNat code]
  else if code ≤ 2047 then [UInt8.ofNat (192 + code / 64), tail code]
  else if code ≤ 65535 then [UInt8.ofNat (224 + code / 4096), tail (code / 64), tail code]
  else [UInt8.ofNat (240 + code / 262144), tail (code / 4096), tail (code / 64), tail code]

/-- The code unit of `\u` and four digits. -/
def codeUnit (a b c d : Hex) : ℕ := 16 * (16 * (16 * a.value + b.value) + c.value) + d.value

def isHigh (code : ℕ) : Bool := 55296 ≤ code && code ≤ 56319
def isLow (code : ℕ) : Bool := 56320 ≤ code && code ≤ 57343

/-- The code point of a surrogate pair. -/
def pair (high low : ℕ) : ℕ := 65536 + (high - 55296) * 1024 + (low - 56320)

/-- What stands between the quotes. -/
abbrev Text := List Piece

def Piece.render : Piece → Bytes
  | .plain b _ => [b]
  | .escape letter _ _ => [92, letter]
  | .unicode a b c d => [92, 117, a.byte, b.byte, c.byte, d.byte]

namespace Text

def raw (text : Text) : Bytes := text.flatMap Piece.render

def render (text : Text) : Bytes := 34 :: (raw text ++ [34])

/-- The string a text stands for. -/
def decode : Text → Bytes
  | [] => []
  | .plain b _ :: rest => b :: decode rest
  | .escape _ meaning _ :: rest => meaning :: decode rest
  | .unicode a b c d :: .unicode e f g h :: rest =>
    if isHigh (codeUnit a b c d) && isLow (codeUnit e f g h) then
      utf8 (pair (codeUnit a b c d) (codeUnit e f g h)) ++ decode rest
    else utf8 (codeUnit a b c d) ++ decode (.unicode e f g h :: rest)
  | .unicode a b c d :: rest => utf8 (codeUnit a b c d) ++ decode rest

end Text

/-! ### Texts -/

inductive Kind where
  | value | elements | members

inductive Literal where
  | null | true | false
  deriving DecidableEq

def Literal.render : Literal → Bytes
  | .null => ascii "null"
  | .true => ascii "true"
  | .false => ascii "false"

/-- A value, or what stands between the brackets of an array or an object. -/
inductive Json : Kind → Type where
  | literal (l : Literal) : Json .value
  | number (n : Number) : Json .value
  | string (s : Text) : Json .value
  | array (gap : Gap) (elements : Json .elements) : Json .value
  | object (gap : Gap) (members : Json .members) : Json .value
  | noElement : Json .elements
  | element (before : Gap) (v : Json .value) (after : Gap) (rest : Json .elements) :
      Json .elements
  | noMember : Json .members
  | member (before : Gap) (name : Text) (beforeColon afterColon : Gap) (v : Json .value)
      (after : Gap) (rest : Json .members) : Json .members

namespace Json

/-- The comma before what follows. -/
def comma : {k : Kind} → Json k → Bytes
  | _, .element .. => [44]
  | _, .member .. => [44]
  | _, _ => []

/-- The text of a tree. -/
def render : {k : Kind} → Json k → Bytes
  | _, .literal l => l.render
  | _, .number n => n.render
  | _, .string s => s.render
  | _, .array gap elements => 91 :: (gap.bytes ++ (elements.render ++ [93]))
  | _, .object gap members => 123 :: (gap.bytes ++ (members.render ++ [125]))
  | _, .noElement => []
  | _, .element before v after rest =>
    before.bytes ++ (v.render ++ (after.bytes ++ (rest.comma ++ rest.render)))
  | _, .noMember => []
  | _, .member before name beforeColon afterColon v after rest =>
    before.bytes ++ (name.render ++ (beforeColon.bytes ++ 58 :: (afterColon.bytes ++
      (v.render ++ (after.bytes ++ (rest.comma ++ rest.render))))))

/-- The names of the members with their values, in the order in which they are written. -/
def memberList : {k : Kind} → Json k → List (Text × Json .value)
  | _, .member _ name _ _ v _ rest => (name, v) :: rest.memberList
  | _, _ => []

def elementList : {k : Kind} → Json k → List (Json .value)
  | _, .element _ v _ rest => v :: rest.elementList
  | _, _ => []

end Json

/-- A JSON text: a value, and blanks around it. -/
def WellFormed (text : Bytes) : Prop :=
  ∃ (before : Gap) (v : Json .value) (after : Gap),
    text = before.bytes ++ (v.render ++ after.bytes)

/-- The text of an object. -/
def IsObject (text : Bytes) : Prop :=
  ∃ (before gap : Gap) (members : Json .members) (after : Gap),
    text = before.bytes ++ ((Json.object gap members).render ++ after.bytes)

end FortAI
