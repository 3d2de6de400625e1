import Mathlib.Data.Int.Notation
import Mathlib.Data.List.Basic

/-!
# The random generator

The MT19937 generator of `fortai_mt19937`.  Its words are 64-bit integers holding 32-bit values,
so they are natural numbers here.
-/

namespace FortAI

/-- `mt19937_t`: 624 words and the position (from 1) of the next one to use. -/
structure Mt19937 where
  state : List ℕ
  position : ℕ

namespace Mt19937

def mask32 : ℕ := 0xffffffff

/-- The words after `previous`, which has index `i - 1` (from 1). -/
def seedWords (previous : ℕ) : ℕ → ℕ → List ℕ
  | 0, _ => []
  | n + 1, i =>
    let word := (1812433253 * (previous ^^^ (previous >>> 30)) + (i - 1)) &&& mask32
    word :: seedWords word n (i + 1)

/-- `mt19937_seed`: `iand` with `mask32` keeps the low 32 bits of the seed. -/
def seed (value : ℤ) : Mt19937 :=
  let first := (value % 0x100000000).toNat
  ⟨first :: seedWords first 623 2, 625⟩

/-- The word at index `i` (from 1). -/
def word (state : List ℕ) (i : ℕ) : ℕ := state.getD (i - 1) 0

/-- The update of the word at index `i` when all words are used up. -/
def twist (state : List ℕ) (i : ℕ) : List ℕ :=
  let next := if i + 1 > 624 then 1 else i + 1
  let offset := if i + 397 > 624 then i + 397 - 624 else i + 397
  let value := (word state i &&& 0x80000000) ||| (word state next &&& 0x7fffffff)
  let mixed := word state offset ^^^ (value >>> 1)
  let mixed := if value.testBit 0 then mixed ^^^ 0x9908b0df else mixed
  state.set (i - 1) (mixed &&& mask32)

/-- All words are replaced once the last one has been used. -/
def refill (generator : Mt19937) : Mt19937 :=
  if generator.position > 624 then ⟨(List.range' 1 624).foldl twist generator.state, 1⟩
  else generator

/-- `mt19937_uint32`. -/
def uint32 (generator : Mt19937) : ℕ × Mt19937 :=
  let generator := generator.refill
  let value := word generator.state generator.position
  let value := value ^^^ (value >>> 11)
  let value := value ^^^ ((value <<< 7) &&& 0x9d2c5680)
  let value := value ^^^ ((value <<< 15) &&& 0xefc60000)
  let value := value ^^^ (value >>> 18)
  (value &&& mask32, { generator with position := generator.position + 1 })

/-- The two words `mt19937_uniform_real64` consumes, low word first. -/
def uniformWords (generator : Mt19937) : ℕ × ℕ × Mt19937 :=
  let (low, generator) := generator.uint32
  let (high, generator) := generator.uint32
  (low, high, generator)

end Mt19937

end FortAI
