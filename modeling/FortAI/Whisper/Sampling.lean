import Mathlib.Data.Int.Notation
import Mathlib.Data.List.Induction

/-!
# Sampling of the Whisper runtime

The scores of the special tokens are lowered, but that of the end of the text, and a token is taken: the first
one of the largest score, or one drawn from the weights of the scores.

* `suppressSpecialTokens`, `nativeArgmax`, `nativeSample` : the procedures of the runtime.
* `nativeArgmax_suppressed` : without temperature a special token is never taken.
-/

namespace FortAI

namespace Whisper

/-- The operations on single precision numbers `E` and double precision numbers `D`. -/
class Numbers (E : Type) (D : outParam Type) where
  zero : E
  /-- `-huge(1.0_real32)` -/
  lowest : E
  lt : E → E → Bool
  le : E → E → Bool
  max : E → E → E
  /-- Single to double precision. -/
  widen : E → D
  zeroD : D
  /-- `-huge(1.0_real64)` -/
  lowestD : D
  maxD : D → D → D
  addD : D → D → D
  subD : D → D → D
  mulD : D → D → D
  divD : D → D → D
  expD : D → D
  leD : D → D → Bool
  /-- `real(bits, real64) / 9223372036854775807.0_real64` -/
  unitD : ℕ → D
  not_lt_self : ∀ a, lt a a = false
  lt_chain : ∀ {a b c}, lt a b = true → lt b c = true → lt a c = true

open Numbers

variable {E D : Type} [Numbers E D]

/-! ### The procedures -/

/-- `whisper_suppress_special_tokens` -/
def suppressSpecialTokens (logits : List E) (nVocab : ℕ) : List E :=
  let firstSpecial := 50258
  let lastToken := Nat.min logits.length nVocab
  if firstSpecial > lastToken then logits
  else
    -- the first special token gets its score back
    logits.mapIdx fun i x => if firstSpecial < i + 1 ∧ i + 1 ≤ lastToken then lowest else x

/-- A turn of `whisper_native_argmax`, on the largest score and its token. -/
def argmaxTurn (best : E × ℤ) (logit : E × ℕ) : E × ℤ := if lt best.1 logit.1 then (logit.1, logit.2) else best

/-- `whisper_native_argmax` -/
def nativeArgmax (logits : List E) : ℤ := (logits.zipIdx.foldl argmaxTurn (lowest, -1)).2

/-- `whisper_native_random`: the bits of the draw, and the state behind it. -/
def nativeRandom (state : BitVec 64) : ℕ × BitVec 64 :=
  let bits := state ^^^ (state <<< 13)
  let bits := bits ^^^ (bits >>> 7)
  let bits := bits ^^^ (bits <<< 17)
  ((bits &&& 0x7fffffffffffffff#64).toNat, bits)

/-- The loop over the weights: the first token whose cumulated weight reaches the draw, else the last one. -/
def drawToken (draw : D) (le : D → D → Bool) (add : D → D → D) : D → List D → ℕ → ℤ
  | _, [], i => (i : ℤ) - 1
  | cumulative, probability :: probabilities, i =>
    if le draw (add cumulative probability) then i
    else drawToken draw le add (add cumulative probability) probabilities (i + 1)

/-- `whisper_native_sample` -/
def nativeSample (logits : List E) (temperature : E) (state : BitVec 64) : ℤ × BitVec 64 :=
  if le temperature zero then (nativeArgmax logits, state)
  else
    let maximum := logits.foldl (fun m x => maxD E m (widen x)) (lowestD E)
    let probabilities := logits.map fun x => expD E (divD E (subD E (widen x) maximum) (widen temperature))
    let total := probabilities.foldl (addD E) (zeroD E)
    if leD E total (zeroD E) then (nativeArgmax logits, state)
    else
      let (bits, state) := nativeRandom state
      (drawToken (mulD E (unitD E bits) total) (leD E) (addD E) (zeroD E) probabilities 0, state)

/-! ### The largest score -/

/-- What a search through scores has found: no score is larger, and it is the first of its kind, or still what the
search started with. -/
structure Largest (scores : List E) (best : E × ℤ) : Prop where
  not_lt : ∀ y ∈ scores, lt best.1 y = false
  found : best = (lowest, -1) ∨
    ∃ i : ℕ, best.2 = i ∧ scores[i]? = some best.1 ∧ lt lowest best.1 = true ∧ ∀ j < i, scores[j]? ≠ some best.1

theorem not_lt_of_chain {a b c : E} (h : lt a b = true) (h' : lt a c = false) : lt b c = false :=
  Bool.eq_false_iff.mpr fun hbc => Bool.false_ne_true (h'.symm.trans (lt_chain h hbc))

theorem Largest.turn {scores : List E} {best : E × ℤ} (h : Largest scores best) (x : E) :
    Largest (scores ++ [x]) (argmaxTurn best (x, scores.length)) := by
  rw [argmaxTurn]
  cases hlt : lt best.1 x with
  | false =>
    -- the best so far stays, with its number and all that is in front of it
    refine ⟨fun y hy => ?_, h.found.imp_right fun ⟨i, hi, hget, hlow, hfirst⟩ => ?_⟩
    · rcases List.mem_append.mp hy with hy | hy
      · exact h.not_lt y hy
      · rw [List.mem_singleton.mp hy]
        exact hlt
    · have hi' := (List.getElem?_eq_some_iff.mp hget).1
      refine ⟨i, hi, by simpa [List.getElem?_append_left hi'] using hget, hlow, fun j hj => ?_⟩
      simpa [List.getElem?_append_left (Nat.lt_trans hj hi')] using hfirst j hj
  | true =>
    have hlow : lt lowest x = true := by
      rcases h.found with hstart | ⟨-, -, -, hlow, -⟩
      · rwa [hstart] at hlt
      · exact lt_chain hlow hlt
    refine ⟨fun y hy => ?_, .inr ⟨scores.length, rfl, by simp, hlow, fun j hj hget => ?_⟩⟩
    · rcases List.mem_append.mp hy with hy | hy
      · exact not_lt_of_chain hlt (h.not_lt y hy)
      · rw [List.mem_singleton.mp hy]
        exact not_lt_self x
    · -- the score was larger than the ones before
      rw [List.getElem?_append_left hj] at hget
      exact Bool.false_ne_true ((h.not_lt x (List.mem_of_getElem? hget)).symm.trans hlt)

theorem largest_argmax (logits : List E) : Largest logits (logits.zipIdx.foldl argmaxTurn (lowest, -1)) := by
  induction logits using List.reverseRecOn with
  | nil => exact ⟨by simp, .inl rfl⟩
  | append_singleton logits x ih =>
    rw [List.zipIdx_append, List.foldl_append, Nat.zero_add]
    exact ih.turn x

/-- The first largest score, above the lowest number. -/
theorem nativeArgmax_cases (logits : List E) :
    (nativeArgmax logits = -1 ∧ ∀ y ∈ logits, lt lowest y = false) ∨
      ∃ (i : ℕ) (x : E), nativeArgmax logits = i ∧ logits[i]? = some x ∧ lt lowest x = true ∧
        (∀ y ∈ logits, lt x y = false) ∧ ∀ j < i, logits[j]? ≠ some x := by
  have h := largest_argmax logits
  rcases h.found with hstart | ⟨i, hi, hget, hlow, hfirst⟩
  · refine .inl ⟨congrArg Prod.snd hstart, ?_⟩
    rw [hstart] at h
    exact h.not_lt
  · exact .inr ⟨i, _, hi, hget, hlow, h.not_lt, hfirst⟩

/-- A score that is left, or the lowest number in place of a special token's. -/
theorem getElem?_suppress {logits : List E} {nVocab i : ℕ} (hlength : logits.length ≤ nVocab) :
    (suppressSpecialTokens logits nVocab)[i]? =
      if i ≤ 50257 then logits[i]? else logits[i]?.map fun _ => lowest := by
  have hlast : Nat.min logits.length nVocab = logits.length := Nat.min_eq_left hlength
  rw [suppressSpecialTokens, hlast]
  by_cases hshort : 50258 > logits.length
  · rw [if_pos hshort]
    split_ifs with hi
    · rfl
    · rw [List.getElem?_eq_none (by omega), Option.map_none]
  · rw [if_neg hshort, List.getElem?_mapIdx]
    cases hget : logits[i]? with
    | none => simp
    | some x =>
      have hi := (List.getElem?_eq_some_iff.mp hget).1
      simp only [Option.map_some]
      split_ifs <;> first | rfl | omega

/-- **Without temperature a special token is never taken**, but the end of the text. -/
theorem nativeArgmax_suppressed {logits : List E} {nVocab : ℕ} (hlength : logits.length ≤ nVocab) :
    nativeArgmax (suppressSpecialTokens logits nVocab) ≤ 50257 := by
  rcases nativeArgmax_cases (suppressSpecialTokens logits nVocab) with ⟨hnone, -⟩ | ⟨i, x, hi, hget, hlow, -⟩
  · rw [hnone]
    decide
  · rw [hi]
    by_contra hspecial
    rw [getElem?_suppress hlength, if_neg (by omega)] at hget
    obtain ⟨-, -, rfl⟩ := Option.map_eq_some_iff.mp hget
    rw [not_lt_self] at hlow
    exact Bool.false_ne_true hlow

end Whisper

end FortAI
