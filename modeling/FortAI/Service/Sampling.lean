import FortAI.Service.Mt19937
import Mathlib.Data.Int.Notation

/-!
# Sampling

The samplers of `fortai_native_service`: repetition penalties, the selection of the best
candidates with a heap, and the draw of one token after top-p, min-p and temperature.

Floating-point arithmetic enters through `Arithmetic`, the operations the source uses on `real32`
and `real64` numbers; nothing here depends on what they compute.

* `sampleLogits`, `sampleTopkCandidates`, `greedyPenalized` : the three ways to pick a token.
* `sampleTopkCandidates_eq_sampleLogits` : drawing from the candidates the device selected is
  drawing from the logits.
-/

namespace FortAI

/-- A token id; `-1` stands for "none". -/
abbrev Token := ℤ

/-- The operations on single precision numbers `R` and double precision numbers `D`. -/
class Arithmetic (R : Type) (D : outParam Type) where
  zero : R
  one : R
  add : R → R → R
  sub : R → R → R
  mul : R → R → R
  div : R → R → R
  exp : R → R
  log : R → R
  /-- A count converted to single precision. -/
  ofCount : ℕ → R
  lt : R → R → Bool
  le : R → R → Bool
  eq : R → R → Bool
  /-- `finite_real32`: the exponent bits are not all set. -/
  finite : R → Bool
  zeroD : D
  addD : D → D → D
  mulD : D → D → D
  leD : D → D → Bool
  /-- Single to double precision. -/
  widen : R → D
  /-- `(low + high * 2^32) / 2^64` in double precision, from two generator words. -/
  unit64 : ℕ → ℕ → D
  /-- Equal numbers are not ordered. -/
  not_lt_of_eq {a b : R} : eq a b = true → lt b a = false

open Arithmetic

variable {R D : Type} [Arithmetic R D]

/-- `mt19937_uniform_real64`. -/
def Mt19937.uniformReal64 (R : Type) {D : Type} [Arithmetic R D] (generator : Mt19937) :
    D × Mt19937 :=
  let (low, high, generator) := generator.uniformWords
  (unit64 R low high, generator)

/-- `sampling_options_t`. -/
structure SamplingOptions (R : Type) where
  topK : ℤ
  topP : R
  minP : R
  repeatPenalty : R
  presencePenalty : R
  frequencyPenalty : R
  repeatLastN : ℤ

def validSamplingOptions (options : SamplingOptions R) : Bool :=
  !(decide (options.topK < 0) || decide (options.repeatLastN < -1)) &&
    finite options.topP && finite options.minP && finite options.repeatPenalty &&
    finite options.presencePenalty && finite options.frequencyPenalty &&
    !(le options.topP zero || lt one options.topP) &&
    !(lt options.minP zero || lt one options.minP) && !le options.repeatPenalty zero

def samplingPenaltiesActive (options : SamplingOptions R) : Bool :=
  options.repeatLastN != 0 &&
    (!eq options.repeatPenalty one || !eq options.presencePenalty zero ||
      !eq options.frequencyPenalty zero)

/-! ### Penalties -/

/-- How often each token of the vocabulary occurs in `window`. -/
def countTokens (size : ℕ) (window : List Token) : List ℕ :=
  window.foldl
    (fun counts (t : Token) =>
      if 1 ≤ t + 1 ∧ t + 1 ≤ size then counts.modify t.toNat (· + 1) else counts)
    (List.replicate size 0)

/-- The penalised value of a token that occurs `count` times in the window. -/
def penalise (options : SamplingOptions R) (value : R) (count : ℕ) : R :=
  if count = 0 then value
  else
    let value :=
      if eq options.repeatPenalty one then value
      else if lt zero value then div value options.repeatPenalty
      else mul value options.repeatPenalty
    sub (sub value options.presencePenalty) (mul options.frequencyPenalty (ofCount count))

/-- The entries of the history that count for the penalties. -/
def penaltyWindow (history : List Token) (historyCount : ℕ) (repeatLastN : ℤ) : List Token :=
  let first := if repeatLastN < 0 then 1 else max 1 (historyCount - repeatLastN + 1)
  (history.take historyCount).drop (first - 1).toNat

def applySamplingPenalties (logits : List R) (history : List Token) (historyCount : ℕ)
    (options : SamplingOptions R) : List R :=
  if options.repeatLastN = 0 ∨ historyCount = 0 then logits
  else
    List.zipWith (penalise options) logits
      (countTokens logits.length (penaltyWindow history historyCount options.repeatLastN))

/-- The logits a token is picked from. -/
def penalisedLogits (logits : List R) (history : List Token) (historyCount : ℕ)
    (options : SamplingOptions R) : List R :=
  if samplingPenaltiesActive options then
    applySamplingPenalties logits history historyCount options
  else logits

/-! ### The largest logit -/

/-- The index of the first largest element, given the best one among those before index `i`. -/
def maxlocFrom (best : R) (bestIndex : ℕ) : ℕ → List R → ℕ
  | _, [] => bestIndex
  | i, v :: vs =>
    if lt best v then maxlocFrom v i (i + 1) vs else maxlocFrom best bestIndex (i + 1) vs

/-- `maxloc(values, dim=1)`: the index, from 1, of the first largest element, 0 if there is none. -/
def maxloc : List R → ℕ
  | [] => 0
  | v :: vs => maxlocFrom v 1 2 vs

/-- `int(maxloc(values, dim=1) - 1, int64)`. -/
def argmax (values : List R) : Token := (maxloc values : ℤ) - 1

def greedyPenalized (logits : List R) (history : List Token) (historyCount : ℕ)
    (options : SamplingOptions R) : Token :=
  argmax (penalisedLogits logits history historyCount options)

/-! ### The best candidates -/

/-- A candidate: its logit and its index from 1. -/
abbrev Candidate (R : Type) := R × ℕ

def comesBefore (left right : Candidate R) : Bool :=
  if eq left.1 right.1 then decide (left.2 < right.2) else lt right.1 left.1

def comesBeforeAscending (left right : Candidate R) : Bool :=
  if eq left.1 right.1 then decide (left.2 < right.2) else lt left.1 right.1

/-- The candidate in position `i` (from 1). -/
def candidateAt (heap : List (Candidate R)) (i : ℕ) : Candidate R := heap.getD (i - 1) (zero, 1)

/-- Move `item` down from the hole at `parent` while a child precedes it in the order `before`.
The hole at least doubles its position with every level, so `fuel = count` is enough. -/
def siftDown (before : Candidate R → Candidate R → Bool) (count : ℕ) (item : Candidate R) :
    ℕ → List (Candidate R) → ℕ → List (Candidate R)
  | 0, heap, parent => heap.set (parent - 1) item
  | fuel + 1, heap, parent =>
    let child := 2 * parent
    if child > count then heap.set (parent - 1) item
    else
      let child :=
        if child + 1 ≤ count && before (candidateAt heap (child + 1)) (candidateAt heap child)
        then child + 1 else child
      if !before (candidateAt heap child) item then heap.set (parent - 1) item
      else siftDown before count item fuel (heap.set (parent - 1) (candidateAt heap child)) child

def siftMinHeap (heap : List (Candidate R)) (count root : ℕ) : List (Candidate R) :=
  siftDown comesBeforeAscending count (candidateAt heap root) count heap root

def siftMaxHeap (heap : List (Candidate R)) (count root : ℕ) : List (Candidate R) :=
  siftDown comesBefore count (candidateAt heap root) count heap root

/-- The largest remaining candidate goes to the end of the heap's first `i` positions. -/
def extractLast (heap : List (Candidate R)) (i : ℕ) : List (Candidate R) :=
  let swapped :=
    (heap.set 0 (candidateAt heap i)).set (i - 1) (candidateAt heap 1)
  siftMaxHeap swapped (i - 1) 1

def sortDescending (heap : List (Candidate R)) (count : ℕ) : List (Candidate R) :=
  let heap := (List.range' 1 (count / 2)).reverse.foldl (fun h i => siftMaxHeap h count i) heap
  let heap := (List.range' 2 (count - 1)).reverse.foldl extractLast heap
  heap.reverse

/-- The first `count` elements of `values` in the order `comesBefore`, with their indices. -/
def topCandidates (values : List R) (count : ℕ) : List (Candidate R) :=
  let indexed := values.zipIdx 1
  let heap := indexed.take count
  if count = 0 then []
  else
    let heap := (List.range' 1 (count / 2)).reverse.foldl (fun h i => siftMinHeap h count i) heap
    let heap := (indexed.drop count).foldl
      (fun h item =>
        if comesBefore item (candidateAt h 1) then siftMinHeap (h.set 0 item) count 1 else h)
      heap
    sortDescending heap count

/-! ### The draw -/

/-- The number of candidates whose cumulative probability first reaches `topP`. -/
def nucleusCount (topP total : R) : R → ℕ → List R → ℕ
  | _, _, [] => 1
  | cumulative, i, weight :: weights =>
    let cumulative := add cumulative (div weight total)
    if le topP cumulative then i else nucleusCount topP total cumulative (i + 1) weights

/-- The number of leading candidates, at most `selected`, not below `minimum`; `values` are the
candidates from index `i` on. -/
def minPCount (minimum : R) (selected : ℕ) : ℕ → List R → ℕ
  | _, [] => selected
  | i, value :: values =>
    if selected < i then selected
    else if lt value minimum then i - 1
    else minPCount minimum selected (i + 1) values

/-- How many of the candidates with the given logits stay after top-p and min-p. -/
def selectedCount (options : SamplingOptions R) (values : List R) : ℕ :=
  let maximum := values.getD 0 zero
  let selected :=
    if lt options.topP one then
      let weights := values.map fun v => exp (sub v maximum)
      nucleusCount options.topP (weights.foldl add zero) zero 1 weights
    else values.length
  if lt zero options.minP then
    minPCount (add maximum (log options.minP)) selected 2 values.tail
  else selected

/-- The position (from 0) of the first weight at which the running sum reaches `target`. -/
def drawFrom (target : D) : D → ℕ → List R → Option ℕ
  | _, _, [] => none
  | sum, i, weight :: weights =>
    let sum := addD R sum (widen weight)
    if leD R target sum then some i else drawFrom target sum (i + 1) weights

/-- The position (from 0) of the candidate drawn.  Both samplers run these statements on their own
copy of the candidates' logits. -/
def drawCandidate (options : SamplingOptions R) (temperature : R) (values : List R)
    (generator : Mt19937) : ℕ × Mt19937 :=
  let scaled := (values.take (selectedCount options values)).map fun v => div v temperature
  let maximum := scaled.getD 0 zero
  let weights := scaled.map fun v => exp (sub v maximum)
  let sum := weights.foldl (fun s w => addD R s (widen w)) (zeroD R)
  let (uniform, generator) := generator.uniformReal64 R
  ((drawFrom (mulD R sum uniform) (zeroD R) 0 weights).getD 0, generator)

/-- The number of candidates `sample_logits` asks for. -/
def candidateCount (vocabularySize : ℕ) (options : SamplingOptions R) : ℕ :=
  if options.topK > 0 then min vocabularySize options.topK.toNat else vocabularySize

def sampleLogits (logits : List R) (temperature : R) (generator : Mt19937) (history : List Token)
    (historyCount : ℕ) (options : SamplingOptions R) : Token × Mt19937 :=
  let candidates := topCandidates (penalisedLogits logits history historyCount options)
    (candidateCount logits.length options)
  let (i, generator) := drawCandidate options temperature (candidates.map Prod.fst) generator
  (((candidates.map Prod.snd).getD i 1 : ℤ) - 1, generator)

/-- The rows of `candidate_indices` (from 0) and `candidate_values` for one verification row. -/
abbrev TopkRow (R : Type) := List (Token × R)

/-- `workspaceSize` is the size of the caller's scratch array, the vocabulary size. -/
def sampleTopkCandidates (row : TopkRow R) (temperature : R) (generator : Mt19937)
    (options : SamplingOptions R) (workspaceSize : ℕ) : Token × Mt19937 :=
  let row := row.take workspaceSize
  let (i, generator) := drawCandidate options temperature (row.map Prod.snd) generator
  ((row.map Prod.fst).getD i 0, generator)

/-- `row` lists the best `topK` candidates `top_candidates` returns for `logits`, with their ids
from 0; the entries beyond the vocabulary size are arbitrary. -/
def IsTopkRow (topK : ℕ) (logits : List R) (row : TopkRow R) : Prop :=
  row.take logits.length =
    (topCandidates logits (min logits.length topK)).map fun c => ((c.2 : ℤ) - 1, c.1)

theorem penalisedLogits_of_inactive {options : SamplingOptions R}
    (h : samplingPenaltiesActive options = false) (logits : List R) (history : List Token)
    (historyCount : ℕ) : penalisedLogits logits history historyCount options = logits := by
  simp [penalisedLogits, h]

/-- Drawing from the candidates the device selected is drawing from the logits. -/
theorem sampleTopkCandidates_eq_sampleLogits {options : SamplingOptions R} {logits : List R}
    {row : TopkRow R} (h : samplingPenaltiesActive options = false) (htop : 0 < options.topK)
    (hrow : IsTopkRow options.topK.toNat logits row) (temperature : R) (generator : Mt19937)
    (history : List Token) (historyCount : ℕ) :
    sampleTopkCandidates row temperature generator options logits.length =
      sampleLogits logits temperature generator history historyCount options := by
  have hcount : candidateCount logits.length options = min logits.length options.topK.toNat := by
    simp [candidateCount, htop]
  unfold IsTopkRow at hrow
  simp only [sampleTopkCandidates, sampleLogits, penalisedLogits_of_inactive h, hcount, hrow,
    List.map_map, Function.comp_def]
  -- the default of both look-ups is the first id of the vocabulary
  congr 1
  simp only [List.getD_eq_getElem?_getD, List.getElem?_map]
  generalize (drawCandidate options temperature _ generator).1 = i
  cases (topCandidates logits (min logits.length options.topK.toNat))[i]? <;> simp

/-! ### Picked tokens are token ids -/

theorem countTokens_length (size : ℕ) (window : List Token) :
    (countTokens size window).length = size := by
  unfold countTokens
  refine List.foldlRecOn (motive := fun counts : List ℕ => counts.length = size) window _ ?_ ?_
  · simp
  · intro counts h t _
    split_ifs <;> simpa using h

theorem penalisedLogits_length (logits : List R) (history : List Token) (historyCount : ℕ)
    (options : SamplingOptions R) :
    (penalisedLogits logits history historyCount options).length = logits.length := by
  unfold penalisedLogits applySamplingPenalties
  split_ifs <;> simp [countTokens_length]

theorem one_le_maxlocFrom (values : List R) {best : R} {bestIndex i : ℕ} (hb : 1 ≤ bestIndex)
    (hi : 1 ≤ i) : 1 ≤ maxlocFrom best bestIndex i values := by
  induction values generalizing best bestIndex i with
  | nil => exact hb
  | cons v vs ih =>
    simp only [maxlocFrom]
    split_ifs
    · exact ih hi (by omega)
    · exact ih hb (by omega)

theorem argmax_nonneg {values : List R} (h : values ≠ []) : 0 ≤ argmax values := by
  cases values with
  | nil => exact absurd rfl h
  | cons v vs =>
    have : 1 ≤ maxlocFrom v 1 2 vs := one_le_maxlocFrom vs (by omega) (by omega)
    change (0 : ℤ) ≤ (maxlocFrom v 1 2 vs : ℤ) - 1
    omega

/-- Every candidate carries an index from 1. -/
def Numbered (heap : List (Candidate R)) : Prop := ∀ c ∈ heap, 1 ≤ c.2

theorem Numbered.set {heap : List (Candidate R)} (h : Numbered heap) {c : Candidate R}
    (hc : 1 ≤ c.2) (i : ℕ) : Numbered (heap.set i c) := by
  intro x hx
  rcases List.mem_or_eq_of_mem_set hx with hx | rfl
  · exact h x hx
  · exact hc

theorem Numbered.candidateAt {heap : List (Candidate R)} (h : Numbered heap) (i : ℕ) :
    1 ≤ (candidateAt heap i).2 := by
  simp only [FortAI.candidateAt, List.getD_eq_getElem?_getD]
  cases hx : heap[i - 1]? with
  | none => simp
  | some c => simpa using h c (List.mem_of_getElem? hx)

theorem Numbered.siftDown {before : Candidate R → Candidate R → Bool} {count : ℕ}
    {item : Candidate R} (hitem : 1 ≤ item.2) (fuel : ℕ) {heap : List (Candidate R)}
    (h : Numbered heap) (parent : ℕ) :
    Numbered (FortAI.siftDown before count item fuel heap parent) := by
  induction fuel generalizing heap parent with
  | zero => exact h.set hitem _
  | succ fuel ih =>
    simp only [FortAI.siftDown]
    split_ifs
    all_goals first
      | exact h.set hitem _
      | exact ih (h.set (h.candidateAt _) _) _

theorem Numbered.foldl {α : Type} {f : List (Candidate R) → α → List (Candidate R)} {l : List α}
    {heap : List (Candidate R)} (h : Numbered heap)
    (hf : ∀ heap, ∀ x ∈ l, Numbered heap → Numbered (f heap x)) : Numbered (l.foldl f heap) := by
  induction l generalizing heap with
  | nil => exact h
  | cons x l ih =>
    exact ih (hf heap x List.mem_cons_self h) fun heap y hy => hf heap y (List.mem_cons_of_mem _ hy)

theorem Numbered.sortDescending {heap : List (Candidate R)} (h : Numbered heap) (count : ℕ) :
    Numbered (FortAI.sortDescending heap count) := by
  have hsift : ∀ heap : List (Candidate R), ∀ n i, Numbered heap → Numbered (siftMaxHeap heap n i) :=
    fun heap n i h => Numbered.siftDown (h.candidateAt i) n h i
  have hbuild := h.foldl (l := (List.range' 1 (count / 2)).reverse)
    (f := fun h i => siftMaxHeap h count i) fun heap i _ h => hsift heap count i h
  have hsort := hbuild.foldl (l := (List.range' 2 (count - 1)).reverse) (f := extractLast)
    fun heap i _ h => hsift _ _ _ ((h.set (h.candidateAt i) 0).set (h.candidateAt 1) _)
  intro c hc
  exact hsort c (List.mem_reverse.1 hc)

theorem numbered_topCandidates (values : List R) (count : ℕ) :
    Numbered (topCandidates values count) := by
  have hidx : Numbered (values.zipIdx 1) := fun c hc => (List.le_snd_of_mem_zipIdx hc)
  unfold topCandidates
  split_ifs with h0
  · intro c hc; cases hc
  · refine Numbered.sortDescending (Numbered.foldl (Numbered.foldl ?_ ?_) ?_) count
    · exact fun c hc => hidx c (List.mem_of_mem_take hc)
    · exact fun heap i _ h => Numbered.siftDown (h.candidateAt i) _ h i
    · intro heap c hc h
      have hset := h.set (hidx c (List.mem_of_mem_drop hc)) 0
      split_ifs
      · exact Numbered.siftDown (hset.candidateAt 1) _ hset 1
      · exact h

@[simp] theorem siftDown_length (before : Candidate R → Candidate R → Bool) (count : ℕ)
    (item : Candidate R) (fuel : ℕ) (heap : List (Candidate R)) (parent : ℕ) :
    (siftDown before count item fuel heap parent).length = heap.length := by
  induction fuel generalizing heap parent with
  | zero => simp [siftDown]
  | succ fuel ih =>
    simp only [siftDown]
    split_ifs <;> simp [ih]

theorem foldl_length {α : Type} {f : List (Candidate R) → α → List (Candidate R)}
    (hf : ∀ heap x, (f heap x).length = heap.length) (l : List α) (heap : List (Candidate R)) :
    (l.foldl f heap).length = heap.length := by
  induction l generalizing heap with
  | nil => rfl
  | cons x l ih => exact (ih _).trans (hf heap x)

@[simp] theorem sortDescending_length (heap : List (Candidate R)) (count : ℕ) :
    (sortDescending heap count).length = heap.length := by
  unfold sortDescending
  rw [List.length_reverse, foldl_length fun h i => by simp [extractLast, siftMaxHeap],
    foldl_length fun h i => by simp [siftMaxHeap]]

theorem topCandidates_length (values : List R) (count : ℕ) :
    (topCandidates values count).length = min count values.length := by
  unfold topCandidates
  split_ifs with h0
  · rw [h0, Nat.zero_min]
    rfl
  · dsimp only
    rw [sortDescending_length, foldl_length, foldl_length fun h i => by simp [siftMinHeap]]
    · rw [List.length_take, List.length_zipIdx]
    · intro h c
      split_ifs <;> simp [siftMinHeap]

theorem topCandidates_length_le (values : List R) (count : ℕ) :
    (topCandidates values count).length ≤ values.length :=
  topCandidates_length values count ▸ Nat.min_le_right ..

theorem sampleLogits_nonneg (logits : List R) (temperature : R) (generator : Mt19937)
    (history : List Token) (historyCount : ℕ) (options : SamplingOptions R) :
    0 ≤ (sampleLogits logits temperature generator history historyCount options).1 := by
  set candidates := topCandidates (penalisedLogits logits history historyCount options)
    (candidateCount logits.length options) with hc
  set i := (drawCandidate options temperature (candidates.map Prod.fst) generator).1 with hi
  have hnum : Numbered candidates := numbered_topCandidates _ _
  have : 1 ≤ (candidates.map Prod.snd).getD i 1 := by
    simp only [List.getD_eq_getElem?_getD, List.getElem?_map]
    cases hx : candidates[i]? with
    | none => simp
    | some c => simpa using hnum c (List.mem_of_getElem? hx)
  change (0 : ℤ) ≤ ((candidates.map Prod.snd).getD i 1 : ℤ) - 1
  omega

/-! ### The penalties read the history only up to the count -/

theorem penaltyWindow_congr {history history' : List Token} {historyCount : ℕ}
    (h : history.take historyCount = history'.take historyCount) (repeatLastN : ℤ) :
    penaltyWindow history historyCount repeatLastN =
      penaltyWindow history' historyCount repeatLastN := by
  simp only [penaltyWindow, h]

theorem penalisedLogits_congr {history history' : List Token} {historyCount : ℕ}
    (h : history.take historyCount = history'.take historyCount) (logits : List R)
    (options : SamplingOptions R) :
    penalisedLogits logits history historyCount options =
      penalisedLogits logits history' historyCount options := by
  simp only [penalisedLogits, applySamplingPenalties, penaltyWindow_congr h]

theorem sampleLogits_congr {history history' : List Token} {historyCount : ℕ}
    (h : history.take historyCount = history'.take historyCount) (logits : List R)
    (temperature : R) (generator : Mt19937) (options : SamplingOptions R) :
    sampleLogits logits temperature generator history historyCount options =
      sampleLogits logits temperature generator history' historyCount options := by
  simp only [sampleLogits, penalisedLogits_congr h]

theorem greedyPenalized_congr {history history' : List Token} {historyCount : ℕ}
    (h : history.take historyCount = history'.take historyCount) (logits : List R)
    (options : SamplingOptions R) :
    greedyPenalized logits history historyCount options =
      greedyPenalized logits history' historyCount options := by
  simp only [greedyPenalized, penalisedLogits_congr h]

end FortAI
