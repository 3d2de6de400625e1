import FortAI.Service.Deterministic
import Mathlib.Data.List.GetD
import Mathlib.Data.Nat.Basic
import Mathlib.Order.Basic

/-!
# The samplers on their buffers

`sample_logits` scales the logits of its candidates in place and keeps their weights in the array of
the penalised logits; `sample_topk_candidates` is handed the candidates and does both in one array of
its own.  Positions count from 0.

* `writeLoop_eq` : a loop that writes an array front to back.
* `Buffers.sampleLogits_eq`, `Buffers.sampleTopkCandidates_eq` : both draw as `drawCandidate` does.
* `Buffers.samplers_agree` : on the candidates that `top_candidates` selects they agree.
-/

namespace FortAI

/-! ### Loops that write an array -/

section
variable {α β S : Type}

/-- `do i = 1, count`: an entry of the array is written, and what is written is tallied. -/
def writeLoop (f : List α → ℕ → α) (tally : S → α → S) (count : ℕ) (s : List α × S) : List α × S :=
  (List.range count).foldl (fun s i => (s.1.set i (f s.1 i), tally s.2 (f s.1 i))) s

/-- The array that is written, without a tally. -/
def writeAll (f : List α → ℕ → α) (count : ℕ) (buffer : List α) : List α :=
  (writeLoop f (fun _ _ => ()) count (buffer, ())).1

/-- What a loop writes when no entry depends on those in front of it. -/
theorem writeLoop_eq {f : List α → ℕ → α} {value : ℕ → α} {tally : S → α → S} {buffer : List α} {sum : S}
    {count : ℕ} (hcount : count ≤ buffer.length)
    (h : ∀ i < count, ∀ written : List α, written.length = i → f (written ++ buffer.drop i) i = value i) :
    writeLoop f tally count (buffer, sum) =
      ((List.range count).map value ++ buffer.drop count,
        ((List.range count).map value).foldl tally sum) := by
  induction count with
  | zero => rfl
  | succ n ih =>
    have hlt : n < buffer.length := hcount
    have hlength : ((List.range n).map value).length = n := by
      rw [List.length_map, List.length_range]
    have hwritten := ih hlt.le fun i hi => h i (Nat.lt_succ_of_lt hi)
    rw [writeLoop] at hwritten
    rw [writeLoop, List.range_succ, List.foldl_append, hwritten, List.foldl_cons, List.foldl_nil,
      h n n.lt_succ_self _ hlength, List.map_append, List.foldl_append,
      List.set_append_right _ _ hlength.le, hlength, Nat.sub_self, List.drop_eq_getElem_cons hlt,
      List.set_cons_zero, List.append_assoc]
    rfl

theorem writeAll_eq {f : List α → ℕ → α} {value : ℕ → α} {buffer : List α} {count : ℕ}
    (hcount : count ≤ buffer.length)
    (h : ∀ i < count, ∀ written : List α, written.length = i → f (written ++ buffer.drop i) i = value i) :
    writeAll f count buffer = (List.range count).map value ++ buffer.drop count := by
  rw [writeAll, writeLoop_eq hcount h]

theorem map_range_getD (g : α → β) (default : α) {values : List α} {count : ℕ}
    (h : count ≤ values.length) :
    ((List.range count).map fun i => g (values.getD i default)) = (values.take count).map g := by
  refine List.ext_getElem ?_ fun i hi _ => ?_
  · rw [List.length_map, List.length_range, List.length_map, List.length_take_of_le h]
  · rw [List.length_map, List.length_range] at hi
    rw [List.getElem_map, List.getElem_range, List.getElem_map, List.getElem_take,
      List.getD_eq_getElem _ _ (hi.trans_le h)]

theorem getD_append_drop {written buffer : List α} {i : ℕ} (h : written.length = i) (default : α) :
    (written ++ buffer.drop i).getD i default = buffer.getD i default := by
  rw [List.getD_append_right _ _ _ _ h.le, h, Nat.sub_self, List.getD_eq_getElem?_getD,
    List.getElem?_drop, Nat.add_zero, List.getD_eq_getElem?_getD]

end

namespace Buffers

open Arithmetic

variable {R D : Type} [Arithmetic R D]

/-! ### The loops of the samplers -/

/-- The first entries of an array are replaced. -/
def overwrite {α : Type} (buffer entries : List α) : List α := entries ++ buffer.drop entries.length

/-- `buffer(i) = exp(values(i) - maximum)`, with the sum of what is written. -/
def weigh {S : Type} (tally : S → R → S) (values : List R) (maximum : R) (count : ℕ) (buffer : List R)
    (sum : S) : List R × S :=
  writeLoop (fun _ i => exp (sub (values.getD i zero) maximum)) tally count (buffer, sum)

/-- `workspace(i) = exp(workspace(i) - maximum)` -/
def weighInPlace {S : Type} (tally : S → R → S) (maximum : R) (count : ℕ) (workspace : List R) (sum : S) :
    List R × S :=
  writeLoop (fun workspace i => exp (sub (workspace.getD i zero) maximum)) tally count (workspace, sum)

/-- The loop of the nucleus, with so many turns left. -/
def nucleusLoop (topP total : R) (buffer : List R) : ℕ → ℕ → R → ℕ
  | 0, _, _ => 1
  | turns + 1, i, cumulative =>
    let cumulative := add cumulative (div (buffer.getD i zero) total)
    if le topP cumulative then i + 1 else nucleusLoop topP total buffer turns (i + 1) cumulative

/-- The loop that cuts off the candidates below the minimum. -/
def minPLoop (minimum : R) (selected : ℕ) (values : List R) : ℕ → ℕ → ℕ
  | 0, _ => selected
  | turns + 1, i =>
    if lt (values.getD i zero) minimum then i else minPLoop minimum selected values turns (i + 1)

/-- The loop of the draw. -/
def drawLoop (target : D) (buffer : List R) : ℕ → ℕ → D → Option ℕ
  | 0, _, _ => none
  | turns + 1, i, run =>
    let run := addD R run (widen (buffer.getD i zero))
    if leD R target run then some i else drawLoop target buffer turns (i + 1) run

/-- `probability_sum + real(probability, real64)` -/
def addWide (sum : D) (weight : R) : D := addD R sum (widen weight)

/-! ### The samplers -/

/-- The part of `sample_logits` behind the selection: the position of the candidate that is drawn. -/
def drawSelected (options : SamplingOptions R) (temperature : R) (generator : Mt19937)
    (candidateCount : ℕ) (candidateValues adjusted : List R) : ℕ × Mt19937 :=
  let (selectedCount, adjusted) :=
    if lt options.topP one then
      let (adjusted, total) :=
        weigh add candidateValues (candidateValues.getD 0 zero) candidateCount adjusted zero
      (nucleusLoop options.topP total adjusted candidateCount 0 zero, adjusted)
    else (candidateCount, adjusted)
  let selectedCount :=
    if lt zero options.minP then
      minPLoop (add (candidateValues.getD 0 zero) (log options.minP)) selectedCount candidateValues
        (selectedCount - 1) 1
    else selectedCount
  let candidateValues :=
    writeAll (fun values i => div (values.getD i zero) temperature) selectedCount candidateValues
  let (adjusted, probabilitySum) :=
    weigh addWide candidateValues (candidateValues.getD 0 zero) selectedCount adjusted (zeroD R)
  let (uniform, generator) := generator.uniformReal64 R
  let chosen := drawLoop (mulD R probabilitySum uniform) adjusted selectedCount 0 (zeroD R)
  (chosen.getD 0, generator)

/-- `sample_logits`; nothing reads what it leaves in the arrays. -/
def sampleLogits (logits : List R) (temperature : R) (generator : Mt19937) (history : List Token)
    (historyCount : ℕ) (options : SamplingOptions R) (adjusted : List R) (candidateIndices : List ℕ)
    (candidateValues : List R) : Token × Mt19937 :=
  let candidateCount := Nat.min adjusted.length candidateIndices.length
  let candidateCount :=
    if options.topK > 0 then Nat.min candidateCount options.topK.toNat else candidateCount
  let adjusted :=
    if samplingPenaltiesActive options then
      overwrite adjusted (applySamplingPenalties logits history historyCount options)
    else adjusted
  let candidates :=
    topCandidates (if samplingPenaltiesActive options then adjusted else logits) candidateCount
  let candidateIndices := overwrite candidateIndices (candidates.map Prod.snd)
  let candidateValues := overwrite candidateValues (candidates.map Prod.fst)
  let (chosen, generator) :=
    drawSelected options temperature generator candidateCount candidateValues adjusted
  ((candidateIndices.getD chosen 1 : ℤ) - 1, generator)

/-- The body of `sample_topk_candidates`: the position of the candidate that is drawn. -/
def drawHanded (options : SamplingOptions R) (temperature : R) (generator : Mt19937)
    (candidateCount : ℕ) (candidateValues workspace : List R) : ℕ × Mt19937 :=
  let (selectedCount, workspace) :=
    if lt options.topP one then
      let (workspace, total) :=
        weigh add candidateValues (candidateValues.getD 0 zero) candidateCount workspace zero
      (nucleusLoop options.topP total workspace candidateCount 0 zero, workspace)
    else (candidateCount, workspace)
  let selectedCount :=
    if lt zero options.minP then
      minPLoop (add (candidateValues.getD 0 zero) (log options.minP)) selectedCount candidateValues
        (selectedCount - 1) 1
    else selectedCount
  let workspace :=
    writeAll (fun _ i => div (candidateValues.getD i zero) temperature) selectedCount workspace
  let (workspace, probabilitySum) :=
    weighInPlace addWide (workspace.getD 0 zero) selectedCount workspace (zeroD R)
  let (uniform, generator) := generator.uniformReal64 R
  let chosen := drawLoop (mulD R probabilitySum uniform) workspace selectedCount 0 (zeroD R)
  (chosen.getD 0, generator)

/-- `sample_topk_candidates` -/
def sampleTopkCandidates (candidateIndices : List Token) (candidateValues : List R) (temperature : R)
    (generator : Mt19937) (options : SamplingOptions R) (workspace : List R) : Token × Mt19937 :=
  let candidateCount :=
    Nat.min (Nat.min candidateIndices.length candidateValues.length) workspace.length
  let (chosen, generator) :=
    drawHanded options temperature generator candidateCount candidateValues workspace
  (candidateIndices.getD chosen 0, generator)

/-! ### What the loops compute -/

section
variable {values rest buffer weights : List R} {count : ℕ}

theorem weigh_eq {S : Type} (tally : S → R → S) {maximum : R} {sum : S} (hvalues : count ≤ values.length)
    (hbuffer : count ≤ buffer.length) :
    weigh tally values maximum count buffer sum =
      (((values.take count).map fun v => exp (sub v maximum)) ++ buffer.drop count,
        ((values.take count).map fun v => exp (sub v maximum)).foldl tally sum) := by
  rw [weigh, writeLoop_eq hbuffer fun _ _ _ _ => rfl,
    map_range_getD (fun v => exp (sub v maximum)) zero hvalues]

theorem weighInPlace_eq {S : Type} (tally : S → R → S) {maximum : R} {sum : S}
    (hbuffer : count ≤ buffer.length) :
    weighInPlace tally maximum count buffer sum =
      (((buffer.take count).map fun v => exp (sub v maximum)) ++ buffer.drop count,
        ((buffer.take count).map fun v => exp (sub v maximum)).foldl tally sum) := by
  rw [weighInPlace, writeLoop_eq hbuffer fun i _ written hwritten => by
      rw [getD_append_drop hwritten],
    map_range_getD (fun v => exp (sub v maximum)) zero hbuffer]

theorem scale_eq {temperature : R} (hvalues : count ≤ values.length) (hbuffer : count ≤ buffer.length) :
    writeAll (fun _ i => div (values.getD i zero) temperature) count buffer =
      ((values.take count).map fun v => div v temperature) ++ buffer.drop count := by
  rw [writeAll_eq hbuffer fun _ _ _ _ => rfl, map_range_getD (fun v => div v temperature) zero hvalues]

theorem scaleInPlace_eq {temperature : R} (hvalues : count ≤ values.length) :
    writeAll (fun values i => div (values.getD i zero) temperature) count values =
      ((values.take count).map fun v => div v temperature) ++ values.drop count := by
  rw [writeAll_eq hvalues fun i _ written hwritten => by rw [getD_append_drop hwritten],
    map_range_getD (fun v => div v temperature) zero hvalues]

theorem nucleusLoop_eq {topP total : R} {turns i : ℕ} {cumulative : R} (h : i + turns = weights.length) :
    nucleusLoop topP total (weights ++ rest) turns i cumulative =
      nucleusCount topP total cumulative (i + 1) (weights.drop i) := by
  induction turns generalizing i cumulative with
  | zero =>
    have hnil : weights.drop i = [] := List.drop_eq_nil_of_le h.ge
    rw [hnil]
    rfl
  | succ turns ih =>
    have hi : i < weights.length := by omega
    rw [List.drop_eq_getElem_cons hi, nucleusLoop, nucleusCount, List.getD_append _ _ _ _ hi,
      List.getD_eq_getElem _ _ hi, ih (by omega)]

theorem minPLoop_eq {minimum : R} {selected turns i : ℕ} (hselected : selected ≤ values.length)
    (h : turns = selected - i) :
    minPLoop minimum selected (values ++ rest) turns i =
      minPCount minimum selected (i + 1) (values.drop i) := by
  induction turns generalizing i with
  | zero =>
    cases values.drop i with
    | nil => rfl
    | cons v vs => rw [minPLoop, minPCount, if_pos (by omega)]
  | succ turns ih =>
    have hi : i < values.length := by omega
    rw [List.drop_eq_getElem_cons hi, minPLoop, minPCount,
      if_neg (show ¬ selected < i + 1 by omega),
      List.getD_append _ _ _ _ hi, List.getD_eq_getElem _ _ hi, ih (by omega), Nat.add_sub_cancel]

theorem drawLoop_eq {target : D} {turns i : ℕ} {run : D} (h : i + turns = weights.length) :
    drawLoop target (weights ++ rest) turns i run = drawFrom target run i (weights.drop i) := by
  induction turns generalizing i run with
  | zero =>
    have hnil : weights.drop i = [] := List.drop_eq_nil_of_le h.ge
    rw [hnil]
    rfl
  | succ turns ih =>
    have hi : i < weights.length := by omega
    rw [List.drop_eq_getElem_cons hi, drawLoop, drawFrom, List.getD_append _ _ _ _ hi,
      List.getD_eq_getElem _ _ hi, ih (by omega)]

end

/-! ### Both draw alike -/

section
variable {options : SamplingOptions R} {values : List R}

theorem one_le_nucleusCount (topP total cumulative : R) {i : ℕ} (hi : 1 ≤ i) (weights : List R) :
    1 ≤ nucleusCount topP total cumulative i weights := by
  induction weights generalizing cumulative i with
  | nil => exact le_rfl
  | cons weight weights ih =>
    simp only [nucleusCount]
    split_ifs
    · exact hi
    · exact ih _ (Nat.le_succ_of_le hi)

theorem nucleusCount_le (topP total cumulative : R) {i n : ℕ} (hn : 1 ≤ n) (weights : List R)
    (h : i + weights.length ≤ n + 1) : nucleusCount topP total cumulative i weights ≤ n := by
  induction weights generalizing cumulative i with
  | nil => exact hn
  | cons weight weights ih =>
    rw [List.length_cons] at h
    simp only [nucleusCount]
    split_ifs
    · omega
    · exact ih _ (by omega)

theorem minPCount_mem (minimum : R) {selected i : ℕ} (hi : 2 ≤ i) (hselected : 1 ≤ selected)
    (values : List R) :
    1 ≤ minPCount minimum selected i values ∧ minPCount minimum selected i values ≤ selected := by
  induction values generalizing i with
  | nil => exact ⟨hselected, le_rfl⟩
  | cons value values ih =>
    rw [minPCount]
    split_ifs
    · exact ⟨hselected, le_rfl⟩
    · omega
    · exact ih (Nat.le_succ_of_le hi)

/-- The candidates that top-p leaves. -/
def nucleus (options : SamplingOptions R) (values : List R) : ℕ :=
  if lt options.topP one then
    let weights := values.map fun v => exp (sub v (values.getD 0 zero))
    nucleusCount options.topP (weights.foldl add zero) zero 1 weights
  else values.length

theorem nucleus_mem (options : SamplingOptions R) (hvalues : values ≠ []) :
    1 ≤ nucleus options values ∧ nucleus options values ≤ values.length := by
  have hpos := List.length_pos_iff.mpr hvalues
  rw [nucleus]
  split_ifs
  · refine ⟨one_le_nucleusCount _ _ _ le_rfl _, nucleusCount_le _ _ _ hpos _ ?_⟩
    rw [List.length_map, Nat.add_comm]
  · exact ⟨hpos, le_rfl⟩

theorem selectedCount_eq (options : SamplingOptions R) (values : List R) :
    selectedCount options values =
      if lt zero options.minP then
        minPCount (add (values.getD 0 zero) (log options.minP)) (nucleus options values) 2 values.tail
      else nucleus options values := rfl

theorem selectedCount_mem (options : SamplingOptions R) (hvalues : values ≠ []) :
    1 ≤ selectedCount options values ∧ selectedCount options values ≤ values.length := by
  have hnucleus := nucleus_mem options hvalues
  rw [selectedCount_eq]
  split_ifs
  · have hmem := minPCount_mem (add (values.getD 0 zero) (log options.minP)) le_rfl hnucleus.1
      values.tail
    exact ⟨hmem.1, hmem.2.trans hnucleus.2⟩
  · exact hnucleus

/-- The cut by `min_p` in the array that holds the candidates. -/
theorem minPLoop_nucleus (options : SamplingOptions R) (hvalues : values ≠ []) (rest : List R) :
    (if lt zero options.minP then
        minPLoop (add ((values ++ rest).getD 0 zero) (log options.minP)) (nucleus options values)
          (values ++ rest) (nucleus options values - 1) 1
      else nucleus options values) = selectedCount options values := by
  have hfirst : (values ++ rest).getD 0 zero = values.getD 0 zero :=
    List.getD_append _ _ _ _ (List.length_pos_iff.mpr hvalues)
  rw [selectedCount_eq, hfirst, minPLoop_eq (nucleus_mem options hvalues).2 rfl, List.drop_one]

/-- The draw from the weights of the candidates that are left. -/
theorem drawLoop_scaled {temperature : R} (hvalues : values ≠ []) (generator : Mt19937)
    (rest behind : List R) :
    let scaled := (values.take (selectedCount options values)).map fun v => div v temperature
    let weights := scaled.map fun v => exp (sub v ((scaled ++ rest).getD 0 zero))
    ((drawLoop (mulD R (weights.foldl addWide (zeroD R)) (generator.uniformReal64 R).1)
        (weights ++ behind) (selectedCount options values) 0 (zeroD R)).getD 0,
      (generator.uniformReal64 R).2) = drawCandidate options temperature values generator := by
  intro scaled weights
  have hcount := selectedCount_mem options hvalues
  have hlength : scaled.length = selectedCount options values := by
    rw [List.length_map, List.length_take_of_le hcount.2]
  have hfirst : (scaled ++ rest).getD 0 zero = scaled.getD 0 zero :=
    List.getD_append _ _ _ _ (by omega)
  have hweights : weights.length = selectedCount options values := by rw [List.length_map, hlength]
  have hdraw (target : D) : drawLoop target (weights ++ behind) (selectedCount options values) 0 (zeroD R) =
      drawFrom target (zeroD R) 0 weights :=
    drawLoop_eq ((Nat.zero_add _).trans hweights.symm)
  rw [hdraw]
  simp only [weights, hfirst]
  rfl

/-- The nucleus, and what is left of an array that its weights went through. -/
theorem exists_nucleus (options : SamplingOptions R) (hvalues : values ≠ []) (rest : List R) {buffer : List R}
    (hbuffer : values.length ≤ buffer.length) :
    ∃ buffer' : List R, buffer'.length = buffer.length ∧
      (if lt options.topP one then
        let (buffer, total) :=
          weigh add (values ++ rest) ((values ++ rest).getD 0 zero) values.length buffer zero
        (nucleusLoop options.topP total buffer values.length 0 zero, buffer)
      else (values.length, buffer)) = (nucleus options values, buffer') := by
  have hfirst : (values ++ rest).getD 0 zero = values.getD 0 zero :=
    List.getD_append _ _ _ _ (List.length_pos_iff.mpr hvalues)
  rw [nucleus]
  split_ifs
  · rw [weigh_eq add (List.length_append ▸ Nat.le_add_right _ _) hbuffer, hfirst, List.take_left]
    dsimp only
    refine ⟨_, ?_, congrArg (·, _) (nucleusLoop_eq ?_)⟩
    · rw [List.length_append, List.length_map, List.length_drop, Nat.add_sub_cancel' hbuffer]
    · rw [Nat.zero_add, List.length_map]
  · exact ⟨buffer, rfl, rfl⟩

end

/-! ### The samplers -/

theorem overwrite_of_length {α : Type} {buffer entries : List α} (h : entries.length = buffer.length) :
    overwrite buffer entries = entries := by
  rw [overwrite, List.drop_eq_nil_of_le h.ge, List.append_nil]

/-- `sample_logits` draws as the draw from a list does. -/
theorem drawSelected_eq {values buffer : List R} (hvalues : values ≠ [])
    (hbuffer : values.length ≤ buffer.length) (rest : List R) (options : SamplingOptions R)
    (temperature : R) (generator : Mt19937) :
    drawSelected options temperature generator values.length (values ++ rest) buffer =
      drawCandidate options temperature values generator := by
  obtain ⟨adjusted, hadjusted, hnucleus⟩ := exists_nucleus options hvalues rest hbuffer
  have hcount := selectedCount_mem options hvalues
  have hall : selectedCount options values ≤ (values ++ rest).length := by
    rw [List.length_append]
    omega
  have htake : (values ++ rest).take (selectedCount options values) =
      values.take (selectedCount options values) :=
    List.take_append_of_le_length hcount.2
  have hscaled : ((values.take (selectedCount options values)).map fun v => div v temperature).length =
      selectedCount options values := by
    rw [List.length_map, List.length_take_of_le hcount.2]
  simp only [drawSelected, hnucleus]
  rw [minPLoop_nucleus options hvalues, scaleInPlace_eq hall, htake,
    weigh_eq addWide (by rw [List.length_append, hscaled]; omega) (by omega), List.take_left' hscaled]
  exact drawLoop_scaled hvalues generator _ _

/-- `sample_topk_candidates` draws as the draw from a list does. -/
theorem drawHanded_eq {values workspace : List R} (hvalues : values ≠ [])
    (hworkspace : values.length ≤ workspace.length) (options : SamplingOptions R) (temperature : R)
    (generator : Mt19937) :
    drawHanded options temperature generator values.length values workspace =
      drawCandidate options temperature values generator := by
  obtain ⟨workspace', hlength, hnucleus⟩ := exists_nucleus options hvalues [] hworkspace
  have hcut := minPLoop_nucleus options hvalues []
  have hcount := selectedCount_mem options hvalues
  have hscaled : ((values.take (selectedCount options values)).map fun v => div v temperature).length =
      selectedCount options values := by
    rw [List.length_map, List.length_take_of_le hcount.2]
  rw [List.append_nil] at hnucleus hcut
  simp only [drawHanded, hnucleus]
  rw [hcut, scale_eq hcount.2 (by omega),
    weighInPlace_eq addWide (by rw [List.length_append, hscaled]; omega), List.take_left' hscaled]
  exact drawLoop_scaled hvalues generator _ _

theorem drawFrom_lt {target sum : D} {weights : List R} {i j : ℕ} (h : drawFrom target sum i weights = some j) :
    j < i + weights.length := by
  induction weights generalizing sum i with
  | nil => cases h
  | cons weight weights ih =>
    rw [drawFrom] at h
    rw [List.length_cons]
    split_ifs at h
    · rw [← Option.some.inj h]
      omega
    · have := ih h
      omega

/-- A candidate is drawn. -/
theorem drawCandidate_lt {values : List R} (hvalues : values ≠ []) (options : SamplingOptions R)
    (temperature : R) (generator : Mt19937) :
    (drawCandidate options temperature values generator).1 < values.length := by
  have hpos := List.length_pos_iff.mpr hvalues
  rw [drawCandidate]
  dsimp only
  generalize hchosen : drawFrom (R := R) _ _ _ _ = chosen
  cases chosen with
  | none => exact hpos
  | some j =>
    have hlt := drawFrom_lt hchosen
    rw [Nat.zero_add, List.length_map, List.length_map] at hlt
    exact hlt.trans_le (List.length_take_le' _ _)

theorem candidateCount_mem {n : ℕ} (hn : 1 ≤ n) (options : SamplingOptions R) :
    1 ≤ candidateCount n options ∧ candidateCount n options ≤ n := by
  rw [candidateCount]
  split_ifs
  · omega
  · exact ⟨hn, le_rfl⟩

/-- The penalised logits fill the array. -/
theorem overwrite_penalties {logits adjusted : List R} (hadjusted : adjusted.length = logits.length)
    (history : List Token) (historyCount : ℕ) {options : SamplingOptions R}
    (h : samplingPenaltiesActive options = true) :
    overwrite adjusted (applySamplingPenalties logits history historyCount options) =
      penalisedLogits logits history historyCount options := by
  have hlength := penalisedLogits_length logits history historyCount options
  rw [penalisedLogits, if_pos h] at hlength ⊢
  exact overwrite_of_length (hlength.trans hadjusted.symm)

/-- `sample_logits` draws from the candidates that it selects. -/
theorem sampleLogits_eq {logits adjusted candidateValues : List R} {candidateIndices : List ℕ}
    (hne : logits ≠ []) (hadjusted : adjusted.length = logits.length)
    (hindices : candidateIndices.length = logits.length) (temperature : R) (generator : Mt19937)
    (history : List Token) (historyCount : ℕ) (options : SamplingOptions R) :
    sampleLogits logits temperature generator history historyCount options adjusted candidateIndices
      candidateValues =
        FortAI.sampleLogits logits temperature generator history historyCount options := by
  have hcount : (if options.topK > 0 then
      Nat.min (Nat.min adjusted.length candidateIndices.length) options.topK.toNat
    else Nat.min adjusted.length candidateIndices.length) = candidateCount logits.length options := by
    rw [hadjusted, hindices, candidateCount]
    simp
  obtain ⟨buffer, hbuffer⟩ : ∃ buffer, buffer = if samplingPenaltiesActive options then
      overwrite adjusted (applySamplingPenalties logits history historyCount options)
    else adjusted := ⟨_, rfl⟩
  have hvalues : (if samplingPenaltiesActive options then buffer else logits) =
      penalisedLogits logits history historyCount options := by
    split_ifs with h
    · rw [hbuffer, if_pos h, overwrite_penalties hadjusted history historyCount h]
    · rw [penalisedLogits, if_neg h]
  have hlength : buffer.length = logits.length := by
    rw [hbuffer]
    split_ifs with h
    · rw [overwrite_penalties hadjusted history historyCount h, penalisedLogits_length]
    · exact hadjusted
  obtain ⟨hone, hle⟩ := candidateCount_mem (List.length_pos_iff.mpr hne) options
  obtain ⟨candidates, hcandidates⟩ : ∃ candidates, candidates =
      topCandidates (penalisedLogits logits history historyCount options)
        (candidateCount logits.length options) := ⟨_, rfl⟩
  have hfound : candidates.length = candidateCount logits.length options := by
    rw [hcandidates, topCandidates_length, penalisedLogits_length, Nat.min_eq_left hle]
  have hnil : candidates.map Prod.fst ≠ [] := by
    rw [← List.length_pos_iff, List.length_map, hfound]
    exact hone
  have hfits : (candidates.map Prod.fst).length ≤ buffer.length := by
    rw [List.length_map, hfound, hlength]
    exact hle
  have hdraw := drawSelected_eq hnil hfits (candidateValues.drop (candidates.map Prod.fst).length)
    options temperature generator
  rw [List.length_map, hfound] at hdraw
  have hchosen := drawCandidate_lt hnil options temperature generator
  rw [List.length_map] at hchosen
  simp only [sampleLogits, FortAI.sampleLogits, hcount, ← hbuffer, hvalues, ← hcandidates]
  simp only [overwrite, List.length_map, hfound, hdraw]
  rw [List.getD_append _ _ _ _ (by rwa [List.length_map])]

/-- `sample_topk_candidates` draws from the candidates it is handed. -/
theorem sampleTopkCandidates_eq {row : TopkRow R} {workspace : List R} (hne : row ≠ [])
    (hworkspace : row.length ≤ workspace.length) (temperature : R) (generator : Mt19937)
    (options : SamplingOptions R) :
    sampleTopkCandidates (row.map Prod.fst) (row.map Prod.snd) temperature generator options workspace =
      FortAI.sampleTopkCandidates row temperature generator options workspace.length := by
  have hvalues : row.map Prod.snd ≠ [] := List.map_eq_nil_iff.not.mpr hne
  have hcount : Nat.min (Nat.min (row.map Prod.fst).length (row.map Prod.snd).length) workspace.length =
      (row.map Prod.snd).length := by
    rw [List.length_map, List.length_map]
    exact (congrArg (Nat.min · _) (Nat.min_self _)).trans (Nat.min_eq_left hworkspace)
  have hle : (row.map Prod.snd).length ≤ workspace.length := by rwa [List.length_map]
  have hdraw := drawHanded_eq hvalues hle options temperature generator
  simp only [sampleTopkCandidates, hcount, hdraw, FortAI.sampleTopkCandidates,
    List.take_of_length_le hworkspace]

/-- The sampler of the device and the sampler of the host pick the same token and leave the same
generator, whatever stood in their arrays. -/
theorem samplers_agree {options : SamplingOptions R}
    (hpenalties : samplingPenaltiesActive options = false) {logits : List R} (htop : 1 ≤ options.topK)
    (hle : options.topK ≤ logits.length) {adjusted candidateValues workspace : List R}
    {candidateIndices : List ℕ} (hadjusted : adjusted.length = logits.length)
    (hindices : candidateIndices.length = logits.length) (hworkspace : options.topK ≤ workspace.length)
    (temperature : R) (generator : Mt19937) (history : List Token) (historyCount : ℕ) :
    let selected := topCandidates logits options.topK.toNat
    sampleTopkCandidates (selected.map fun c => (c.2 : ℤ) - 1) (selected.map Prod.fst) temperature
      generator options workspace =
        sampleLogits logits temperature generator history historyCount options adjusted candidateIndices
          candidateValues := by
  intro selected
  have hcount : options.topK.toNat ≤ logits.length := by omega
  have hlength : selected.length = options.topK.toNat := by
    rw [topCandidates_length, Nat.min_eq_left hcount]
  have hne : logits ≠ [] := by
    rintro rfl
    rw [List.length_nil] at hle
    omega
  -- the candidates as the device hands them over
  let row : TopkRow R := selected.map fun c => ((c.2 : ℤ) - 1, c.1)
  have hrow : row.length = options.topK.toNat := by rw [List.length_map, hlength]
  have hnil : row ≠ [] := by
    rw [← List.length_pos_iff, hrow]
    omega
  have htopk : IsTopkRow options.topK.toNat logits row := by
    rw [IsTopkRow, List.take_of_length_le (hrow.trans_le hcount), Nat.min_eq_right hcount]
  have hfits : row.length ≤ workspace.length := by omega
  have hdevice := sampleTopkCandidates_eq hnil hfits temperature generator options
  have hsize : FortAI.sampleTopkCandidates row temperature generator options workspace.length =
      FortAI.sampleTopkCandidates row temperature generator options logits.length := by
    rw [FortAI.sampleTopkCandidates, FortAI.sampleTopkCandidates,
      List.take_of_length_le (by omega), List.take_of_length_le (by omega)]
  rw [sampleLogits_eq hne hadjusted hindices,
    ← sampleTopkCandidates_eq_sampleLogits hpenalties (by omega) htopk, ← hsize, ← hdevice,
    List.map_map, List.map_map]
  rfl

/-- Two candidates of three. -/
theorem samplers_agree_two :
    sampleTopkCandidates [1, 2] [(3 : ℚ), 2] 1 (Mt19937.seed 5489) ⟨2, 9 / 10, 1 / 10, 1, 0, 0, 64⟩
        [0, 0, 0] =
      sampleLogits [(1 : ℚ), 3, 2] 1 (Mt19937.seed 5489) [] 0 ⟨2, 9 / 10, 1 / 10, 1, 0, 0, 64⟩
        [0, 0, 0] [0, 0, 0] [0, 0, 0] := by
  have hselected : topCandidates [(1 : ℚ), 3, 2] 2 = [(3, 2), (2, 3)] := by rfl
  have h := @samplers_agree ℚ ℚ _ ⟨2, 9 / 10, 1 / 10, 1, 0, 0, 64⟩ (by rfl) [1, 3, 2] (by decide)
    (by decide) [0, 0, 0] [0, 0, 0] [0, 0, 0] [0, 0, 0] rfl rfl (by decide) 1 (Mt19937.seed 5489) [] 0
  dsimp only at h
  rwa [show (2 : ℤ).toNat = 2 from rfl, hselected] at h

end Buffers

end FortAI
