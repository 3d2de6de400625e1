import FortAI.Machine.Binary
import FortAI.Machine.Storage
import FortAI.Service.Deterministic
import Mathlib.Data.List.DropRight

/-!
# Penalties in the work arrays

`apply_sampling_penalties` counts in an array that is used again for every token, and it changes the
logits in another one.  Every element it looks at is checked against the bounds, and its integers have 32
bits.

* `applySamplingPenalties_eq` : it computes what the model of the samplers says, whatever was in the two
  arrays.
* `penalised_of_window` : each token that occurs in the window is changed once, by how often it occurs,
  and every other logit is as it was.
-/

namespace FortAI

namespace Penalties

open Arithmetic Storage Binary

variable {R D : Type} [Arithmetic R D]

/-! ### The procedures -/

/-- A turn of the loop over the history. -/
def countTurn (counts : Allocatable ℤ) (entry : Token) : Checked Unit (Allocatable ℤ) :=
  let token := wrap .int32 (entry + 1)
  if 1 ≤ token ∧ token ≤ (counts.getD []).length then do
    let count ← load counts token.toNat
    store counts token.toNat (wrap .int32 (count + 1))
  else .ok counts

/-- A turn of the loop over the logits. -/
def penaltyTurn (options : SamplingOptions R) (counts : Allocatable ℤ) (adjusted : Allocatable R) (i : ℕ) :
    Checked Unit (Allocatable R) := do
  let count ← load counts i
  if count ≤ 0 then return adjusted
  else
    let value ← load adjusted i
    let value :=
      if eq options.repeatPenalty one then value
      else if lt zero value then div value options.repeatPenalty
      else mul value options.repeatPenalty
    let value := sub value options.presencePenalty
    store adjusted i (sub value (mul options.frequencyPenalty (ofCount count.toNat)))

/-- `do i = first, last` -/
def positions (first last : ℤ) : List ℕ := List.range' first.toNat (last + 1 - first).toNat

/-- `apply_sampling_penalties`: `adjusted` and `counts` afterwards. -/
def applySamplingPenalties (logits adjusted : List R) (counts : List ℤ) (history : List Token) (historyCount : ℤ)
    (options : SamplingOptions R) : Checked Unit (Allocatable R × Allocatable ℤ) :=
  -- arrays of different lengths cannot be assigned
  if adjusted.length ≠ logits.length then .error .outside
  else
    let counts := some (List.replicate counts.length 0)
    if options.repeatLastN = 0 ∨ historyCount ≤ 0 then .ok (some logits, counts)
    else
      let first :=
        if options.repeatLastN < 0 then 1
        else if 1 < historyCount - options.repeatLastN + 1 then historyCount - options.repeatLastN + 1
        else 1
      let last : ℤ := if historyCount < history.length then historyCount else history.length
      if last < first then .ok (some logits, counts)
      else do
        let counts ← (positions first last).foldlM (fun counts i => load (some history) i >>= countTurn counts) counts
        let adjusted ← (positions 1 logits.length).foldlM (penaltyTurn options counts) (some logits)
        return (adjusted, counts)

/-- `greedy_penalized` -/
def greedyPenalized (logits adjusted : List R) (counts : List ℤ) (history : List Token) (historyCount : ℤ)
    (options : SamplingOptions R) : Checked Unit Token :=
  if samplingPenaltiesActive options then do
    let arrays ← applySamplingPenalties logits adjusted counts history historyCount options
    return argmax (arrays.1.getD [])
  else if adjusted.length ≠ logits.length then .error .outside
  else .ok (argmax logits)

/-! ### Counting -/

/-- What the callers pass: arrays of one length, and what fits in 32 bits. -/
structure Called (logits adjusted : List R) (counts history : List ℤ) : Prop where
  adjusted : adjusted.length = logits.length
  counts : counts.length = logits.length
  vocabulary : logits.length < 2147483648
  length : history.length < 2147483648
  entries : ∀ entry ∈ history, -2147483648 ≤ entry ∧ entry < 2147483648

theorem wrap_of_fits {x : ℤ} (hlow : -2147483648 ≤ x) (hhigh : x < 2147483648) : wrap .int32 x = x := by
  show (x + 2147483648) % (2 * 2147483648) - 2147483648 = x
  omega

/-- The index of a token, which no token that is out of range has. -/
theorem wrap_entry {entry : ℤ} {size : ℕ} (hlow : -2147483648 ≤ entry) (hhigh : entry < 2147483648)
    (hsize : size < 2147483648) :
    (1 ≤ wrap .int32 (entry + 1) ∧ wrap .int32 (entry + 1) ≤ size) ↔ (1 ≤ entry + 1 ∧ entry + 1 ≤ size) := by
  by_cases hlast : entry = 2147483647
  · have hwrap : wrap .int32 (entry + 1) = -2147483648 := by rw [hlast]; rfl
    rw [hwrap, hlast]
    omega
  · rw [wrap_of_fits (by omega) (by omega)]

/-- A turn of the loop in the model of the samplers. -/
def countStep (size : ℕ) (counts : List ℕ) (entry : ℤ) : List ℕ :=
  if 1 ≤ entry + 1 ∧ entry + 1 ≤ size then counts.modify entry.toNat (· + 1) else counts

theorem countTokens_eq (size : ℕ) (window : List ℤ) :
    countTokens size window = window.foldl (countStep size) (List.replicate size 0) := rfl

theorem length_countStep (size : ℕ) (counts : List ℕ) (entry : ℤ) :
    (countStep size counts entry).length = counts.length := by
  rw [countStep]
  split_ifs
  · exact List.length_modify _ _ _
  · rfl

/-- A turn counts the token, as long as the count is not too large. -/
theorem countTurn_eq {counts : List ℕ} {entry : ℤ} (hlow : -2147483648 ≤ entry) (hhigh : entry < 2147483648)
    (hsize : counts.length < 2147483648) (hcounts : ∀ count ∈ counts, count < 2147483647) :
    countTurn (some (counts.map Nat.cast)) entry = .ok (some ((countStep counts.length counts entry).map Nat.cast)) := by
  rw [countTurn, countStep, Option.getD_some, List.length_map]
  by_cases htoken : 1 ≤ entry + 1 ∧ entry + 1 ≤ counts.length
  swap
  · rw [if_neg fun h => htoken ((wrap_entry hlow hhigh hsize).mp h), if_neg htoken]
  rw [if_pos ((wrap_entry hlow hhigh hsize).mpr htoken), if_pos htoken]
  have hlt : entry.toNat < counts.length := by omega
  have hindex : (wrap .int32 (entry + 1)).toNat = entry.toNat + 1 := by
    rw [wrap_of_fits (by omega) (by omega)]
    omega
  have hlength : entry.toNat < (counts.map (Nat.cast : ℕ → ℤ)).length := by rw [List.length_map]; exact hlt
  have hbound := hcounts counts[entry.toNat] (List.getElem_mem hlt)
  have hcount : (counts.map (Nat.cast : ℕ → ℤ)).getD entry.toNat 0 = (counts[entry.toNat] : ℤ) := by
    rw [List.getD_eq_getElem?_getD, List.getElem?_map, List.getElem?_eq_getElem hlt]
    rfl
  rw [hindex, load_getD hlength 0, ok_bind, store_eq hlength, hcount, wrap_of_fits (by omega) (by omega)]
  congr 2
  rw [List.modify_eq_set_getElem?, List.getElem?_eq_getElem hlt]
  show _ = List.map Nat.cast (counts.set entry.toNat (counts[entry.toNat] + 1))
  rw [List.map_set, Nat.cast_succ]

theorem countStep_le {size bound : ℕ} {counts : List ℕ} (h : ∀ count ∈ counts, count ≤ bound) (entry : ℤ) :
    ∀ count ∈ countStep size counts entry, count ≤ bound + 1 := by
  intro count hcount
  rw [countStep] at hcount
  split_ifs at hcount
  · obtain ⟨j, hj, rfl⟩ := List.mem_iff_getElem.mp hcount
    rw [List.length_modify] at hj
    have hle := h counts[j] (List.getElem_mem hj)
    rw [List.getElem_modify]
    split_ifs
    · exact Nat.succ_le_succ hle
    · exact Nat.le_succ_of_le hle
  · exact Nat.le_succ_of_le (h count hcount)

/-- The loop over a part of the history. -/
theorem countLoop_eq {window : List ℤ} (hentries : ∀ entry ∈ window, -2147483648 ≤ entry ∧ entry < 2147483648)
    {counts : List ℕ} (hsize : counts.length < 2147483648) {bound : ℕ} (hcounts : ∀ count ∈ counts, count ≤ bound)
    (hbound : bound + window.length < 2147483648) : window.foldlM countTurn (some (counts.map Nat.cast)) =
      .ok (some ((window.foldl (countStep counts.length) counts).map Nat.cast)) := by
  induction window generalizing counts bound with
  | nil => rfl
  | cons entry window ih =>
    rw [List.length_cons] at hbound
    obtain ⟨hlow, hhigh⟩ := hentries entry List.mem_cons_self
    have hturn := countTurn_eq hlow hhigh hsize fun count hcount => by
      have := hcounts count hcount
      omega
    have hlength := length_countStep counts.length counts entry
    have hrest := ih (fun e he => hentries e (List.mem_cons_of_mem entry he)) (by rw [hlength]; exact hsize)
      (countStep_le hcounts entry) (by omega)
    rw [hlength] at hrest
    rw [List.foldlM_cons, hturn, ok_bind, hrest, List.foldl_cons]

/-! ### The window -/

/-- The entries of the history at the positions up to the count, and behind the others when the count is
larger than the window. -/
def countedEntries (history : List ℤ) (historyCount repeatLastN : ℤ) : List ℤ :=
  let entries := history.take historyCount.toNat
  if repeatLastN < 0 then entries else entries.drop (historyCount - repeatLastN).toNat

theorem penaltyWindow_eq (history : List ℤ) {historyCount : ℤ} (h : 0 ≤ historyCount) (repeatLastN : ℤ) :
    penaltyWindow history historyCount.toNat repeatLastN = countedEntries history historyCount repeatLastN := by
  rw [penaltyWindow, countedEntries]
  split_ifs with hall
  · rfl
  · have hdrop : (max 1 ((historyCount.toNat : ℤ) - repeatLastN + 1) - 1).toNat = (historyCount - repeatLastN).toNat := by
      rcases max_cases (1 : ℤ) (historyCount.toNat - repeatLastN + 1) with ⟨heq, hle⟩ | ⟨heq, hlt⟩
      · rw [heq]
        omega
      · rw [heq]
        omega
    rw [hdrop]

theorem mem_of_mem_countedEntries {history : List ℤ} {historyCount repeatLastN entry : ℤ}
    (h : entry ∈ countedEntries history historyCount repeatLastN) : entry ∈ history := by
  rw [countedEntries] at h
  split_ifs at h
  · exact List.mem_of_mem_take h
  · exact List.mem_of_mem_take (List.mem_of_mem_drop h)

theorem length_countedEntries_le (history : List ℤ) (historyCount repeatLastN : ℤ) :
    (countedEntries history historyCount repeatLastN).length ≤ history.length := by
  rw [countedEntries]
  split_ifs
  · exact List.length_take_le' _ _
  · rw [List.length_drop]
    exact (Nat.sub_le _ _).trans (List.length_take_le' _ _)

/-- A turn counts at the index of the token only. -/
theorem getElem?_countStep {size i : ℕ} (hi : i < size) (counts : List ℕ) (entry : ℤ) :
    (countStep size counts entry)[i]? = counts[i]?.map fun count => count + if entry = i then 1 else 0 := by
  rw [countStep]
  by_cases hentry : entry = i
  · have hin : 1 ≤ entry + 1 ∧ entry + 1 ≤ size := by omega
    have hindex : entry.toNat = i := by omega
    rw [if_pos hin, hindex, List.getElem?_modify_eq, if_pos hentry]
    rfl
  · -- no other token has the index
    simp only [if_neg hentry, Nat.add_zero, Option.map_id']
    split_ifs with hin
    · have hindex : entry.toNat ≠ i := by omega
      simp only [List.getElem?_modify, if_neg hindex]
      exact Option.map_id'
    · rfl

/-- How often each token of the vocabulary is counted. -/
theorem getElem?_countTokens (size : ℕ) (window : List ℤ) {i : ℕ} (hi : i < size) :
    (countTokens size window)[i]? = some (window.count (i : ℤ)) := by
  have hfold : ∀ counts : List ℕ,
      (window.foldl (countStep size) counts)[i]? = counts[i]?.map (· + window.count (i : ℤ)) := by
    induction window with
    | nil => exact fun counts => Option.map_id'.symm
    | cons entry window ih =>
      intro counts
      have hbeq : (entry == (i : ℤ)) = decide (entry = i) := rfl
      rw [List.foldl_cons, ih, getElem?_countStep hi, Option.map_map, List.count_cons, hbeq]
      congr 1
      funext count
      simp only [Function.comp_apply, decide_eq_true_eq]
      omega
  rw [countTokens_eq, hfold, List.getElem?_replicate_of_lt hi, Option.map_some, Nat.zero_add]

/-! ### The loops -/

/-- What a turn does to a logit. -/
theorem penaltyTurn_eq (options : SamplingOptions R) {counts : List ℕ} {i : ℕ} (hi : i < counts.length) {ys : List R}
    {value : R} (hvalue : ys[i]? = some value) :
    penaltyTurn options (some (counts.map Nat.cast)) (some ys) (i + 1) =
      .ok (some (ys.set i (penalise options value counts[i]))) := by
  have hlength : i < (counts.map (Nat.cast : ℕ → ℤ)).length := by rw [List.length_map]; exact hi
  have hcount : (counts.map (Nat.cast : ℕ → ℤ)).getD i 0 = (counts[i] : ℤ) := by
    rw [List.getD_eq_getElem?_getD, List.getElem?_map, List.getElem?_eq_getElem hi]
    rfl
  obtain ⟨hy, hget⟩ := List.getElem?_eq_some_iff.mp hvalue
  rw [penaltyTurn, load_getD hlength 0, ok_bind, hcount, penalise]
  by_cases hzero : counts[i] = 0
  · have hset : ys.set i value = ys := by rw [← hget, List.set_getElem_self]
    rw [if_pos (by omega), if_pos hzero, hset]
    rfl
  · have hread : ys.getD i value = value := by rw [List.getD_eq_getElem?_getD, hvalue]; rfl
    rw [if_neg (by omega), if_neg hzero, load_getD hy value, ok_bind, hread, Int.toNat_natCast]
    dsimp only
    rw [store_eq hy]

/-- The loop over the logits. -/
theorem penaltyLoop_eq (options : SamplingOptions R) {logits : List R} {counts : List ℕ}
    (hcounts : counts.length = logits.length) :
    (List.range' 1 logits.length).foldlM (penaltyTurn options (some (counts.map Nat.cast))) (some logits) =
      .ok (some (List.zipWith (penalise options) logits counts)) := by
  have hloop := @foldlM_update Unit R (fun i => ((List.zipWith (penalise options) logits counts)[i]?).getD zero)
    (penaltyTurn options (some (counts.map Nat.cast))) logits fun ys i hi hy => by
      have hcount : i < counts.length := hcounts ▸ hi
      rw [penaltyTurn_eq options hcount hy, List.getElem?_zipWith, List.getElem?_eq_getElem hi,
        List.getElem?_eq_getElem hcount]
      rfl
  rw [hloop]
  congr 2
  refine List.ext_getElem? fun i => ?_
  rw [List.getElem?_map]
  by_cases hi : i < logits.length
  · have hzip : i < (List.zipWith (penalise options) logits counts).length := by
      rw [List.length_zipWith, hcounts, Nat.min_self]
      exact hi
    rw [List.getElem?_range hi, Option.map_some, List.getElem?_eq_getElem hzip, Option.getD_some]
  · have hrange : (List.range logits.length)[i]? = none :=
      List.getElem?_eq_none (by rw [List.length_range]; exact Nat.not_lt.mp hi)
    have hzip : (List.zipWith (penalise options) logits counts)[i]? = none :=
      List.getElem?_eq_none (by rw [List.length_zipWith, hcounts, Nat.min_self]; exact Nat.not_lt.mp hi)
    rw [hrange, hzip]
    rfl

theorem zipWith_replicate_zero (options : SamplingOptions R) (logits : List R) :
    List.zipWith (penalise options) logits (List.replicate logits.length 0) = logits := by
  induction logits with
  | nil => rfl
  | cons value logits ih =>
    rw [List.length_cons, List.replicate_succ, List.zipWith_cons_cons, ih]
    rfl

/-- The bounds of the loop over the history. -/
structure Bounds (history : List ℤ) (historyCount repeatLastN first last : ℤ) : Prop where
  count : 0 < historyCount
  first_eq : (if repeatLastN < 0 then 1
    else if 1 < historyCount - repeatLastN + 1 then historyCount - repeatLastN + 1 else 1) = first
  last_eq : (if historyCount < history.length then historyCount else (history.length : ℤ)) = last

namespace Bounds

variable {history : List ℤ} {historyCount repeatLastN first last : ℤ}

/-- The entries of the window, by the bounds. -/
theorem entries_eq (h : Bounds history historyCount repeatLastN first last) :
    1 ≤ first ∧ countedEntries history historyCount repeatLastN =
      (history.drop (first - 1).toNat).take (historyCount.toNat - (first - 1).toNat) := by
  have hcount := h.count
  have hfirst := h.first_eq
  rw [countedEntries, List.drop_take]
  split_ifs at hfirst ⊢ with hall
  · have hzero : (first - 1).toNat = 0 := by omega
    rw [hzero, List.drop_zero, Nat.sub_zero]
    exact ⟨by omega, rfl⟩
  all_goals
    have hsame : (historyCount - repeatLastN).toNat = (first - 1).toNat := by omega
    rw [hsame]
    exact ⟨by omega, rfl⟩

/-- Nothing of the history is in the window. -/
theorem entries_eq_nil (h : Bounds history historyCount repeatLastN first last) (hempty : last < first) :
    countedEntries history historyCount repeatLastN = [] := by
  obtain ⟨hpos, hentries⟩ := h.entries_eq
  have hlast := h.last_eq
  rw [hentries]
  by_cases hshort : history.length ≤ (first - 1).toNat
  · rw [List.drop_eq_nil_of_le hshort, List.take_nil]
  · have hzero : historyCount.toNat - (first - 1).toNat = 0 := by split_ifs at hlast <;> omega
    rw [hzero, List.take_zero]

/-- The loop over the history goes over the entries of the window. -/
theorem foldlM_eq (h : Bounds history historyCount repeatLastN first last) (hsome : ¬ last < first)
    (counts : Allocatable ℤ) :
    (positions first last).foldlM (fun counts i => load (some history) i >>= countTurn counts) counts =
      (countedEntries history historyCount repeatLastN).foldlM countTurn counts := by
  obtain ⟨hpos, hentries⟩ := h.entries_eq
  have hlast := h.last_eq
  have hplace : first.toNat = (first - 1).toNat + 1 := by omega
  have hwithin : (first - 1).toNat + (last + 1 - first).toNat ≤ history.length := by split_ifs at hlast <;> omega
  have htake : (history.drop (first - 1).toNat).take (last + 1 - first).toNat =
      (history.drop (first - 1).toNat).take (historyCount.toNat - (first - 1).toNat) := by
    have hlength : (history.drop (first - 1).toNat).length = history.length - (first - 1).toNat := List.length_drop
    split_ifs at hlast with hlong
    · have hsame : (last + 1 - first).toNat = historyCount.toNat - (first - 1).toNat := by omega
      rw [hsame]
    · rw [List.take_of_length_le (by omega), List.take_of_length_le (by omega)]
  rw [hentries, positions, hplace, foldlM_load _ hwithin, htake]

end Bounds

/-- The loop over the history counts the tokens of the window. -/
theorem countWindow_eq {logits adjusted : List R} {counts history : List ℤ} (h : Called logits adjusted counts history)
    (historyCount repeatLastN : ℤ) :
    (countedEntries history historyCount repeatLastN).foldlM countTurn (some (List.replicate counts.length 0)) =
      .ok (some ((countTokens logits.length (countedEntries history historyCount repeatLastN)).map Nat.cast)) := by
  have hwindow := length_countedEntries_le history historyCount repeatLastN
  have hvocabulary := h.vocabulary
  have hshort := h.length
  have hsize : (List.replicate logits.length 0).length = logits.length := List.length_replicate
  have hzeros : List.replicate counts.length (0 : ℤ) = (List.replicate logits.length 0).map Nat.cast := by
    rw [List.map_replicate, Nat.cast_zero, h.counts]
  have hloop := @countLoop_eq (countedEntries history historyCount repeatLastN)
    (fun entry hentry => h.entries entry (mem_of_mem_countedEntries hentry)) (List.replicate logits.length 0) (by omega) 0
    (fun count hcount => (List.eq_of_mem_replicate hcount).le) (by omega)
  rw [hzeros, hloop, hsize, countTokens_eq]

/-- The procedure computes what the model of the samplers says, whatever the work arrays hold before. -/
theorem applySamplingPenalties_eq {logits adjusted : List R} {counts history : List ℤ}
    (h : Called logits adjusted counts history) (historyCount : ℤ) (options : SamplingOptions R) :
    ∃ after, applySamplingPenalties logits adjusted counts history historyCount options =
      .ok (some (FortAI.applySamplingPenalties logits history historyCount.toNat options), some after) := by
  rw [applySamplingPenalties, if_neg (not_not.mpr h.adjusted), FortAI.applySamplingPenalties]
  by_cases hnone : options.repeatLastN = 0 ∨ historyCount ≤ 0
  · have hstop : options.repeatLastN = 0 ∨ historyCount.toNat = 0 := hnone.imp_right fun hle => by omega
    rw [if_pos hstop]
    exact ⟨_, if_pos hnone⟩
  have hcount : 0 < historyCount := by omega
  have hgo : ¬ (options.repeatLastN = 0 ∨ historyCount.toNat = 0) := by omega
  dsimp only
  rw [if_neg hnone, if_neg hgo, penaltyWindow_eq history hcount.le]
  generalize hfirst : (if options.repeatLastN < 0 then 1
    else if 1 < historyCount - options.repeatLastN + 1 then historyCount - options.repeatLastN + 1 else 1) = first
  generalize hlast : (if historyCount < history.length then historyCount else (history.length : ℤ)) = last
  have hbounds : Bounds history historyCount options.repeatLastN first last := ⟨hcount, hfirst, hlast⟩
  by_cases hempty : last < first
  · have hzip : List.zipWith (penalise options) logits (countTokens logits.length []) = logits :=
      zipWith_replicate_zero options logits
    rw [hbounds.entries_eq_nil hempty, hzip]
    exact ⟨_, if_pos hempty⟩
  · have hlength : (countTokens logits.length (countedEntries history historyCount options.repeatLastN)).length =
        logits.length := countTokens_length _ _
    have hn : ((logits.length : ℤ) + 1 - 1).toNat = logits.length := by omega
    have hall : positions 1 logits.length = List.range' 1 logits.length := by
      rw [positions, hn]
      rfl
    rw [if_neg hempty, hbounds.foldlM_eq hempty, countWindow_eq h, ok_bind, hall,
      penaltyLoop_eq options hlength, ok_bind]
    exact ⟨_, rfl⟩

/-- The pick of the best token after it is the one of the model. -/
theorem greedyPenalized_eq {logits adjusted : List R} {counts history : List ℤ}
    (h : Called logits adjusted counts history) (historyCount : ℤ) (options : SamplingOptions R) :
    greedyPenalized logits adjusted counts history historyCount options =
      .ok (FortAI.greedyPenalized logits history historyCount.toNat options) := by
  obtain ⟨after, hafter⟩ := applySamplingPenalties_eq h historyCount options
  rw [greedyPenalized, FortAI.greedyPenalized, penalisedLogits, hafter, ok_bind]
  split_ifs with hactive hlength
  · rfl
  · exact absurd h.adjusted hlength
  · rfl

/-! ### What is changed -/

/-- The repeat rule. -/
def repeatRule (options : SamplingOptions R) (value : R) : R :=
  if eq options.repeatPenalty one then value
  else if lt zero value then div value options.repeatPenalty
  else mul value options.repeatPenalty

/-- The logits of the tokens in the window are changed, by the repeat rule and by what is subtracted, and
the others are not. -/
def Applied (options : SamplingOptions R) (logits after : List R) (window : List ℤ) : Prop :=
  after.length = logits.length ∧ ∀ (i : ℕ) (value : R), logits[i]? = some value →
    after[i]? = some (if (i : ℤ) ∈ window then
      sub (sub (repeatRule options value) options.presencePenalty)
        (mul options.frequencyPenalty (ofCount (window.count (i : ℤ))))
    else value)

/-- The last entries of the first ones; all of them for a negative number. -/
def lastEntries (history : List ℤ) (historyCount repeatLastN : ℤ) : List ℤ :=
  let first := history.take historyCount.toNat
  if repeatLastN < 0 then first else first.rtake repeatLastN.toNat

theorem countedEntries_eq_lastEntries {history : List ℤ} {historyCount : ℤ} (h : historyCount ≤ history.length)
    (repeatLastN : ℤ) : countedEntries history historyCount repeatLastN = lastEntries history historyCount repeatLastN := by
  rw [countedEntries, lastEntries]
  split_ifs with hall
  · rfl
  · have hlength : (history.take historyCount.toNat).length = historyCount.toNat := List.length_take_of_le (by omega)
    have hdrop : (historyCount - repeatLastN).toNat = historyCount.toNat - repeatLastN.toNat := by omega
    rw [List.rtake, hlength, hdrop]

theorem applied_zipWith (options : SamplingOptions R) (logits : List R) (window : List ℤ) :
    Applied options logits (List.zipWith (penalise options) logits (countTokens logits.length window)) window := by
  refine ⟨?_, fun i value hvalue => ?_⟩
  · rw [List.length_zipWith, countTokens_length, Nat.min_self]
  · have hi : i < logits.length := (List.getElem?_eq_some_iff.mp hvalue).1
    rw [List.getElem?_zipWith, hvalue, getElem?_countTokens _ window hi]
    by_cases hmem : (i : ℤ) ∈ window
    · have hpos : window.count (i : ℤ) ≠ 0 := (List.count_pos_iff.mpr hmem).ne'
      rw [if_pos hmem]
      exact congrArg some (if_neg hpos)
    · rw [if_neg hmem, List.count_eq_zero_of_not_mem hmem]
      rfl

/-- Without a window nothing is changed. -/
theorem countedEntries_eq_nil {history : List ℤ} {historyCount repeatLastN : ℤ} (h : repeatLastN = 0 ∨ historyCount ≤ 0) :
    countedEntries history historyCount repeatLastN = [] := by
  rw [countedEntries]
  rcases h with rfl | hcount
  · rw [if_neg (Int.lt_irrefl 0), Int.sub_zero, List.drop_eq_nil_iff]
    exact List.length_take_le _ _
  · have hzero : historyCount.toNat = 0 := by omega
    rw [hzero, List.take_zero, List.drop_nil, ite_self]

/-- The tokens that are changed are those of the entries up to the count and behind the others that the
window leaves out, each once and by how often it occurs there; up to the length of the history these are
the last entries of the first ones. -/
theorem penalised_of_window {logits adjusted : List R} {counts history : List ℤ}
    (h : Called logits adjusted counts history) (historyCount : ℤ) (options : SamplingOptions R) :
    (∃ after counted, applySamplingPenalties logits adjusted counts history historyCount options =
        .ok (some after, some counted) ∧
      Applied options logits after (countedEntries history historyCount options.repeatLastN)) ∧
      (historyCount ≤ history.length → countedEntries history historyCount options.repeatLastN =
        lastEntries history historyCount options.repeatLastN) := by
  refine ⟨?_, fun hshort => countedEntries_eq_lastEntries hshort _⟩
  obtain ⟨counted, hrun⟩ := applySamplingPenalties_eq h historyCount options
  refine ⟨_, counted, hrun, ?_⟩
  rw [FortAI.applySamplingPenalties]
  split_ifs with hnone
  · have hstop : options.repeatLastN = 0 ∨ historyCount ≤ 0 := hnone.imp_right fun hzero => by omega
    have hzip := applied_zipWith options logits []
    rw [show countTokens logits.length [] = List.replicate logits.length 0 from rfl, zipWith_replicate_zero] at hzip
    rw [countedEntries_eq_nil hstop]
    exact hzip
  · rw [penaltyWindow_eq history (show 0 ≤ historyCount by omega)]
    exact applied_zipWith options logits _

/-- Penalties over the last entry only. -/
def lastEntryOnly : SamplingOptions ℚ :=
  { topK := 40, topP := 1, minP := 0, repeatPenalty := 2, presencePenalty := 1, frequencyPenalty := 1, repeatLastN := 1 }

theorem penalised_of_window_two :
    (∃ after counted, applySamplingPenalties [2, -1, 1] [0, 0, 0] [7, 7, 7] [1, 2, 0] 2 lastEntryOnly =
        .ok (some after, some counted) ∧ Applied lastEntryOnly [2, -1, 1] after (countedEntries [1, 2, 0] 2 1)) ∧
      ((2 : ℤ) ≤ ([1, 2, 0] : List ℤ).length → countedEntries [1, 2, 0] 2 1 = lastEntries [1, 2, 0] 2 1) :=
  penalised_of_window (show Called ([2, -1, 1] : List ℚ) [0, 0, 0] [7, 7, 7] [1, 2, 0] from
    ⟨rfl, rfl, by decide, by decide, by decide⟩) 2 lastEntryOnly

/-- With a count behind the end of the history, the last entry there is not in the window. -/
theorem not_lastEntries_behind : ¬ ∃ after counted,
    applySamplingPenalties [1] [0] [0] [0] 2 lastEntryOnly = .ok (some after, some counted) ∧
      Applied lastEntryOnly [1] after (lastEntries [0] 2 1) := by
  rintro ⟨after, counted, hrun, -, hafter⟩
  have hsame : applySamplingPenalties [1] [0] [0] [0] 2 lastEntryOnly = .ok (some [1], some [0]) := rfl
  rw [hsame, Except.ok.injEq, Prod.mk.injEq, Option.some.injEq] at hrun
  obtain ⟨rfl, -⟩ := hrun
  have hone := hafter 0 1 rfl
  rw [if_pos (show ((0 : ℕ) : ℤ) ∈ lastEntries [0] 2 1 by decide)] at hone
  have hvalue := Option.some.inj hone
  revert hvalue
  decide +kernel

end Penalties

end FortAI
