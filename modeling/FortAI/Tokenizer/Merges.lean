import FortAI.Machine.Merging
import FortAI.Tokenizer.RoundTrip

/-!
# The order of the merges

`encodePiece` merges one pair at a time, the first one of the lowest rank.  The reference algorithm
(`referenceSymbols`) goes by rounds and merges all occurrences of the pair of the lowest rank.

* `mergeSymbols_step` : a pass of the code is a step in the sense of `Merging`.
* `merge_order` : both make the same tokens, as long as no merge makes an operand of a merge of the
  same or a lower rank.
* `crossed_not_reference` : where a text is the result of two merges, being the result of an earlier
  merge is not enough.
-/

namespace FortAI

namespace Tokenizer

open CString Utf8 Merging

/-- What `encode_piece` does with the symbols that are left. -/
def writeSymbols (self : Vocabulary) (capacity : ℕ) (output : List ℤ) (symbols : List Bytes) : List ℤ :=
  symbols.foldl
    (fun output symbol =>
      match symbolToken self symbol with
      | some id => push capacity output id
      | none => output) output

/-- The symbols of a piece by the reference algorithm. -/
def referenceSymbols (self : Vocabulary) (raw : Bytes) : List Bytes :=
  rounds self.lookupMerge (· ++ ·) (raw.map byteSymbol)

/-- The operands of each merge are byte symbols, or results of merges listed before it. -/
def OperandsListed (self : Vocabulary) : Prop :=
  ∀ (i : ℕ) (left right : Bytes), self.merges[i]? = some (left, right) →
    ∀ operand ∈ [left, right], (∃ b, operand = byteSymbol b) ∨
      ∃ (j : ℕ) (x y : Bytes), j < i ∧ self.merges[j]? = some (x, y) ∧ x ++ y = operand

/-- No merge makes an operand of a merge of the same or a lower rank. -/
def ResultsFirst (self : Vocabulary) : Prop := Ordered self.lookupMerge (· ++ ·)

section
variable {self : Vocabulary}

theorem lookupMerge_distinct : Distinct self.lookupMerge := by
  intro x y x' y' r h h'
  have hpair := Vocabulary.lookupMerge_eq_some h
  rw [Vocabulary.lookupMerge_eq_some h', Option.some.injEq, Prod.mk.injEq] at hpair
  exact ⟨hpair.1.symm, hpair.2.symm⟩

/-! ### Passes of the loop -/

/-- Once a pair of the lowest rank is found it is kept. -/
theorem scanPairs_keep {r j : ℕ} (symbols : List Bytes) (i : ℕ)
    (h : Least self.lookupMerge r symbols) :
    scanPairs self symbols i (some (r, j)) = some (r, j) := by
  induction symbols generalizing i with
  | nil => rfl
  | cons left symbols ih =>
    cases symbols with
    | nil => rfl
    | cons right rest =>
      have hkeep : lower (self.lookupMerge left right) i (some (r, j)) = some (r, j) := by
        cases hrank : self.lookupMerge left right with
        | none => rfl
        | some candidate =>
          have hle := h left right candidate (adjacent_cons_cons left right rest) hrank
          exact if_neg (by simpa using hle)
      rw [scanPairs, hkeep]
      exact ih (i + 1) fun a b s hadjacent => h a b s hadjacent.cons

/-- The loop finds the pair of a step. -/
theorem scanPairs_step {x y : Bytes} {t : List Bytes} {r : ℕ} (u : List Bytes) (i : ℕ)
    (best : Option (ℕ × ℕ)) (hbest : ∀ s j, best = some (s, j) → r < s)
    (h : Step self.lookupMerge u x y t r) :
    scanPairs self (u ++ x :: y :: t) i best = some (r, i + u.length) := by
  induction u generalizing i best with
  | nil =>
    have hfound : lower (self.lookupMerge x y) i best = some (r, i) := by
      rw [h.rank_eq, lower, if_pos]
      cases best with
      | none => rfl
      | some p => exact decide_eq_true (hbest p.1 p.2 rfl)
    rw [List.nil_append, scanPairs, hfound]
    exact scanPairs_keep _ _ fun a b s hadjacent => h.least a b s hadjacent.cons
  | cons a u ih =>
    have hrest : Step self.lookupMerge u x y t r :=
      ⟨h.rank_eq, fun c d s hadjacent => h.least c d s hadjacent.cons,
        fun c d s hadjacent => h.first c d s hadjacent.cons⟩
    obtain ⟨b, rest, hb, hadjacent⟩ : ∃ b rest, u ++ x :: y :: t = b :: rest ∧
        Adjacent a b (a :: u ++ [x]) := by
      cases u with
      | nil => exact ⟨x, y :: t, rfl, adjacent_cons_cons a x []⟩
      | cons b u => exact ⟨b, u ++ x :: y :: t, rfl, adjacent_cons_cons a b _⟩
    have hpass : scanPairs self (a :: u ++ x :: y :: t) i best =
        scanPairs self (u ++ x :: y :: t) (i + 1) (lower (self.lookupMerge a b) i best) := by
      rw [List.cons_append, hb, scanPairs]
    rw [hpass, ih (i + 1) _ ?_ hrest, List.length_cons]
    · congr 2
      omega
    · intro s j hs
      cases hrank : self.lookupMerge a b with
      | none =>
        rw [hrank] at hs
        exact hbest s j hs
      | some candidate =>
        rw [hrank, lower] at hs
        split_ifs at hs
        · have hcandidate : candidate = s := (Prod.mk.inj (Option.some.inj hs)).1
          exact hcandidate ▸ h.first a b candidate hadjacent hrank
        · exact hbest s j hs

theorem scanPairs_none (symbols : List Bytes) (i : ℕ)
    (h : ∀ a b, Adjacent a b symbols → self.lookupMerge a b = none) :
    scanPairs self symbols i none = none := by
  induction symbols generalizing i with
  | nil => rfl
  | cons left symbols ih =>
    cases symbols with
    | nil => rfl
    | cons right rest =>
      rw [scanPairs, h left right (adjacent_cons_cons left right rest)]
      exact ih (i + 1) fun a b hadjacent => h a b hadjacent.cons

theorem mergeSymbols_of_none {symbols : List Bytes} (h : scanPairs self symbols 0 none = none) :
    mergeSymbols self symbols = symbols := by
  rw [mergeSymbols]
  split
  · rfl
  · next hsome =>
    rw [h] at hsome
    cases hsome

theorem mergeSymbols_of_some {symbols : List Bytes} {rank best : ℕ}
    (h : scanPairs self symbols 0 none = some (rank, best)) :
    mergeSymbols self symbols = mergeSymbols self (mergeAt symbols best) := by
  rw [mergeSymbols]
  split
  · next hnone =>
    rw [h] at hnone
    cases hnone
  · next hsome =>
    rw [h] at hsome
    cases hsome
    rfl

/-- A pass of the code is a step. -/
theorem mergeSymbols_step (u : List Bytes) (x y : Bytes) (t : List Bytes) (r : ℕ)
    (h : Step self.lookupMerge u x y t r) :
    mergeSymbols self (u ++ x :: y :: t) = mergeSymbols self (u ++ (x ++ y) :: t) := by
  have hscan := scanPairs_step u 0 none (fun s j hs => by cases hs) h
  rw [mergeSymbols_of_some hscan, Nat.zero_add, mergeAt_append]

theorem mergeSymbols_eq (h : ResultsFirst self) (raw : Bytes) :
    mergeSymbols self (raw.map byteSymbol) = referenceSymbols self raw :=
  eq_rounds mergeSymbols_step (fun w hw => mergeSymbols_of_none (scanPairs_none w 0 hw)) h
    lookupMerge_distinct _

/-! ### Tokens -/

/-- Listed symbols are looked up without loss, and written while there is room. -/
theorem writeSymbols_eq {capacity : ℕ} (symbols : List Bytes)
    (h : ∀ symbol ∈ symbols, symbol ∈ self.tokens) :
    ∃ ids : List ℕ, (ids.map fun id => self.tokens[id]?) = symbols.map some ∧
      ∀ output : List ℤ, output.length + symbols.length ≤ capacity →
        writeSymbols self capacity output symbols = output ++ ids.map (fun id => (id : ℤ)) := by
  induction symbols with
  | nil => exact ⟨[], rfl, fun output _ => (List.append_nil output).symm⟩
  | cons symbol symbols ih =>
    rw [List.forall_mem_cons] at h
    obtain ⟨id, hid⟩ := Vocabulary.lookupVocabulary_of_mem h.1
    obtain ⟨ids, hids, hwrite⟩ := ih h.2
    have htoken : symbolToken self symbol = some id := by
      rw [symbolToken, hid]
      rfl
    refine ⟨id :: ids, ?_, fun output hroom => ?_⟩
    · rw [List.map_cons, hids, Vocabulary.lookupVocabulary_eq_some hid, List.map_cons]
    · rw [List.length_cons] at hroom
      have hrest := hwrite (output ++ [(id : ℤ)])
        (by rw [List.length_append, List.length_singleton]; omega)
      rw [writeSymbols] at hrest ⊢
      rw [List.foldl_cons, htoken]
      simp only
      rw [push, if_pos (by omega), hrest, List.append_assoc]
      rfl

end

/-- The tokens of a piece are those of the reference algorithm, and each of its symbols is found. -/
theorem merge_order (self : Vocabulary) (hresults : ResultsFirst self) (hlisted : Listed self)
    (capacity : ℕ) (output : List ℤ) (raw : Bytes) :
    encodePiece self capacity output raw =
        writeSymbols self capacity output (referenceSymbols self raw) ∧
      ∃ ids : List ℕ, (ids.map fun id => self.tokens[id]?) = (referenceSymbols self raw).map some ∧
        (output.length + (referenceSymbols self raw).length ≤ capacity →
          encodePiece self capacity output raw = output ++ ids.map (fun id => (id : ℤ))) := by
  have heq : encodePiece self capacity output raw =
      writeSymbols self capacity output (referenceSymbols self raw) := by
    rw [← mergeSymbols_eq hresults]
    rfl
  obtain ⟨-, -, -, -, htokens⟩ := mergeSymbols_spell hlisted _ (spell_bytes hlisted raw)
  rw [mergeSymbols_eq hresults] at htokens
  obtain ⟨ids, hids, hwrite⟩ := writeSymbols_eq (referenceSymbols self raw) htokens
  exact ⟨heq, ids, hids, fun hroom => heq.trans (hwrite output hroom)⟩

/-- The byte symbols and a merge of the letters `a` and `b`. -/
def pairVocabulary : Vocabulary where
  tokens := byteVocabulary.tokens ++ [ascii "ab"]
  merges := [(ascii "a", ascii "b")]
  bosToken := -1
  addBosToken := false
  qwen35Pretokenizer := true

theorem pairVocabulary_listed : Listed pairVocabulary where
  bytes b := List.mem_append_left _ (byteVocabulary_complete.bytes b)
  merges pair hpair := by
    rw [List.mem_singleton.mp hpair]
    exact List.mem_append_right _ (List.mem_singleton.mpr rfl)

theorem pairVocabulary_resultsFirst : ResultsFirst pairVocabulary := by
  have honly {x y : Bytes} {r : ℕ} (h : pairVocabulary.lookupMerge x y = some r) :
      x = ascii "a" ∧ y = ascii "b" := by
    have hmem := List.mem_of_getElem? (Vocabulary.lookupMerge_eq_some h)
    exact Prod.mk.inj (List.mem_singleton.mp hmem)
  intro x y r h z s hresult
  obtain ⟨rfl, rfl⟩ := honly h
  rcases hresult with hleft | hright
  · exact absurd (honly hleft).1 (by decide)
  · exact absurd (honly hright).2 (by decide)

theorem merge_order_pairVocabulary :
    encodePiece pairVocabulary 16 [] (ascii "abab") =
        writeSymbols pairVocabulary 16 [] (referenceSymbols pairVocabulary (ascii "abab")) ∧
      ∃ ids : List ℕ, (ids.map fun id => pairVocabulary.tokens[id]?) =
          (referenceSymbols pairVocabulary (ascii "abab")).map some ∧
        (([] : List ℤ).length + (referenceSymbols pairVocabulary (ascii "abab")).length ≤ 16 →
          encodePiece pairVocabulary 16 [] (ascii "abab") = [] ++ ids.map (fun id => (id : ℤ))) :=
  merge_order pairVocabulary pairVocabulary_resultsFirst pairVocabulary_listed 16 [] (ascii "abab")

/-! ### A text that is the result of two merges -/

/-- `abc` is the result of the merges of rank 2 and 4, and an operand of that of rank 3. -/
def crossed : Vocabulary where
  tokens := [ascii "a", ascii "b", ascii "c", ascii "bc", ascii "ab", ascii "abc", ascii "abca"]
  merges := [(ascii "b", ascii "c"), (ascii "a", ascii "b"), (ascii "ab", ascii "c"),
    (ascii "abc", ascii "a"), (ascii "a", ascii "bc")]
  bosToken := -1
  addBosToken := false
  qwen35Pretokenizer := true

theorem mergeSymbols_crossed :
    mergeSymbols crossed ((ascii "abcabc").map byteSymbol) = [ascii "abca", ascii "bc"] := by
  rw [mergeSymbols_of_some (show scanPairs crossed _ 0 none = some (0, 1) by decide),
    mergeSymbols_of_some (show scanPairs crossed _ 0 none = some (0, 3) by decide),
    mergeSymbols_of_some (show scanPairs crossed _ 0 none = some (4, 0) by decide),
    mergeSymbols_of_some (show scanPairs crossed _ 0 none = some (3, 0) by decide),
    mergeSymbols_of_none (by decide)]
  decide

theorem referenceSymbols_crossed : referenceSymbols crossed (ascii "abcabc") = [ascii "abc", ascii "abc"] := by
  rw [referenceSymbols,
    rounds_of_some (show lowest crossed.lookupMerge _ = some (0, ascii "b", ascii "c") by decide),
    rounds_of_some (show lowest crossed.lookupMerge _ = some (4, ascii "a", ascii "bc") by decide),
    rounds_of_none (by decide)]
  decide

theorem crossed_operandsListed : OperandsListed crossed := by
  have ha : ∃ b, ascii "a" = byteSymbol b := ⟨97, by decide⟩
  have hb : ∃ b, ascii "b" = byteSymbol b := ⟨98, by decide⟩
  have hc : ∃ b, ascii "c" = byteSymbol b := ⟨99, by decide⟩
  intro i left right hmerge operand hoperand
  simp only [List.mem_cons, List.not_mem_nil, or_false] at hoperand
  rcases i with _ | _ | _ | _ | _ | i <;> cases hmerge <;> rcases hoperand with rfl | rfl
  · exact .inl hb
  · exact .inl hc
  · exact .inl ha
  · exact .inl hb
  · exact .inr ⟨1, ascii "a", ascii "b", by omega, rfl, rfl⟩
  · exact .inl hc
  · exact .inr ⟨2, ascii "ab", ascii "c", by omega, rfl, rfl⟩
  · exact .inl ha
  · exact .inl ha
  · exact .inr ⟨0, ascii "b", ascii "c", by omega, rfl, rfl⟩

/-- Each operand is a byte symbol or the result of an earlier merge, and the code makes other tokens
than the reference algorithm; and a symbol that the vocabulary does not list is lost. -/
theorem crossed_not_reference :
    OperandsListed crossed ∧
      encodePiece crossed 16 [] (ascii "abcabc") = [6, 3] ∧
      writeSymbols crossed 16 [] (referenceSymbols crossed (ascii "abcabc")) = [5, 5] ∧
      encodePiece { crossed with tokens := [] } 16 [] (ascii "a") = [] := by
  refine ⟨crossed_operandsListed, ?_, ?_, ?_⟩
  · rw [encodePiece, mergeSymbols_crossed]
    decide
  · rw [referenceSymbols_crossed]
    decide
  · rw [encodePiece, mergeSymbols_of_none (by decide)]
    decide

end Tokenizer

end FortAI
