import FortAI.Whisper.Format

/-!
# Opening a Whisper model

A file that opens holds its tensors one behind the other, with the sizes that their records say,
unless a product leaves the range of the machine.

* `Laid` : records and payloads as they stand in a file.
* `scanRecords_laid`, `exact_iff`, `fillFilters_isSome` : the records, their sizes, the filter bank.
* `safe_iff` : the files that are opened safely.
-/

namespace FortAI

namespace Whisper

open Binary

/-! ### What is in a file -/

/-- The records stand one behind the other, each in front of its payload, and less than the number
of dimensions of another one is left behind. -/
def Laid (size : ℕ) : Bytes → List Record → Prop
  | rest, [] => rest.length < 4
  | rest, r :: records => ∃ payload after : Bytes, rest = r.header ++ (payload ++ after) ∧
      (payload.length : ℤ) = r.byteCount ∧ r.fileOffset = size - (payload ++ after).length + 1 ∧
      Laid size after records

/-- The sizes of a record are those of its shape, as numbers without bounds. -/
structure Record.Exact (r : Record) : Prop where
  elements : r.elements = r.shape.prod
  blocks : blockSize r.valueType ∣ r.elements
  byteCount : r.byteCount = r.elements / blockSize r.valueType * typeSize r.valueType

/-- The sizes of the shape are in the range of the machine. -/
def Record.InRange (r : Record) : Prop :=
  r.shape.prod < 9223372036854775808 ∧
    r.shape.prod / blockSize r.valueType * typeSize r.valueType < 9223372036854775808

/-- The tensors of a file that is open are all the records in it, with their payloads inside. -/
def Sound (file : Bytes) (f : WhisperFile) : Prop :=
  (∃ header section_, readHeader file = .ok (header, section_) ∧
      Laid file.length section_ f.tensors) ∧
    ∀ r ∈ f.tensors, r.Exact

/-- Opening a file reports an error or returns sound tensors, and no index is out of bounds. -/
def Safe (file : Bytes) : Prop :=
  match openFile file with
  | .error _ => True
  | .outOfBounds => False
  | .opened f => Sound file f

/-- Where the header and the records are read, the filter bank has less than 2^31 values, and where
the filters and the vocabulary are as they should, the sizes of all tensors are in range. -/
def Regular (file : Bytes) : Prop :=
  ∀ header section_ records, readHeader file = .ok (header, section_) →
    scanRecords file.length section_ = .ok records →
    header.filterMel * header.filterFft < 2147483648 ∧
      (header.filterMel = header.hparams.nMels → header.filterFft = 201 → header.vocab ≠ [] →
        ∀ r ∈ records, r.InRange)

/-! ### Sizes -/

theorem tensorBytes_pos {valueType elements : ℤ} (h : 0 < tensorBytes valueType elements) :
    0 < blockSize valueType ∧ 0 < typeSize valueType ∧ elements.tmod (blockSize valueType) = 0 ∧
      tensorBytes valueType elements =
        wrap .int64 (elements.tdiv (blockSize valueType) * typeSize valueType) := by
  rw [tensorBytes] at h ⊢
  split_ifs at h ⊢ with hsize hblock
  · exact absurd h (lt_irrefl 0)
  · exact absurd h (lt_irrefl 0)
  · push Not at hsize hblock
    exact ⟨hsize.1, hsize.2, hblock, rfl⟩

/-- The sizes that are read are exact where they are in range. -/
theorem exact_iff {r : Record} {size : ℕ} {after : Bytes} (h : r.Read size after) :
    r.Exact ↔ r.InRange := by
  have hpos : 0 < tensorBytes r.valueType r.elements := h.byteCount ▸ h.byteCount_pos
  obtain ⟨hblock, htype, hmod, hbytes⟩ := tensorBytes_pos hpos
  have hshape : ∀ d ∈ r.shape, 0 < d := fun d hd => (h.shape_pos d hd).1
  have hprod : 0 < r.shape.prod := List.prod_pos hshape
  rw [← h.byteCount] at hbytes
  constructor
  · intro hexact
    refine ⟨?_, ?_⟩
    · rw [← hexact.elements, h.elements]
      exact (product_mem .int64 r.shape).2
    · rw [← hexact.elements, ← hexact.byteCount, hbytes]
      exact (wrap_mem .int64 _).2
  · rintro ⟨helements, hcount⟩
    have heq : r.elements = r.shape.prod := h.elements.trans (product_eq_prod hshape helements)
    have hnonneg : 0 ≤ r.elements / blockSize r.valueType * typeSize r.valueType :=
      mul_nonneg (Int.ediv_nonneg (heq ▸ hprod.le) hblock.le) htype.le
    refine ⟨heq, Int.dvd_of_tmod_eq_zero hmod, ?_⟩
    rw [hbytes, Int.tdiv_eq_ediv_of_nonneg (heq ▸ hprod.le)]
    exact wrap_eq_self ((neg_nonpos.mpr (Int.natCast_nonneg _)).trans hnonneg) (heq ▸ hcount)

/-! ### The records -/

/-- The payload of a record that is read is in the file, and the next record begins behind it. -/
theorem Record.Read.payload {r : Record} {size : ℕ} {after : Bytes} (h : r.Read size after)
    (hsize : size < 9223372036854775808) (hafter : after.length ≤ size)
    (hnext : 0 < wrap .int64 (r.fileOffset + r.byteCount)) :
    wrap .int64 (r.fileOffset + r.byteCount) = r.fileOffset + r.byteCount ∧
      r.byteCount ≤ after.length := by
  have hoffset := h.fileOffset
  have hbytes : r.byteCount < 9223372036854775808 := by
    rw [h.byteCount, (tensorBytes_pos (h.byteCount ▸ h.byteCount_pos)).2.2.2]
    exact (wrap_mem .int64 _).2
  have hpos := h.byteCount_pos
  have hsum : r.fileOffset + r.byteCount < 9223372036854775808 := by
    by_contra hge
    have hwrap : wrap .int64 (r.fileOffset + r.byteCount) =
        r.fileOffset + r.byteCount - 18446744073709551616 := by
      rw [wrap]
      simp only [Width.limit]
      omega
    omega
  have hwrap : wrap .int64 (r.fileOffset + r.byteCount) = r.fileOffset + r.byteCount :=
    wrap_eq_self (by simp only [Width.limit]; omega) hsum
  have hfits := h.fits
  rw [hwrap, wrap_eq_self (by simp only [Width.limit]; omega) (by simp only [Width.limit]; omega)] at hfits
  exact ⟨hwrap, by omega⟩

/-- The records are all those that stand in the file. -/
theorem scanRecords_laid {size : ℕ} (hsize : size < 9223372036854775808) :
    ∀ {rest : Bytes} {records : List Record}, rest.length ≤ size →
      scanRecords size rest = .ok records →
        Laid size rest records ∧ ∀ r ∈ records, ∃ after, r.Read size after ∧ after.length ≤ size := by
  intro rest
  induction hn : rest.length using Nat.strong_induction_on generalizing rest with
  | h n ih =>
    intro records hle hscan
    subst hn
    rw [scanRecords] at hscan
    split at hscan
    · rename_i hnone
      obtain rfl := Except.ok.inj hscan
      refine ⟨?_, fun r hr => by cases hr⟩
      rw [readInt, Option.map_eq_none_iff, Binary.read] at hnone
      split_ifs at hnone with hfour
      exact not_le.mp hfour
    · rename_i nDims behind hdims
      split at hscan
      · cases hscan
      · rename_i r after hrecord
        obtain ⟨hheader, hread⟩ := readRecord_eq_ok hrecord
        rw [← (readInt_eq_some hdims).1] at hheader
        have hlength : after.length < rest.length := by
          have hbehind := congrArg List.length (readInt_eq_some hdims).1
          rw [List.length_append, length_encode] at hbehind
          have := readRecord_length hrecord
          have hfour : Width.size .int32 = 4 := rfl
          omega
        simp only at hscan
        split_ifs at hscan with hend hpos
        · -- the payload reaches the end of the file
          obtain rfl := Except.ok.inj hscan
          obtain ⟨hwrap, hpayload⟩ := hread.payload hsize (by omega) (by omega)
          have hoffset := hread.fileOffset
          refine ⟨⟨after, [], ?_, by omega, ?_, ?_⟩, ?_⟩
          · rw [List.append_nil, hheader]
          · rw [List.append_nil, hoffset]
          · exact Nat.zero_lt_succ _
          · intro r' hr'
            rw [List.mem_singleton.mp hr']
            exact ⟨after, hread, by omega⟩
        · obtain ⟨hwrap, hpayload⟩ := hread.payload hsize (by omega) (by omega)
          have hdrop : (wrap .int64 (r.fileOffset + r.byteCount) - r.fileOffset).toNat =
              r.byteCount.toNat := by
            rw [hwrap]
            omega
          rw [hdrop] at hscan
          split at hscan
          · cases hscan
          · rename_i records hrest
            obtain rfl := Except.ok.inj hscan
            obtain ⟨hlaid, hall⟩ := ih (after.drop r.byteCount.toNat).length (by
              rw [List.length_drop]
              omega) rfl (by
              rw [List.length_drop]
              omega) hrest
            have hcount := hread.byteCount_pos
            refine ⟨⟨after.take r.byteCount.toNat, after.drop r.byteCount.toNat, ?_, ?_, ?_, hlaid⟩,
              List.forall_mem_cons.mpr ⟨⟨after, hread, by omega⟩, hall⟩⟩
            · rw [List.take_append_drop, hheader]
            · rw [List.length_take]
              omega
            · rw [List.take_append_drop, hread.fileOffset]

/-! ### The filter bank -/

theorem collect_isSome {α : Type} (f : ℤ → Option α) (n : ℕ) (i : ℤ) :
    (collect f n i).isSome = true ↔ ∀ k : ℕ, k < n → (f (i + k)).isSome = true := by
  induction n generalizing i with
  | zero => exact iff_of_true rfl fun k hk => absurd hk (Nat.not_lt_zero k)
  | succ n ih =>
    have hrest := ih (i + 1)
    have hsplit : (∀ k : ℕ, k < n + 1 → (f (i + k)).isSome = true) ↔
        (f i).isSome = true ∧ ∀ k : ℕ, k < n → (f (i + 1 + k)).isSome = true := by
      constructor
      · intro h
        refine ⟨by simpa using h 0 (Nat.succ_pos n), fun k hk => ?_⟩
        have := h (k + 1) (Nat.succ_lt_succ hk)
        rwa [Nat.cast_succ, add_comm (k : ℤ), ← add_assoc] at this
      · rintro ⟨h0, h⟩ k hk
        cases k with
        | zero => simpa using h0
        | succ k =>
          rw [Nat.cast_succ, add_comm (k : ℤ), ← add_assoc]
          exact h k (Nat.lt_of_succ_lt_succ hk)
    rw [hsplit, ← hrest, collect]
    cases f i with
    | none => exact iff_of_false Bool.false_ne_true fun h => Bool.false_ne_true h.1
    | some x =>
      cases collect f n (i + 1) with
      | none => exact iff_of_false Bool.false_ne_true fun h => Bool.false_ne_true h.2
      | some xs => exact iff_of_true rfl ⟨rfl, rfl⟩

theorem collect_eq_some {α : Type} {f : ℤ → Option α} {n : ℕ} {i : ℤ} {xs : List α}
    (h : collect f n i = some xs) : xs.length = n ∧ ∀ x ∈ xs, ∃ j, f j = some x := by
  induction n generalizing i xs with
  | zero =>
    rw [← Option.some.inj h]
    exact ⟨rfl, fun x hx => by cases hx⟩
  | succ n ih =>
    rw [collect] at h
    split at h
    · cases h
    · rename_i x hx
      split at h
      · cases h
      · rename_i xs hxs
        obtain ⟨hlength, hall⟩ := ih hxs
        rw [← Option.some.inj h]
        exact ⟨congrArg (· + 1) hlength, List.forall_mem_cons.mpr ⟨⟨i, hx⟩, hall⟩⟩

theorem element_isSome {α : Type} (values : List α) (index : ℤ) :
    (element values index).isSome = true ↔ 1 ≤ index ∧ index ≤ values.length := by
  rw [element]
  split_ifs with hlow
  · exact iff_of_false Bool.false_ne_true fun h => not_le.mpr hlow h.1
  · rw [Option.isSome_iff_ne_none, Ne, List.getElem?_eq_none_iff]
    omega

/-- Every index of the filter bank is in bounds exactly when the number of values does not leave the
range of the machine. -/
theorem fillFilters_isSome {values : List ℤ} {mel fft : ℤ} (hmel : 0 < mel ∧ mel < 2147483648)
    (hfft : 0 < fft ∧ fft < 2147483648) (hlength : values.length = (wrap .int32 (mel * fft)).toNat) :
    (fillFilters values mel fft).isSome = true ↔ mel * fft < 2147483648 := by
  have hindex {i j : ℤ} (hi : 0 ≤ i ∧ i < 2147483648) (hproduct : 0 ≤ i * fft ∧ i * fft < 2147483648) :
      filterIndex fft (1 + i) j = wrap .int32 (i * fft + j) := by
    have hwrap (x : ℤ) (hx : 0 ≤ x ∧ x < 2147483648) : wrap .int32 x = x :=
      wrap_eq_self (by simp only [Width.limit]; omega) hx.2
    rw [filterIndex, add_sub_cancel_left, hwrap i hi, hwrap _ hproduct]
  rw [fillFilters, collect_isSome]
  constructor
  · intro h
    by_contra hge
    push Not at hge
    -- the first index behind the array
    have hcount : (values.length : ℤ) < 2147483648 := by
      have := wrap_mem .int32 (mel * fft)
      simp only [Width.limit] at this
      omega
    generalize hp : (values.length : ℤ) = p at hcount
    have hp0 : 0 ≤ p := hp ▸ Int.natCast_nonneg _
    have hrow : 0 ≤ p / fft ∧ p / fft < mel :=
      ⟨Int.ediv_nonneg hp0 hfft.1.le, Int.ediv_lt_of_lt_mul hfft.1 (by omega)⟩
    have hcolumn : 0 ≤ p % fft ∧ p % fft < fft :=
      ⟨Int.emod_nonneg p hfft.1.ne', Int.emod_lt_of_pos p hfft.1⟩
    have hsum : p / fft * fft + p % fft = p := by rw [mul_comm, Int.mul_ediv_add_emod]
    have hproduct : 0 ≤ p / fft * fft := mul_nonneg hrow.1 hfft.1.le
    have hcollect := h (p % fft).toNat (by omega)
    rw [collect_isSome] at hcollect
    have helement := hcollect (p / fft).toNat (by omega)
    rw [Int.toNat_of_nonneg hrow.1, Int.toNat_of_nonneg hcolumn.1, hindex ⟨hrow.1, by omega⟩
      ⟨hproduct, by omega⟩, element_isSome, hp] at helement
    have hnext : p / fft * fft + (1 + p % fft) = p + 1 := by omega
    rw [hnext, wrap] at helement
    simp only [Width.limit] at helement
    omega
  · intro hlt j hj
    rw [collect_isSome]
    intro i hi
    have hrow : ((i : ℤ) + 1) * fft ≤ mel * fft := mul_le_mul_of_nonneg_right (by omega) hfft.1.le
    have hproduct : 0 ≤ (i : ℤ) * fft := mul_nonneg (Int.natCast_nonneg i) hfft.1.le
    rw [add_mul, one_mul] at hrow
    have hpos : 0 < mel * fft := mul_pos hmel.1 hfft.1
    have hwhole : wrap .int32 (mel * fft) = mel * fft :=
      wrap_eq_self (by simp only [Width.limit]; omega) hlt
    rw [hwhole] at hlength
    rw [hindex (by omega) (by omega), element_isSome,
      wrap_eq_self (by simp only [Width.limit]; omega) (by simp only [Width.limit]; omega)]
    omega

theorem readTokens_length {n : ℕ} {rest after : Bytes} {tokens : List Bytes}
    (h : readTokens n rest = .ok (tokens, after)) : after.length ≤ rest.length := by
  induction n generalizing rest tokens with
  | zero => exact (Prod.mk.inj (Except.ok.inj h)).2 ▸ le_refl _
  | succ n ih =>
    rw [readTokens] at h
    split at h
    · cases h
    · rename_i length behind hlength
      split_ifs at h
      split at h
      · cases h
      · rename_i token behind' htoken
        split at h
        · cases h
        · rename_i tokens after' hrest
          obtain ⟨-, rfl⟩ := Prod.mk.inj (Except.ok.inj h)
          have hle := ih hrest
          rw [(readInt_eq_some hlength).1, (read_eq_some.mp htoken).1, List.length_append,
            List.length_append]
          omega

theorem readInts_length {n : ℕ} {rest after : Bytes} {xs : List ℤ}
    (h : readInts n rest = some (xs, after)) : after.length ≤ rest.length := by
  rw [(readInts_eq_some h).1, List.length_append]
  exact Nat.le_add_left _ _

/-- What the header holds that is read. -/
theorem readHeader_eq_ok {file section_ : Bytes} {header : Header}
    (h : readHeader file = .ok (header, section_)) :
    header.hparams.validate = none ∧ (0 < header.filterMel ∧ header.filterMel < 2147483648) ∧
      (0 < header.filterFft ∧ header.filterFft < 2147483648) ∧
      header.filterValues.length = (wrap .int32 (header.filterMel * header.filterFft)).toNat ∧
      section_.length ≤ file.length := by
  rw [readHeader] at h
  split at h
  · cases h
  · rename_i x rest hmagic
    split_ifs at h
    split at h
    · cases h
    · rename_i hparams rest' hread
      split at h
      · cases h
      · rename_i hvalid
        rw [readFilters] at h
        split at h
        · rename_i mel fft rest'' hsizes
          split_ifs at h with hpositive
          push Not at hpositive
          split at h
          · cases h
          · rename_i values rest₃ hvalues
            split at h
            · cases h
            · rename_i count rest₄ hcount
              split_ifs at h
              split at h
              · cases h
              · rename_i vocab rest₅ htokens
                obtain ⟨rfl, rfl⟩ := Prod.mk.inj (Except.ok.inj h)
                have hrange := (readInts_eq_some hsizes).2.2
                refine ⟨hvalid, ⟨hpositive.1, (hrange mel List.mem_cons_self).2⟩,
                  ⟨hpositive.2, (hrange fft (List.mem_cons_of_mem _ List.mem_cons_self)).2⟩,
                  (readInts_eq_some hvalues).2.1, ?_⟩
                have hhparams : rest'.length ≤ rest.length := by
                  rw [readHparams] at hread
                  split at hread
                  · rename_i hints
                    obtain ⟨-, rfl⟩ := Prod.mk.inj (Option.some.inj hread)
                    exact readInts_length hints
                  · cases hread
                have h1 := congrArg List.length (readInt_eq_some hmagic).1
                have h2 := readInts_length hsizes
                have h3 := readInts_length hvalues
                have h4 := congrArg List.length (readInt_eq_some hcount).1
                have h5 := readTokens_length htokens
                rw [List.length_append] at h1 h4
                omega
        · cases h

/-! ### Opening a file -/

/-- A file that was read passes the final checks exactly when the filters and the vocabulary are as
they should, and there is a tensor. -/
theorem validate_eq_none {f : WhisperFile} (hvalid : f.hparams.validate = none) (hmel : 0 < f.filterMel)
    (hfft : 0 < f.filterFft) {values : List ℤ}
    (hfilters : fillFilters values f.filterMel f.filterFft = some f.filters)
    (hread : ∀ r ∈ f.tensors, ∃ after, r.Read f.fileSize after ∧ after.length ≤ f.fileSize) :
    f.validate = none ↔ f.filterMel = f.hparams.nMels ∧ f.filterFft = 201 ∧ f.vocab ≠ [] ∧ f.tensors ≠ [] := by
  obtain ⟨hcolumns, hcolumn⟩ := collect_eq_some hfilters
  have hshape : ¬ ((f.filters.length : ℤ) ≠ f.filterFft ∨
      (f.filters.any (·.length ≠ f.filterMel)) = true) := by
    rw [not_or, List.any_eq_true]
    refine ⟨by omega, ?_⟩
    rintro ⟨column, hmem, hne⟩
    obtain ⟨j, hj⟩ := hcolumn column hmem
    have := (collect_eq_some hj).1
    have := of_decide_eq_true hne
    omega
  have haccounting : ¬ (f.tensors.any fun r => tensorBytes r.valueType r.elements ≠ r.byteCount ||
      decide (r.fileOffset ≤ 0)) = true := by
    rw [List.any_eq_true]
    rintro ⟨r, hr, hwrong⟩
    obtain ⟨after, hread, hle⟩ := hread r hr
    rcases Bool.or_eq_true _ _ ▸ hwrong with hne | hnegative
    · exact of_decide_eq_true hne hread.byteCount.symm
    · have := of_decide_eq_true hnegative
      have := hread.fileOffset
      omega
  rw [WhisperFile.validate, hvalid]
  simp only [if_neg hshape, if_neg haccounting]
  split_ifs with hmismatch hvocab htensors
  · refine iff_of_false not_false fun h => ?_
    rcases hmismatch with hne | hne
    · exact hne h.1
    · exact hne h.2.1
  · exact iff_of_false not_false fun h =>
      h.2.2.1 (List.length_eq_zero_iff.mp (Nat.le_zero.mp hvocab))
  · exact iff_of_false not_false fun h => h.2.2.2 (List.length_eq_zero_iff.mp htensors)
  · push Not at hmismatch
    refine iff_of_true rfl ⟨hmismatch.1, hmismatch.2, ?_, ?_⟩
    · rintro hnil
      exact hvocab (by rw [hnil]; exact le_refl 0)
    · rintro hnil
      exact htensors (by rw [hnil]; rfl)

section

variable {file section_ : Bytes} {header : Header} {records : List Record}

theorem regular_of_header {e : OpenError} (h : readHeader file = .error e) : Regular file := by
  intro header section_ records h'
  rw [h] at h'
  cases h'

theorem regular_of_records {e : OpenError} (h : readHeader file = .ok (header, section_))
    (hscan : scanRecords file.length section_ = .error e) : Regular file := by
  intro header' section' records h' hscan'
  rw [h] at h'
  obtain ⟨rfl, rfl⟩ := Prod.mk.inj (Except.ok.inj h')
  rw [hscan] at hscan'
  cases hscan'

theorem regular_iff_inRange (h : readHeader file = .ok (header, section_))
    (hscan : scanRecords file.length section_ = .ok records) :
    Regular file ↔ header.filterMel * header.filterFft < 2147483648 ∧
      (header.filterMel = header.hparams.nMels → header.filterFft = 201 → header.vocab ≠ [] →
        ∀ r ∈ records, r.InRange) := by
  constructor
  · exact fun hregular => hregular header section_ records h hscan
  · intro hregular header' section' records' h' hscan'
    rw [h] at h'
    obtain ⟨rfl, rfl⟩ := Prod.mk.inj (Except.ok.inj h')
    rw [hscan] at hscan'
    exact Except.ok.inj hscan' ▸ hregular

end

instance (r : Record) : Decidable r.InRange := inferInstanceAs (Decidable (_ ∧ _))

instance decidableRegular (file : Bytes) : Decidable (Regular file) :=
  match h : readHeader file with
  | .error _ => .isTrue (regular_of_header h)
  | .ok (_, section_) =>
    match hscan : scanRecords file.length section_ with
    | .error _ => .isTrue (regular_of_records h hscan)
    | .ok _ => decidable_of_iff _ (regular_iff_inRange h hscan).symm

/-- **A file is opened safely** exactly when it is regular. -/
theorem safe_iff (file : Bytes) (hsize : file.length < 9223372036854775808) : Safe file ↔ Regular file := by
  rw [Safe]
  cases hheader : readHeader file with
  | error e =>
    have hopen : openFile file = .error e := by simp only [openFile, hheader]
    rw [hopen]
    exact iff_of_true trivial (regular_of_header hheader)
  | ok r =>
    obtain ⟨header, section_⟩ := r
    obtain ⟨hvalid, hmel, hfft, hlength, hle⟩ := readHeader_eq_ok hheader
    cases hscan : scanRecords file.length section_ with
    | error e =>
      have hopen : openFile file = .error e := by simp only [openFile, hheader, hscan]
      rw [hopen]
      exact iff_of_true trivial (regular_of_records hheader hscan)
    | ok records =>
      obtain ⟨hlaid, hread⟩ := scanRecords_laid hsize hle hscan
      rw [regular_iff_inRange hheader hscan]
      have hfill := fillFilters_isSome hmel hfft hlength
      cases hfilters : fillFilters header.filterValues header.filterMel header.filterFft with
      | none =>
        have hopen : openFile file = .outOfBounds := by simp only [openFile, hheader, hscan, hfilters]
        rw [hfilters] at hfill
        rw [hopen]
        exact iff_of_false not_false fun h => Bool.false_ne_true (hfill.mpr h.1)
      | some filters =>
        rw [hfilters] at hfill
        rw [and_iff_right (hfill.mp rfl)]
        generalize hf : (⟨header.hparams, header.filterMel, header.filterFft, filters, header.vocab, records,
          file.length⟩ : WhisperFile) = f
        have hvalidate : f.validate = none ↔ header.filterMel = header.hparams.nMels ∧
            header.filterFft = 201 ∧ header.vocab ≠ [] ∧ records ≠ [] := by
          rw [← hf]
          exact validate_eq_none hvalid hmel.1 hfft.1 hfilters hread
        have hexact : (∀ r ∈ records, r.Exact) ↔ ∀ r ∈ records, r.InRange :=
          forall₂_congr fun r hr => exact_iff (hread r hr).choose_spec.1
        cases hchecked : f.validate with
        | some e =>
          have hopen : openFile file = .error e := by
            simp only [openFile, hheader, hscan, hfilters, hf, hchecked]
          rw [hopen]
          refine iff_of_true trivial fun hmels hfft201 hvocab r hr => ?_
          have hnone := hvalidate.mpr ⟨hmels, hfft201, hvocab, List.ne_nil_of_mem hr⟩
          rw [hchecked] at hnone
          cases hnone
        | none =>
          have hopen : openFile file = .opened f := by
            simp only [openFile, hheader, hscan, hfilters, hf, hchecked]
          obtain ⟨hmels, hfft201, hvocab, -⟩ := hvalidate.mp hchecked
          have hsound : Sound file f ↔ ∀ r ∈ records, r.Exact := by
            rw [← hf]
            exact and_iff_right ⟨header, section_, hheader, hlaid⟩
          rw [hopen]
          exact hsound.trans (hexact.trans ⟨fun h _ _ _ => h, fun h => h hmels hfft201 hvocab⟩)

/-! ### A filter bank that is too large -/

/-- A file with these sizes of the filter bank, and no filters, no vocabulary and no tensors. -/
def filterFile (mel fft : ℤ) : Bytes :=
  ([magic, 1, 1, 1, 1, 1, 1, 1, 1, 1, 1, 0, mel, fft, 0] : List ℤ).flatMap (encode .int32)

/-- The product of the sizes wraps to a negative number, and the first filter is out of bounds. -/
theorem not_safe_filterFile : ¬ ∀ file : Bytes, Safe file := by
  intro h
  have hopen : (match openFile (filterFile 2 1073741824) with
      | .outOfBounds => true
      | _ => false) = true := by decide +kernel
  have hsafe := h (filterFile 2 1073741824)
  rw [Safe] at hsafe
  cases hcase : openFile (filterFile 2 1073741824) with
  | outOfBounds =>
    rw [hcase] at hsafe
    exact hsafe
  | error e =>
    rw [hcase] at hopen
    exact Bool.false_ne_true hopen
  | opened f =>
    rw [hcase] at hopen
    exact Bool.false_ne_true hopen

/-- A file with one token and one tensor of one number, whose filters are zero. -/
def smallFile : Bytes :=
  ([magic, 1, 1, 1, 1, 1, 1, 1, 1, 1, 1, 0, 1, 201] ++ List.replicate 201 0 ++ [1, 0] ++
    [1, 0, 0, 1, 7] : List ℤ).flatMap (encode .int32)

set_option maxRecDepth 20000 in
theorem safe_smallFile : Safe smallFile :=
  have hregular : Regular smallFile := by decide +kernel
  (safe_iff smallFile (by decide +kernel)).mpr hregular

end Whisper

end FortAI
