import FortAI.Machine.Numeral

/-!
# The tensor split

`fortai_parse_tensor_split` reads ratios into a static array of 16 numbers, given by their patterns.  A
C string is the list of its bytes.

* `parseTensorSplit_isSome_iff` : the strings that are accepted end in a comma.
* `specified_iff` : so a list of ratios without one is not.
-/

namespace FortAI

namespace Llama

open CString

/-! ### The routine -/

/-- `ratio <= 0.0f` -/
def ratioLeZero (ratio : ℕ) : Prop :=
  ¬ Format.single.IsNaN ratio ∧ (Format.single.Negative ratio ∨ Format.single.magnitude ratio = 0)

instance (ratio : ℕ) : Decidable (ratioLeZero ratio) := inferInstanceAs (Decidable (_ ∧ _))

/-- The loop, with room for so many ratios: the array, and `count` and `value` unless the routine has
returned. -/
def splitLoop (split : List ℕ) (count : ℕ) (value : Bytes) : ℕ → List ℕ × Option (ℕ × Bytes)
  | 0 => (split, some (count, value))
  | room + 1 =>
    if value = [] then (split, some (count, value))
    else
      let (ratio, rest) := strtof value
      if rest.length = value.length ∨ ratioLeZero ratio then (split, none)
      else
        let split := split.set count ratio
        match rest with
        | [] => (split, some (count + 1, value))
        | b :: next => if b ≠ comma then (split, none) else splitLoop split (count + 1) next room

/-- `fortai_parse_tensor_split`: the static array, and whether it is returned or `NULL` is. -/
def parseTensorSplit (split : List ℕ) : Option Bytes → List ℕ × Bool
  | none => (split, false)
  | some value =>
    if value = [] then (split, false)
    else
      match splitLoop split 0 value 16 with
      | (split, none) => (split, false)
      | (split, some (count, value)) => (split, !(count == 0 || value ≠ []))

/-- What a caller sees of it. -/
def tensorSplit (split : List ℕ) (value : Option Bytes) : Option (List ℕ) :=
  if (parseTensorSplit split value).2 then some (parseTensorSplit split value).1 else none

/-! ### Lists of ratios -/

/-- Positive numbers in decimals, from 1 to 16, with commas between them. -/
structure Listed (value : Bytes) (ratios : List ℚ) : Prop where
  length_mem : 1 ≤ ratios.length ∧ ratios.length ≤ 16
  pos : ∀ q ∈ ratios, 0 < q
  entries : ∃ entries : List Bytes, List.Forall₂ (fun e q => Scan.decimal e = some (q, [])) entries ratios ∧
    value = [comma].intercalate entries

/-- The number in single precision. -/
def ratioBits (q : ℚ) : ℕ := Nat.min (Format.single.nearest q) Format.single.infinity

/-- A list of ratios gives them with zeros behind, and anything else gives `NULL`. -/
def Specified (value : Bytes) (result : Option (List ℕ)) : Prop :=
  (∀ ratios, Listed value ratios →
    result = some (ratios.map ratioBits ++ List.replicate (16 - ratios.length) 0)) ∧
  ((∀ ratios, ¬ Listed value ratios) → result = none)

/-- From 1 to 16 entries that `strtof` reads to their end, no number up to zero among them, and a comma
behind each. -/
def EndsInComma (value : Bytes) : Prop :=
  ∃ entries : List Bytes, (1 ≤ entries.length ∧ entries.length ≤ 16) ∧
    (∀ e ∈ entries, (strtof e).2 = [] ∧ ¬ ratioLeZero (strtof e).1) ∧
    value = entries.flatMap fun e => e ++ [comma]

/-! ### What is accepted -/

/-- What `strtof` has read in front of a comma it reads without it too. -/
theorem strtof_eq_comma_iff {value next : Bytes} {ratio : ℕ} :
    strtof value = (ratio, comma :: next) ↔
      ∃ e, value = e ++ comma :: next ∧ strtof e = (ratio, []) := by
  constructor
  · intro h
    have hsuffix := strtof_suffix value
    rw [h] at hsuffix
    obtain ⟨e, rfl⟩ := hsuffix
    refine ⟨e, rfl, ?_⟩
    rw [strtof_append, Prod.mk.injEq] at h
    exact Prod.ext h.1 (List.append_cancel_right (h.2.trans (List.nil_append _).symm))
  · rintro ⟨e, rfl, he⟩
    rw [strtof_append, he, List.nil_append]

theorem ratioLeZero_nil : ratioLeZero (strtof []).1 := by decide

/-- The loop stops at the end of the text when every entry is followed by a comma. -/
theorem splitLoop_eq_nil_iff (split : List ℕ) (count count' room : ℕ) (value : Bytes) :
    (∃ split', splitLoop split count value room = (split', some (count', []))) ↔
    ∃ entries : List Bytes, entries.length ≤ room ∧ count' = count + entries.length ∧
      (∀ e ∈ entries, (strtof e).2 = [] ∧ ¬ ratioLeZero (strtof e).1) ∧
      value = entries.flatMap fun e => e ++ [comma] := by
  induction room generalizing split count value with
  | zero =>
    constructor
    · rintro ⟨split', h⟩
      rw [splitLoop, Prod.mk.injEq, Option.some.injEq, Prod.mk.injEq] at h
      exact ⟨[], le_rfl, h.2.1.symm, by simp, h.2.2⟩
    · rintro ⟨entries, hlength, rfl, -, rfl⟩
      obtain rfl := List.length_eq_zero_iff.mp (Nat.le_zero.mp hlength)
      exact ⟨split, rfl⟩
  | succ room ih =>
    rcases eq_or_ne value [] with rfl | hvalue
    · constructor
      · rintro ⟨split', h⟩
        rw [splitLoop, if_pos rfl, Prod.mk.injEq, Option.some.injEq, Prod.mk.injEq] at h
        exact ⟨[], Nat.zero_le _, h.2.1.symm, by simp, rfl⟩
      · rintro ⟨entries, -, rfl, -, hflat⟩
        cases entries with
        | nil => exact ⟨split, by rw [splitLoop, if_pos rfl, List.length_nil, Nat.add_zero]⟩
        | cons e entries => cases e <;> cases hflat
    · obtain ⟨ratio, rest, hread⟩ : ∃ ratio rest, strtof value = (ratio, rest) := ⟨_, _, rfl⟩
      constructor
      · rintro ⟨split', h⟩
        rw [splitLoop, if_neg hvalue, hread] at h
        dsimp only at h
        split_ifs at h with hstop
        · cases h
        · cases rest with
          | nil =>
            rw [Prod.mk.injEq, Option.some.injEq, Prod.mk.injEq] at h
            exact absurd h.2.2 hvalue
          | cons b next =>
            dsimp only at h
            split_ifs at h with hb
            · cases h
            · obtain rfl : b = comma := not_not.mp hb
              obtain ⟨entries, hlength, hcount, hentries, rfl⟩ := (ih _ _ _).mp ⟨split', h⟩
              obtain ⟨e, rfl, he⟩ := strtof_eq_comma_iff.mp hread
              refine ⟨e :: entries, Nat.succ_le_succ hlength, ?_, ?_, ?_⟩
              · rw [hcount, List.length_cons]
                omega
              · refine List.forall_mem_cons.mpr ⟨?_, hentries⟩
                rw [he]
                exact ⟨rfl, fun hle => hstop (.inr hle)⟩
              · rw [List.flatMap_cons, List.append_assoc, List.singleton_append]
      · rintro ⟨entries, hlength, hcount, hentries, rfl⟩
        cases entries with
        | nil => exact absurd rfl hvalue
        | cons e entries =>
          obtain ⟨⟨hend, hpos⟩, hentries⟩ := List.forall_mem_cons.mp hentries
          have hne : e ≠ [] := by
            rintro rfl
            exact hpos ratioLeZero_nil
          have hvalue' : (e :: entries).flatMap (fun e => e ++ [comma]) =
              e ++ comma :: entries.flatMap (fun e => e ++ [comma]) := by
            rw [List.flatMap_cons, List.append_assoc, List.singleton_append]
          have hstrtof := strtof_eq_comma_iff.mpr ⟨e, hvalue', Prod.ext rfl hend⟩
          obtain ⟨split', h⟩ := (ih (split.set count (strtof e).1) (count + 1)
            (entries.flatMap fun e => e ++ [comma])).mpr
            ⟨entries, Nat.le_of_succ_le_succ hlength, by rw [hcount, List.length_cons]; omega, hentries, rfl⟩
          refine ⟨split', ?_⟩
          rw [splitLoop, if_neg hvalue, hstrtof]
          dsimp only
          rw [if_neg, if_neg (not_not.mpr rfl), h]
          rintro (hsame | hle)
          · -- the entry is not empty
            have := List.length_pos_iff.mpr hne
            rw [hvalue', List.length_append] at hsame
            omega
          · exact hpos hle

/-- Only strings that end in a comma are accepted. -/
theorem parseTensorSplit_isSome_iff (split : List ℕ) (value : Bytes) :
    (parseTensorSplit split (some value)).2 = true ↔ EndsInComma value := by
  have hloop (count : ℕ) := splitLoop_eq_nil_iff split 0 count 16 value
  rcases eq_or_ne value [] with rfl | hvalue
  · refine iff_of_false (by rw [parseTensorSplit, if_pos rfl]; exact Bool.false_ne_true) ?_
    rintro ⟨entries, hlength, -, hflat⟩
    cases entries with
    | nil => exact Nat.not_succ_le_zero 0 hlength.1
    | cons e entries => cases e <;> cases hflat
  · have haccepted : (parseTensorSplit split (some value)).2 = true ↔
        ∃ count, count ≠ 0 ∧ ∃ split', splitLoop split 0 value 16 = (split', some (count, [])) := by
      rw [parseTensorSplit, if_neg hvalue]
      obtain ⟨split', result⟩ := splitLoop split 0 value 16
      rcases result with - | ⟨count, rest⟩
      · refine iff_of_false Bool.false_ne_true ?_
        rintro ⟨count, -, split', h⟩
        cases h
      · simp
    rw [haccepted]
    constructor
    · rintro ⟨count, hcount, h⟩
      obtain ⟨entries, hlength, rfl, hentries, hflat⟩ := (hloop count).mp h
      exact ⟨entries, ⟨by omega, hlength⟩, hentries, hflat⟩
    · rintro ⟨entries, hlength, hentries, hflat⟩
      exact ⟨entries.length, by omega, (hloop _).mpr ⟨entries, hlength.2, (Nat.zero_add _).symm, hentries, hflat⟩⟩

/-- A list of entries ends like the last of them. -/
theorem exists_intercalate_eq {entries : List Bytes} (h : entries ≠ []) :
    ∃ front e, e ∈ entries ∧ [comma].intercalate entries = front ++ e := by
  induction entries with
  | nil => exact absurd rfl h
  | cons e entries ih =>
    cases entries with
    | nil => exact ⟨[], e, List.mem_cons_self, List.intercalate_singleton⟩
    | cons e' entries =>
      obtain ⟨front, last, hmem, heq⟩ := ih (List.cons_ne_nil _ _)
      refine ⟨e ++ [comma] ++ front, last, List.mem_cons_of_mem e hmem, ?_⟩
      rw [List.append_assoc, ← heq, List.intercalate_cons_cons]

/-- The last byte of a list of ratios is no comma. -/
theorem Listed.not_endsInComma {value : Bytes} {ratios : List ℚ} (h : Listed value ratios) :
    ¬ EndsInComma value := by
  rintro ⟨commas, ⟨hone, -⟩, -, hvalue⟩
  obtain ⟨entries, hentries, heq⟩ := h.entries
  have hlength := hentries.length_eq
  have hne : entries ≠ [] := List.length_pos_iff.mp (hlength ▸ h.length_mem.1)
  obtain ⟨front, e, he, hfront⟩ := exists_intercalate_eq hne
  obtain ⟨i, hi, rfl⟩ := List.getElem_of_mem he
  have hdecimal := hentries.get hi (hlength ▸ hi)
  -- both ends of the string
  rcases List.eq_nil_or_concat commas with rfl | ⟨others, last, rfl⟩
  · exact absurd hone (by decide)
  rw [List.concat_eq_append, List.flatMap_append, List.flatMap_singleton, ← List.append_assoc] at hvalue
  rcases List.eq_nil_or_concat entries[i] with hnil | ⟨e', b, hconcat⟩
  · rw [List.get_eq_getElem, hnil] at hdecimal
    cases hdecimal
  · rw [List.concat_eq_append] at hconcat
    rw [hvalue, hfront, hconcat, ← List.append_assoc] at heq
    obtain rfl : comma = b := List.singleton_inj.mp (List.append_inj' heq rfl).2
    rw [List.get_eq_getElem, hconcat, Scan.local_decimal.append e' []] at hdecimal
    obtain ⟨x, -, hx⟩ := Option.map_eq_some_iff.mp hdecimal
    have hrest := congrArg Prod.snd hx
    exact absurd hrest (List.append_ne_nil_of_right_ne_nil _ (List.cons_ne_nil _ _))

/-- The routine does what is expected of it exactly where there is nothing to accept. -/
theorem specified_iff (split : List ℕ) (value : Bytes) :
    Specified value (tensorSplit split (some value)) ↔
      (∀ ratios, ¬ Listed value ratios) ∧ ¬ EndsInComma value := by
  have haccepted := parseTensorSplit_isSome_iff split value
  constructor
  · rintro ⟨hlisted, hnull⟩
    have hnone (ratios : List ℚ) : ¬ Listed value ratios := by
      intro h
      have hsome := hlisted ratios h
      rw [tensorSplit, if_neg (haccepted.not.mpr h.not_endsInComma)] at hsome
      cases hsome
    refine ⟨hnone, fun hcomma => ?_⟩
    have := hnull hnone
    rw [tensorSplit, if_pos (haccepted.mpr hcomma)] at this
    cases this
  · rintro ⟨hnone, hcomma⟩
    refine ⟨fun ratios h => absurd h (hnone ratios), fun _ => ?_⟩
    rw [tensorSplit, if_neg (haccepted.not.mpr hcomma)]

/-- `1,2` is such a list. -/
theorem listed_one_two : Listed (ascii "1,2") [1, 2] where
  length_mem := by decide
  pos := by simp
  entries := ⟨[ascii "1", ascii "2"], .cons (by decide +kernel) (.cons (by decide +kernel) .nil), by decide⟩

/-- It is not accepted on the first call. -/
theorem not_specified_one_two :
    ¬ Specified (ascii "1,2") (tensorSplit (List.replicate 16 0) (some (ascii "1,2"))) := by
  intro h
  have hsome := h.1 _ listed_one_two
  have hnull := (parseTensorSplit_isSome_iff (List.replicate 16 0) _).not.mpr listed_one_two.not_endsInComma
  rw [tensorSplit, if_neg hnull] at hsome
  cases hsome

/-- A comma behind the last ratio makes the list acceptable, and ratios of an earlier call are still there. -/
example : tensorSplit (List.replicate 16 7) (some (ascii "1,2,")) =
    some ([0x3f800000, 0x40000000] ++ List.replicate 14 7) := by decide +kernel

end Llama

end FortAI
