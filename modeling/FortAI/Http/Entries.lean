import FortAI.Http.Header

/-!
# Lists separated by commas

The configured keys and the configured origins are read by the same loop, which differs only in
the bytes it takes off the end of an entry (`nextEntry`, `afterEntry`).  `segments` are the parts
of such a list between its commas.

* `cursor_cases` : where the cursor of the loop stands.
* `afterEntry_segment` : the cursor behind a segment is moved back to what was taken off its end.
-/

namespace FortAI

namespace Http

open CString

/-- The parts of a configured list between its commas. -/
def segments (configured : Bytes) : List Bytes := configured.splitOn comma

/-- A segment without the bytes `trim` at its ends. -/
def trimmed (trim : Byte → Bool) (segment : Bytes) : Bytes :=
  trimEnd trim (segment.dropWhile trim)

/-- A segment as the cursor stands at its first byte. -/
structure Segment (segment rest : Bytes) : Prop where
  starts : ∃ b s, segment = b :: s ∧ isBlank b = false
  comma_free : comma ∉ segment
  rest_eq : rest = [] ∨ ∃ s, rest = comma :: s

/-- The cursor stands at the end, at a byte that is skipped, or at the first byte of a segment. -/
theorem cursor_cases (cursor : Bytes) :
    cursor = [] ∨ (∃ b s, cursor = b :: s ∧ (b = comma ∨ isBlank b = true)) ∨
      ∃ segment rest, cursor = segment ++ rest ∧ Segment segment rest := by
  cases cursor with
  | nil => exact .inl rfl
  | cons b s =>
    refine .inr ?_
    by_cases hskip : b = comma ∨ isBlank b = true
    · exact .inl ⟨b, s, rfl, hskip⟩
    · rw [not_or, Bool.not_eq_true] at hskip
      refine .inr ⟨b :: s.takeWhile (· ≠ comma), s.dropWhile (· ≠ comma), ?_,
        ⟨b, _, rfl, hskip.2⟩, ?_, ?_⟩
      · rw [List.cons_append, List.takeWhile_append_dropWhile]
      · intro hmem
        rcases List.mem_cons.mp hmem with h | h
        · exact hskip.1 h.symm
        · simpa using List.mem_takeWhile_imp h
      · cases hrest : s.dropWhile (· ≠ comma) with
        | nil => exact .inl rfl
        | cons c rest =>
          have hc := List.head?_dropWhile_not (fun b : Byte => decide (b ≠ comma)) s
          rw [hrest] at hc
          have hc : c = comma := by simpa using hc
          exact .inr ⟨rest, by rw [hc]⟩

/-! ### Segments of a list -/

@[simp] theorem segments_nil : segments [] = [[]] := List.splitOn_nil comma

@[simp] theorem segments_comma (s : Bytes) : segments (comma :: s) = [] :: segments s := by
  rw [segments, List.splitOn_cons_eq_if_modifyHead, if_pos (beq_self_eq_true comma)]
  rfl

theorem segments_cons {b : Byte} (hb : b ≠ comma) (s : Bytes) :
    ∃ first others, segments s = first :: others ∧
      segments (b :: s) = (b :: first) :: others := by
  cases hs : segments s with
  | nil => exact absurd hs (List.splitOn_ne_nil comma s)
  | cons first others =>
    refine ⟨first, others, rfl, ?_⟩
    rw [segments, List.splitOn_cons_eq_if_modifyHead, if_neg (by simpa using hb), ← segments, hs]
    rfl

theorem segments_segment {s : Bytes} (hs : comma ∉ s) : segments s = [s] :=
  List.splitOn_eq_singleton hs

theorem segments_append {s : Bytes} (hs : comma ∉ s) (t : Bytes) :
    segments (s ++ comma :: t) = s :: segments t :=
  List.splitOn_append_cons_self_of_not_mem hs t

theorem segments_rest {rest : Bytes} (h : rest = [] ∨ ∃ s, rest = comma :: s) :
    ∃ others, (∀ s, comma ∉ s → segments (s ++ rest) = s :: others) ∧
      (rest = [] ∧ others = [] ∨ others = segments rest.tail) := by
  rcases h with rfl | ⟨t, rfl⟩
  · refine ⟨[], fun s hs => ?_, .inl ⟨rfl, rfl⟩⟩
    rw [List.append_nil, segments_segment hs]
  · exact ⟨segments t, fun s hs => segments_append hs t, .inr rfl⟩

theorem dropWhile_isBlank_of_starts {segment rest : Bytes} (h : Segment segment rest) :
    segment.dropWhile isBlank = segment := by
  obtain ⟨b, s, rfl, hb⟩ := h.starts
  exact List.dropWhile_cons_of_neg (by simp [hb])

/-! ### The cursor of the loop -/

section
theorem dropWhile_skip {b : Byte} (hb : b = comma ∨ isBlank b = true) (s : Bytes) :
    ((b :: s).dropWhile fun b => isBlank b || b = comma) =
      s.dropWhile fun b => isBlank b || b = comma := by
  refine List.dropWhile_cons_of_pos ?_
  rcases hb with rfl | hb
  · rfl
  · rw [hb, Bool.true_or]

variable (trim : Byte → Bool)

theorem nextEntry_skip {b : Byte} (hb : b = comma ∨ isBlank b = true) (s : Bytes) :
    nextEntry trim (b :: s) = nextEntry trim s := by
  rw [nextEntry, nextEntry, dropWhile_skip hb]

theorem afterEntry_skip {b : Byte} (hb : b = comma ∨ isBlank b = true) (s : Bytes) :
    afterEntry trim (b :: s) = afterEntry trim s := by
  rw [afterEntry, afterEntry, nextEntry_skip trim hb, dropWhile_skip hb]

variable {trim} {segment rest : Bytes}

theorem Segment.dropWhile (h : Segment segment rest) :
    ((segment ++ rest).dropWhile fun b => isBlank b || b = comma) = segment ++ rest := by
  obtain ⟨b, s, rfl, hb⟩ := h.starts
  refine List.dropWhile_cons_of_neg ?_
  have hcomma : b ≠ comma := fun hb => h.comma_free (hb ▸ List.mem_cons_self ..)
  simp [hb, hcomma]

theorem nextEntry_segment (h : Segment segment rest) :
    nextEntry trim (segment ++ rest) = trimEnd trim segment := by
  have hall : ∀ b ∈ segment, decide (b ≠ comma) = true := fun b hb =>
    decide_eq_true fun hcomma => h.comma_free (hcomma ▸ hb)
  rw [nextEntry, h.dropWhile, List.takeWhile_append_of_pos hall]
  rcases h.rest_eq with rfl | ⟨s, rfl⟩
  · rw [List.takeWhile_nil, List.append_nil]
  · rw [List.takeWhile_cons_of_neg (by simp), List.append_nil]

/-- Behind a segment the cursor stands behind the comma when nothing was taken off the end, and
else at the first byte that was. -/
theorem afterEntry_segment (h : Segment segment rest) :
    afterEntry trim (segment ++ rest) =
      if segment.rtakeWhile trim = [] then rest.tail else segment.rtakeWhile trim ++ rest := by
  have hdrop : (segment ++ rest).drop (trimEnd trim segment).length =
      segment.rtakeWhile trim ++ rest := by
    conv_lhs =>
      enter [2, 1]
      rw [← List.rdropWhile_append_rtakeWhile (p := trim) (l := segment)]
    rw [List.append_assoc, trimEnd, List.drop_left]
  rw [afterEntry, h.dropWhile, nextEntry_segment h, hdrop]
  cases htrail : segment.rtakeWhile trim with
  | nil =>
    rcases h.rest_eq with rfl | ⟨s, rfl⟩
    · rfl
    · exact if_pos rfl
  | cons b trail =>
    have hb : b ≠ comma := by
      rintro rfl
      refine h.comma_free ((List.rtakeWhile_suffix trim segment).subset ?_)
      rw [htrail]
      exact List.mem_cons_self ..
    rw [if_neg (List.cons_ne_nil b trail)]
    exact if_neg hb

end

end Http

end FortAI
