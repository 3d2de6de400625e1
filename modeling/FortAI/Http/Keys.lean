import FortAI.Http.Authorization
import FortAI.Http.Entries

/-!
# Which keys are accepted

A key is configured when it is an entry of the configured list without the blanks and line ends
around it (`entries`); it is in the key file when a line other than a comment is the key and white
space (`ListsKey`).  `keyEquals` and `apiKeyFileMatches` decide something else:

* the loop of `keyEquals` does not end behind a segment with a line end at its end
  (`BreaksBehind`), and does not see a key behind a line end;
* the file is read in pieces of at most 1023 bytes, and a piece ends at a NUL.

`keys_exact_iff` says for which lists, files and candidates both come out right.
-/

namespace FortAI

namespace Http

open CString

/-! ### Configured keys -/

/-- The keys of a configured list. -/
def entries (configured : Bytes) : List Bytes := (segments configured).map (trimmed isTrailing)

/-- What the loop compares of a segment: only blanks go at its front. -/
def keyOf (segment : Bytes) : Bytes := trimEnd isTrailing (segment.dropWhile isBlank)

/-- A line end is among the bytes taken off the end of a segment.  The cursor is moved back to
them, skips the blanks and comes to stand at the line end for good. -/
def BreaksBehind (segment : Bytes) : Prop :=
  ∃ b ∈ (segment.dropWhile isBlank).rtakeWhile isTrailing, b = 13 ∨ b = 10

instance (segment : Bytes) : Decidable (BreaksBehind segment) :=
  inferInstanceAs (Decidable (∃ b ∈ (segment.dropWhile isBlank).rtakeWhile isTrailing, b = 13 ∨ b = 10))

/-- The loop of `keyEquals` over the segments. -/
def searchKey (candidate : Bytes) : List Bytes → Option Bool
  | [] => some false
  | segment :: others =>
    if keyOf segment = candidate then some true
    else if BreaksBehind segment then none
    else searchKey candidate others

theorem isTrailing_of_isBlank {b : Byte} (h : isBlank b = true) : isTrailing b = true := by
  simp [isTrailing, h]

theorem afterEntry_suffix (trim : Byte → Bool) (cursor : Bytes) :
    afterEntry trim cursor <:+ cursor := by
  have hdrop : (cursor.dropWhile fun b => isBlank b || b = comma).drop
      (nextEntry trim cursor).length <:+ cursor :=
    (List.drop_suffix _ _).trans (List.dropWhile_suffix _)
  rw [afterEntry]
  cases hcase : (cursor.dropWhile fun b => isBlank b || b = comma).drop
      (nextEntry trim cursor).length with
  | nil => exact List.nil_suffix
  | cons b rest =>
    rw [hcase] at hdrop
    show (if b = comma then rest else b :: rest) <:+ cursor
    split
    · exact (List.suffix_cons b rest).trans hdrop
    · exact hdrop

section
variable {candidate : Bytes}

theorem keyEquals_nil : keyEquals [] candidate = some false := by
  rw [keyEquals, dif_pos rfl]

/-- A byte that is skipped changes nothing: a pass that stays where it is stays there. -/
theorem keyEquals_skip (hne : candidate ≠ []) {b : Byte} (hb : b = comma ∨ isBlank b = true)
    (s : Bytes) :
    keyEquals (b :: s) candidate = keyEquals s candidate := by
  have hle := (afterEntry_suffix isTrailing s).length_le
  rw [keyEquals, dif_neg (List.cons_ne_nil b s), nextEntry_skip isTrailing hb,
    afterEntry_skip isTrailing hb,
    dif_pos (show _ < (b :: s).length by rw [List.length_cons]; omega)]
  by_cases hentry : nextEntry isTrailing s = candidate
  · have hs : s ≠ [] := by
      rintro rfl
      exact hne hentry.symm
    rw [if_pos hentry, keyEquals, dif_neg hs, if_pos hentry]
  rw [if_neg hentry]
  by_cases hlt : (afterEntry isTrailing s).length < s.length
  · have hs : s ≠ [] := by
      rintro rfl
      exact Nat.not_lt_zero _ hlt
    rw [keyEquals.eq_def s, dif_neg hs, if_neg hentry, dif_pos hlt]
  · rw [(afterEntry_suffix isTrailing s).eq_of_length (by omega)]

theorem keyEquals_segment {segment rest : Bytes} (h : Segment segment rest) :
    keyEquals (segment ++ rest) candidate =
      if trimEnd isTrailing segment = candidate then some true
      else if segment.rtakeWhile isTrailing = [] then keyEquals rest.tail candidate
      else if trimEnd isTrailing segment = [] then none
      else keyEquals (segment.rtakeWhile isTrailing ++ rest) candidate := by
  have hlength : segment.length =
      (trimEnd isTrailing segment).length + (segment.rtakeWhile isTrailing).length := by
    conv_lhs => rw [← List.rdropWhile_append_rtakeWhile (p := isTrailing) (l := segment)]
    exact List.length_append
  have hpos : 0 < segment.length := by
    obtain ⟨b, s, rfl, -⟩ := h.starts
    exact Nat.succ_pos _
  have hcursor : segment ++ rest ≠ [] := List.append_ne_nil_of_left_ne_nil
    (List.length_pos_iff.mp hpos) rest
  rw [keyEquals, dif_neg hcursor, nextEntry_segment h, afterEntry_segment h]
  by_cases hentry : trimEnd isTrailing segment = candidate
  · rw [if_pos hentry, if_pos hentry]
  rw [if_neg hentry, if_neg hentry]
  by_cases htrail : segment.rtakeWhile isTrailing = []
  · rw [if_pos htrail, if_pos htrail,
      dif_pos (by rw [List.length_append, List.length_tail]; omega)]
  rw [if_neg htrail, if_neg htrail]
  by_cases hempty : trimEnd isTrailing segment = []
  · rw [if_pos hempty, dif_neg]
    rw [List.length_append, List.length_append, hlength, hempty]
    simp
  · have := List.length_pos_iff.mpr hempty
    rw [if_neg hempty, dif_pos (by rw [List.length_append, List.length_append]; omega)]

/-! ### The loop over the segments -/

/-- What is left of a segment is searched like the segment. -/
theorem searchKey_trail {trail : Bytes} (htrail : ∀ b ∈ trail, isTrailing b = true)
    (others : List Bytes) (hne : candidate ≠ []) :
    searchKey candidate (trail :: others) =
      if ∃ b ∈ trail, b = 13 ∨ b = 10 then none else searchKey candidate others := by
  have hsuffix : trail.dropWhile isBlank <:+ trail := List.dropWhile_suffix _
  have hall : ∀ b ∈ trail.dropWhile isBlank, isTrailing b = true :=
    fun b hb => htrail b (hsuffix.subset hb)
  have hkey : keyOf trail = [] := List.rdropWhile_eq_nil_iff.mpr hall
  have hbreaks : BreaksBehind trail ↔ ∃ b ∈ trail, b = 13 ∨ b = 10 := by
    rw [BreaksBehind, List.rtakeWhile_eq_self_iff.mpr hall]
    constructor
    · rintro ⟨b, hb, hend⟩
      exact ⟨b, hsuffix.subset hb, hend⟩
    · rintro ⟨b, hb, hend⟩
      refine ⟨b, ?_, hend⟩
      rw [← List.takeWhile_append_dropWhile (p := isBlank) (l := trail), List.mem_append] at hb
      refine hb.resolve_left fun hblank => ?_
      have := List.mem_takeWhile_imp hblank
      rcases hend with rfl | rfl <;> exact Bool.noConfusion this
  rw [searchKey, hkey, if_neg hne.symm]
  exact if_congr hbreaks rfl rfl

theorem keyEquals_eq (hne : candidate ≠ []) (configured : Bytes) :
    keyEquals configured candidate = searchKey candidate (segments configured) := by
  induction hn : configured.length using Nat.strong_induction_on generalizing configured with
  | _ n ih =>
    rcases cursor_cases configured with rfl | ⟨b, s, rfl, hb⟩ | ⟨segment, rest, rfl, h⟩
    · rw [keyEquals_nil, segments_nil, searchKey_trail (by simp) [] hne]
      rfl
    · rw [keyEquals_skip hne hb, ih s.length (by rw [← hn]; exact Nat.lt_succ_self _) s rfl]
      by_cases hcomma : b = comma
      · rw [hcomma, segments_comma, searchKey_trail (by simp) _ hne]
        exact (if_neg (by simp)).symm
      · obtain ⟨first, others, hs, hbs⟩ := segments_cons hcomma s
        have hdrop : (b :: first).dropWhile isBlank = first.dropWhile isBlank :=
          List.dropWhile_cons_of_pos (hb.resolve_left hcomma)
        rw [hs, hbs]
        have hbreaks : BreaksBehind (b :: first) ↔ BreaksBehind first := by
          rw [BreaksBehind, BreaksBehind, hdrop]
        rw [searchKey, searchKey, keyOf, keyOf, hdrop]
        exact if_congr Iff.rfl rfl (if_congr hbreaks.symm rfl rfl)
    · obtain ⟨others, hothers, hrest⟩ := segments_rest h.rest_eq
      have hdrop := dropWhile_isBlank_of_starts h
      have hlength : segment.length =
          (trimEnd isTrailing segment).length + (segment.rtakeWhile isTrailing).length := by
        conv_lhs => rw [← List.rdropWhile_append_rtakeWhile (p := isTrailing) (l := segment)]
        exact List.length_append
      obtain ⟨b, s, hstart, hb⟩ := h.starts
      rw [List.length_append] at hn
      have hpos : 0 < segment.length := hstart ▸ Nat.succ_pos _
      rw [keyEquals_segment h, hothers segment h.comma_free, searchKey, keyOf, hdrop]
      refine if_congr Iff.rfl rfl ?_
      by_cases htrail : segment.rtakeWhile isTrailing = []
      · have hbreaks : ¬ BreaksBehind segment := by simp [BreaksBehind, hdrop, htrail]
        rw [if_pos htrail, if_neg hbreaks]
        rcases hrest with ⟨rfl, rfl⟩ | rfl
        · exact keyEquals_nil
        · exact ih _ (by rw [List.length_tail]; omega) _ rfl
      · have htrailing : ∀ b ∈ segment.rtakeWhile isTrailing, isTrailing b = true :=
          fun b hb => List.mem_rtakeWhile_imp hb
        rw [if_neg htrail]
        by_cases hempty : trimEnd isTrailing segment = []
        · -- the segment is blanks and line ends, and begins with a line end
          have hbreaks : BreaksBehind segment := by
            have hall := List.rdropWhile_eq_nil_iff.mp hempty
            refine ⟨b, ?_, ?_⟩
            · rw [hdrop, List.rtakeWhile_eq_self_iff.mpr hall, hstart]
              exact List.mem_cons_self ..
            · have := hall b (hstart ▸ List.mem_cons_self ..)
              simpa [isTrailing, hb] using this
          rw [if_pos hempty, if_pos hbreaks]
        · have hentry := List.length_pos_iff.mpr hempty
          rw [if_neg hempty, ih _ (by rw [← hn, List.length_append]; omega) _ rfl,
            hothers _ fun hc => h.comma_free ((List.rtakeWhile_suffix _ _).subset hc),
            searchKey_trail htrailing others hne]
          exact if_congr (by rw [BreaksBehind, hdrop]) rfl rfl

theorem searchKey_eq_true {list : List Bytes} :
    searchKey candidate list = some true ↔
      ∃ before segment behind, list = before ++ segment :: behind ∧ keyOf segment = candidate ∧
        ∀ s ∈ before, ¬ BreaksBehind s := by
  induction list with
  | nil => simp [searchKey]
  | cons first others ih =>
    rw [searchKey]
    split_ifs with hkey hbreaks
    · simp only [true_iff]
      exact ⟨[], first, others, rfl, hkey, by simp⟩
    · refine iff_of_false (by simp) ?_
      rintro ⟨before, segment, behind, heq, hsegment, hbefore⟩
      cases before with
      | nil => exact hkey ((List.cons.inj heq).1 ▸ hsegment)
      | cons s before =>
        exact hbefore s (List.mem_cons_self ..) ((List.cons.inj heq).1 ▸ hbreaks)
    · rw [ih]
      constructor
      · rintro ⟨before, segment, behind, rfl, hsegment, hbefore⟩
        exact ⟨first :: before, segment, behind, rfl, hsegment,
          List.forall_mem_cons.mpr ⟨hbreaks, hbefore⟩⟩
      · rintro ⟨before, segment, behind, heq, hsegment, hbefore⟩
        cases before with
        | nil => exact absurd ((List.cons.inj heq).1 ▸ hsegment) hkey
        | cons s before =>
          exact ⟨before, segment, behind, (List.cons.inj heq).2, hsegment,
            (List.forall_mem_cons.mp hbefore).2⟩

theorem searchKey_eq_false {list : List Bytes} :
    searchKey candidate list = some false ↔
      ∀ segment ∈ list, keyOf segment ≠ candidate ∧ ¬ BreaksBehind segment := by
  induction list with
  | nil => simp [searchKey]
  | cons first others ih =>
    rw [searchKey, List.forall_mem_cons, ← ih]
    split_ifs with hkey hbreaks
    · simp [hkey]
    · simp [hbreaks]
    · simp [hkey, hbreaks]

end

theorem dropWhile_isTrailing (s : Bytes) :
    (s.dropWhile isBlank).dropWhile isTrailing = s.dropWhile isTrailing := by
  induction s with
  | nil => rfl
  | cons b s ih =>
    by_cases hb : isBlank b = true
    · rw [List.dropWhile_cons_of_pos hb, ih, List.dropWhile_cons_of_pos (isTrailing_of_isBlank hb)]
    · rw [List.dropWhile_cons_of_neg hb]

/-- A key without a line end that the loop finds is an entry. -/
theorem trimmed_of_keyOf {candidate segment : Bytes} (hne : candidate ≠ [])
    (hcr : (13 : Byte) ∉ candidate) (hlf : (10 : Byte) ∉ candidate)
    (h : keyOf segment = candidate) : trimmed isTrailing segment = candidate := by
  have hsplit : candidate ++ (segment.dropWhile isBlank).rtakeWhile isTrailing =
      segment.dropWhile isBlank := by
    rw [← h]
    exact List.rdropWhile_append_rtakeWhile
  obtain ⟨b, c, rfl⟩ := List.exists_cons_of_ne_nil hne
  have hblank : isBlank b = false := by
    have hhead := List.head?_dropWhile_not isBlank segment
    rw [← hsplit] at hhead
    simpa using hhead
  have hb : isTrailing b = false := by
    have h13 : b ≠ 13 := fun hb => hcr (hb ▸ List.mem_cons_self ..)
    have h10 : b ≠ 10 := fun hb => hlf (hb ▸ List.mem_cons_self ..)
    simp [isTrailing, hblank, h13, h10]
  rw [trimmed, ← dropWhile_isTrailing, ← hsplit, List.cons_append,
    List.dropWhile_cons_of_neg (by simp [hb]), ← List.cons_append, hsplit]
  exact h

/-- Every segment before the first one that is the candidate has no line end at its end; when none
is, no segment has one and none is the candidate behind a line end. -/
def KeysRegular (configured candidate : Bytes) : Prop :=
  (∃ before segment behind, segments configured = before ++ segment :: behind ∧
    keyOf segment = candidate ∧ ∀ s ∈ before, ¬ BreaksBehind s) ∨
  ∀ segment ∈ segments configured, ¬ BreaksBehind segment ∧ trimmed isTrailing segment ≠ candidate

theorem keyEquals_exact_iff {configured candidate : Bytes} (hne : candidate ≠ [])
    (hcr : (13 : Byte) ∉ candidate) (hlf : (10 : Byte) ∉ candidate) :
    keyEquals configured candidate = some (decide (candidate ∈ entries configured)) ↔
      KeysRegular configured candidate := by
  have hentries : candidate ∈ entries configured ↔
      ∃ segment ∈ segments configured, trimmed isTrailing segment = candidate := List.mem_map
  rw [keyEquals_eq hne, KeysRegular, ← searchKey_eq_true]
  constructor
  · intro h
    by_cases hmem : candidate ∈ entries configured
    · exact .inl (by rw [h, decide_eq_true hmem])
    · rw [decide_eq_false hmem, searchKey_eq_false] at h
      rw [hentries] at hmem
      exact .inr fun segment hs => ⟨(h segment hs).2, fun heq => hmem ⟨segment, hs, heq⟩⟩
  · rintro (h | h)
    · obtain ⟨before, segment, behind, heq, hkey, -⟩ := searchKey_eq_true.mp h
      have hmem : candidate ∈ entries configured :=
        hentries.mpr ⟨segment, by simp [heq], trimmed_of_keyOf hne hcr hlf hkey⟩
      rw [h, decide_eq_true hmem]
    · have hmem : candidate ∉ entries configured := by
        rw [hentries]
        rintro ⟨segment, hs, heq⟩
        exact (h segment hs).2 heq
      rw [decide_eq_false hmem, searchKey_eq_false]
      exact fun segment hs =>
        ⟨fun hkey => (h segment hs).2 (trimmed_of_keyOf hne hcr hlf hkey), (h segment hs).1⟩

/-! ### Keys in a file -/

/-- The lines of a file, without their line feeds. -/
def fileLines (contents : Bytes) : List Bytes := contents.splitOn 10

/-- The line is not a comment, and is the candidate and white space. -/
def HoldsKey (candidate line : Bytes) : Prop :=
  (line.dropWhile isSpace).head? ≠ some 35 ∧ trimmed isSpace line = candidate

def ListsKey (contents candidate : Bytes) : Prop :=
  ∃ line ∈ fileLines contents, HoldsKey candidate line

/-- `fgets` hands over the line in one piece, and the piece is a C string. -/
def InOnePiece (line : Bytes) : Prop := line.length ≤ 1023 ∧ (0 : Byte) ∉ line

section
variable {candidate line : Bytes}

theorem fileKey_iff (hne : candidate ≠ []) (hnul : (0 : Byte) ∉ line) :
    fileKey line = some candidate ↔ HoldsKey candidate line := by
  rw [fileKey, text_eq_self hnul, HoldsKey, trimmed]
  split_ifs with h
  · refine iff_of_false (by simp) ?_
    rintro ⟨hhead, htrim⟩
    refine h.elim (fun hnil => hne ?_) hhead
    rw [← htrim, hnil]
    rfl
  · rw [Option.some.injEq]
    exact (and_iff_right fun hhead => h (.inr hhead)).symm

theorem dropWhile_lf (s : Bytes) : (s ++ [10]).dropWhile isSpace =
    if s.dropWhile isSpace = [] then [] else s.dropWhile isSpace ++ [10] := by
  rw [List.dropWhile_append]
  cases s.dropWhile isSpace with
  | nil => rfl
  | cons b s => rfl

/-- The line feed at the end of a piece does not matter. -/
theorem fileKey_lf (line : Bytes) : fileKey (line ++ [10]) = fileKey line := by
  by_cases hnul : (0 : Byte) ∈ line
  · have htext : text (line ++ [10]) = text line := by
      obtain ⟨s, t, rfl, hs⟩ := List.eq_append_cons_of_mem hnul
      rw [List.append_assoc, text_append hs, text_append hs]
      rfl
    rw [fileKey, fileKey, htext]
  · rw [fileKey, fileKey, text_append hnul, text_eq_self hnul,
      show text [10] = [10] from rfl, dropWhile_lf]
    cases hfirst : line.dropWhile isSpace with
    | nil => rfl
    | cons b s =>
      have htrim : trimEnd isSpace ((b :: s) ++ [10]) = trimEnd isSpace (b :: s) :=
        List.rdropWhile_concat_pos isSpace _ 10 rfl
      rw [if_neg (List.cons_ne_nil b s), htrim]
      exact if_congr (by simp) rfl rfl

theorem fgetsLength_line (h : (10 : Byte) ∉ line) : fgetsLength line = min 1023 line.length := by
  have hnone : find [10] line = none :=
    (find_eq_none (List.cons_ne_nil _ _)).mpr fun hneedle => h (hneedle.subset (List.mem_cons_self ..))
  rw [fgetsLength, hnone]
  rfl

theorem fgetsLength_append (h : (10 : Byte) ∉ line) (rest : Bytes) :
    fgetsLength (line ++ 10 :: rest) = min 1023 (line.length + 1) := by
  have hsome : find [10] (line ++ 10 :: rest) = some line.length :=
    find_cons_append _ h (List.cons_prefix_cons.mpr ⟨rfl, List.nil_prefix⟩)
  rw [fgetsLength, hsome]
  rfl

theorem fgetsLines_nil : fgetsLines [] = [] := by
  rw [fgetsLines, dif_pos rfl]

/-- A short line is one piece. -/
theorem fgetsLines_short (h : (10 : Byte) ∉ line) (hne : line ≠ []) (hlen : line.length ≤ 1023) :
    fgetsLines line = [line] := by
  rw [fgetsLines, dif_neg hne, fgetsLength_line h, Nat.min_eq_right hlen, List.take_length,
    List.drop_length, fgetsLines_nil]

/-- The pieces of a file are those of its lines. -/
theorem fgetsLines_any (accepts : Bytes → Bool) (hnil : accepts [] = false)
    (hlf : ∀ piece, accepts (piece ++ [10]) = accepts piece) (contents : Bytes) :
    (fgetsLines contents).any accepts =
      (fileLines contents).any fun line => (fgetsLines line).any accepts := by
  induction hn : contents.length using Nat.strong_induction_on generalizing contents with
  | _ n ih =>
    by_cases hmem : (10 : Byte) ∈ contents
    · obtain ⟨line, rest, rfl, hline⟩ := List.eq_append_cons_of_mem hmem
      rw [List.length_append, List.length_cons] at hn
      have hlines (s : Bytes) (hs : (10 : Byte) ∉ s) :
          fileLines (s ++ 10 :: rest) = s :: fileLines rest :=
        List.splitOn_append_cons_self_of_not_mem hs rest
      rw [fgetsLines, dif_neg (by simp), fgetsLength_append hline, hlines line hline,
        List.any_cons, List.any_cons]
      rcases Nat.lt_or_ge line.length 1023 with hshort | hlong
      · have hpiece : line ++ 10 :: rest = (line ++ [10]) ++ rest := by simp
        rw [Nat.min_eq_right hshort, hpiece, List.take_left' (by simp), List.drop_left' (by simp),
          ih rest.length (by omega) rest rfl, hlf]
        congr 1
        by_cases hempty : line = []
        · rw [hempty, fgetsLines_nil, hnil]
          rfl
        · rw [fgetsLines_short hline hempty (Nat.le_of_lt hshort)]
          simp
      · have hne : line ≠ [] := by
          rintro rfl
          exact absurd hlong (by decide)
        have hrest : (10 : Byte) ∉ line.drop 1023 := fun h => hline (List.mem_of_mem_drop h)
        rw [Nat.min_eq_left (by omega), List.take_append_of_le_length hlong,
          List.drop_append_of_le_length hlong,
          ih _ (by simp only [List.length_append, List.length_drop, List.length_cons]; omega) _ rfl,
          hlines _ hrest, List.any_cons, ← Bool.or_assoc, fgetsLines.eq_def line, dif_neg hne,
          fgetsLength_line hline, Nat.min_eq_left hlong, List.any_cons]
    · rw [fileLines, List.splitOn_eq_singleton hmem]
      simp

end

theorem not_mem_of_mem_splitOn {contents line : Bytes} (h : line ∈ contents.splitOn 10) :
    (10 : Byte) ∉ line := by
  induction hn : contents.length using Nat.strong_induction_on generalizing contents with
  | _ n ih =>
    by_cases hmem : (10 : Byte) ∈ contents
    · obtain ⟨first, rest, rfl, hfirst⟩ := List.eq_append_cons_of_mem hmem
      rw [List.splitOn_append_cons_self_of_not_mem hfirst, List.mem_cons] at h
      rcases h with rfl | h
      · exact hfirst
      · exact ih rest.length (by rw [← hn, List.length_append, List.length_cons]; omega) h rfl
    · rw [List.splitOn_eq_singleton hmem, List.mem_singleton] at h
      exact h ▸ hmem

/-- A line in one piece holds the candidate; or the longer lines and those with a NUL hold it just
when one of their pieces does. -/
def FileRegular (contents candidate : Bytes) : Prop :=
  (∃ line ∈ fileLines contents, InOnePiece line ∧ HoldsKey candidate line) ∨
  ((∃ line ∈ fileLines contents, ¬ InOnePiece line ∧ HoldsKey candidate line) ↔
    ∃ line ∈ fileLines contents, ¬ InOnePiece line ∧
      ∃ piece ∈ fgetsLines line, fileKey piece = some candidate)

/-- Reading the file is reading its lines, the longer ones and those with a NUL in pieces. -/
theorem apiKeyFileMatches_iff {host : Host} {path contents candidate : Bytes}
    (hfile : host.file path = some contents) (hne : candidate ≠ []) :
    apiKeyFileMatches host path candidate = true ↔
      (∃ line ∈ fileLines contents, InOnePiece line ∧ HoldsKey candidate line) ∨
        ∃ line ∈ fileLines contents, ¬ InOnePiece line ∧
          ∃ piece ∈ fgetsLines line, fileKey piece = some candidate := by
  have hnil : decide (fileKey [] = some candidate) = false := decide_eq_false (by simp [fileKey, text])
  rw [apiKeyFileMatches, hfile]
  simp only
  rw [fgetsLines_any _ hnil (fun piece => by rw [fileKey_lf]) contents]
  simp only [List.any_eq_true, decide_eq_true_eq]
  have hpiece (line : Bytes) (hline : line ∈ fileLines contents) (hwhole : InOnePiece line) :
      (∃ piece ∈ fgetsLines line, fileKey piece = some candidate) ↔ HoldsKey candidate line := by
    rw [← fileKey_iff hne hwhole.2]
    by_cases hempty : line = []
    · simp [hempty, fgetsLines_nil, fileKey, text]
    · have hlf : (10 : Byte) ∉ line := not_mem_of_mem_splitOn hline
      rw [fgetsLines_short hlf hempty hwhole.1]
      simp
  constructor
  · rintro ⟨line, hline, hmatch⟩
    by_cases hwhole : InOnePiece line
    · exact .inl ⟨line, hline, hwhole, (hpiece line hline hwhole).mp hmatch⟩
    · exact .inr ⟨line, hline, hwhole, hmatch⟩
  · rintro (⟨line, hline, hwhole, hkey⟩ | ⟨line, hline, -, hmatch⟩)
    · exact ⟨line, hline, (hpiece line hline hwhole).mpr hkey⟩
    · exact ⟨line, hline, hmatch⟩

theorem apiKeyFileMatches_exact_iff {host : Host} {path contents candidate : Bytes}
    (hfile : host.file path = some contents) (hne : candidate ≠ []) :
    (apiKeyFileMatches host path candidate = true ↔ ListsKey contents candidate) ↔
      FileRegular contents candidate := by
  have hsplit : ListsKey contents candidate ↔
      (∃ line ∈ fileLines contents, InOnePiece line ∧ HoldsKey candidate line) ∨
        ∃ line ∈ fileLines contents, ¬ InOnePiece line ∧ HoldsKey candidate line := by
    constructor
    · rintro ⟨line, hline, hkey⟩
      by_cases hwhole : InOnePiece line
      · exact .inl ⟨line, hline, hwhole, hkey⟩
      · exact .inr ⟨line, hline, hwhole, hkey⟩
    · rintro (⟨line, hline, -, hkey⟩ | ⟨line, hline, -, hkey⟩) <;> exact ⟨line, hline, hkey⟩
  rw [apiKeyFileMatches_iff hfile hne, hsplit, FileRegular]
  by_cases hwhole : ∃ line ∈ fileLines contents, InOnePiece line ∧ HoldsKey candidate line
  · exact iff_of_true (iff_of_true (.inl hwhole) (.inl hwhole)) (.inl hwhole)
  · rw [or_iff_right hwhole, or_iff_right hwhole, or_iff_right hwhole]
    exact iff_comm

/-- Both comparisons of a candidate without a line end come out right exactly for the regular lists
and the regular files. -/
theorem keys_exact_iff (host : Host) (path contents configured candidate : Bytes)
    (hfile : host.file path = some contents) (hne : candidate ≠ [])
    (hcr : (13 : Byte) ∉ candidate) (hlf : (10 : Byte) ∉ candidate) :
    (keyEquals configured candidate = some (decide (candidate ∈ entries configured)) ∧
      (apiKeyFileMatches host path candidate = true ↔ ListsKey contents candidate)) ↔
        KeysRegular configured candidate ∧ FileRegular contents candidate :=
  and_congr (keyEquals_exact_iff hne hcr hlf) (apiKeyFileMatches_exact_iff hfile hne)

theorem keys_exact_secret :
    keyEquals (ascii "none, secret\n") (ascii "secret") =
        some (decide (ascii "secret" ∈ entries (ascii "none, secret\n"))) ∧
      (apiKeyFileMatches ⟨fun _ => none, fun _ => some (ascii "# keys\nsecret\n")⟩ (ascii "keys")
          (ascii "secret") = true ↔ ListsKey (ascii "# keys\nsecret\n") (ascii "secret")) :=
  (keys_exact_iff ⟨fun _ => none, fun _ => some (ascii "# keys\nsecret\n")⟩ (ascii "keys")
    (ascii "# keys\nsecret\n") (ascii "none, secret\n") (ascii "secret") rfl (by decide)
    (by decide) (by decide)).mpr
    ⟨.inl ⟨[ascii "none"], ascii " secret\n", [], by decide, by decide, by decide⟩,
      .inl ⟨ascii "secret", by decide, ⟨by decide, by decide⟩, by decide, by decide⟩⟩

/-- A list that goes on behind a line end: the loop does not come to the second key. -/
theorem keyEquals_hangs_lineEnd :
    keyEquals (ascii "a\n,b") (ascii "b") = none ∧ ascii "b" ∈ entries (ascii "a\n,b") := by
  refine ⟨?_, by decide⟩
  rw [keyEquals_eq (by decide)]
  decide

end Http

end FortAI
