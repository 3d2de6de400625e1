import FortAI.Chat.ToolCalls
import FortAI.Machine.Utf8

/-!
# The arguments of a tool call

The arguments that `parseToolCalls` hands out are put together from the text of the model.  A value
that `isRawJson` takes for JSON is written as it stands, and so are the arguments of a call in the
JSON form.

* `isObject_xmlParameters` : the parameters make an object exactly when each such value is JSON.
* `valid_xmlParameters` : they are UTF-8 exactly when all names and values are.
* `jsonRawValue_isObject_iff` : the arguments of the JSON form are an object exactly when one begins there.
* `validArguments_iff` : when all arguments of a text are objects.
-/

namespace FortAI

namespace Chat

open CString

/-! ### What ends where -/

/-- The scan does not look behind the closing bracket. -/
theorem scanDelimiter_take {opening closing : Byte} (t : Bytes) :
    ∀ {depth : ℕ} {quoted escaped : Bool} {s : Bytes} {n : ℕ},
      scanDelimiter opening closing depth quoted escaped s = some n →
        scanDelimiter opening closing depth quoted escaped (s.take n ++ t) = some n := by
  intro depth quoted escaped s
  induction s generalizing depth quoted escaped with
  | nil => intro n h; exact nomatch h
  | cons b s ih =>
    intro n h
    -- every turn but the last one counts its byte and goes on
    have hturn {depth' : ℕ} {quoted' escaped' : Bool} {n : ℕ}
        (h : (scanDelimiter opening closing depth' quoted' escaped' s).map (· + 1) = some n) :
        ∃ k, n = k + 1 ∧ (scanDelimiter opening closing depth' quoted' escaped'
          (s.take k ++ t)).map (· + 1) = some n := by
      obtain ⟨k, hk, rfl⟩ := Option.map_eq_some_iff.mp h
      exact ⟨k, rfl, by rw [ih hk]; rfl⟩
    cases quoted with
    | true =>
      cases escaped with
      | true =>
        rw [scanDelimiter] at h
        obtain ⟨k, rfl, hk⟩ := hturn h
        rw [List.take_succ_cons, List.cons_append, scanDelimiter, hk]
      | false =>
        rw [scanDelimiter] at h
        split_ifs at h with hslash hquote
        · obtain ⟨k, rfl, hk⟩ := hturn h
          rw [List.take_succ_cons, List.cons_append, scanDelimiter, if_pos hslash, hk]
        · obtain ⟨k, rfl, hk⟩ := hturn h
          rw [List.take_succ_cons, List.cons_append, scanDelimiter, if_neg hslash, if_pos hquote,
            hk]
        · obtain ⟨k, rfl, hk⟩ := hturn h
          rw [List.take_succ_cons, List.cons_append, scanDelimiter, if_neg hslash, if_neg hquote,
            hk]
    | false =>
      rw [scanDelimiter] at h
      split_ifs at h with hquote hopening hclosing hdepth
      · obtain ⟨k, rfl, hk⟩ := hturn h
        rw [List.take_succ_cons, List.cons_append, scanDelimiter, if_pos hquote, hk]
      · obtain ⟨k, rfl, hk⟩ := hturn h
        rw [List.take_succ_cons, List.cons_append, scanDelimiter, if_neg hquote, if_pos hopening,
          hk]
      · rw [← Option.some.inj h, List.take_succ_cons, List.cons_append, scanDelimiter,
          if_neg hquote, if_neg hopening, if_pos hclosing, if_pos hdepth]
      · obtain ⟨k, rfl, hk⟩ := hturn h
        rw [List.take_succ_cons, List.cons_append, scanDelimiter, if_neg hquote, if_neg hopening,
          if_pos hclosing, if_neg hdepth, hk]
      · obtain ⟨k, rfl, hk⟩ := hturn h
        rw [List.take_succ_cons, List.cons_append, scanDelimiter, if_neg hquote, if_neg hopening,
          if_neg hclosing, hk]

/-! ### Values -/

theorem trimmed_prefix_dropWhile (value : Bytes) : trimmed value <+: value.dropWhile isMargin :=
  List.rdropWhile_prefix _ _

theorem take_trimmed (value : Bytes) :
    (value.dropWhile isMargin).take (trimmed value).length = trimmed value :=
  (List.prefix_iff_eq_take.mp (trimmed_prefix_dropWhile value)).symm

/-- A value that is not blank starts with something that is no margin. -/
theorem exists_cons_of_trimmed {value : Bytes} (h : trimmed value ≠ []) :
    ∃ b rest tail, trimmed value = b :: rest ∧ value.dropWhile isMargin = b :: tail ∧
      isMargin b = false := by
  obtain ⟨b, rest, hb⟩ := List.exists_cons_of_ne_nil h
  obtain ⟨tail, htail⟩ := trimmed_prefix_dropWhile value
  rw [hb, List.cons_append] at htail
  refine ⟨b, rest, rest ++ tail, hb, htail.symm, ?_⟩
  have hne : value.dropWhile isMargin ≠ [] := by
    rw [← htail]
    exact List.cons_ne_nil _ _
  have := List.head_dropWhile_not isMargin hne
  simpa only [← htail, List.head_cons] using this

theorem trimmed_ne_nil_of_isRawJson {value : Bytes} (h : isRawJson value = true) :
    trimmed value ≠ [] := by
  intro hnil
  have hdropped : value.dropWhile isMargin = [] := by
    by_contra hne
    have hall := List.rdropWhile_eq_nil_iff.mp hnil
    have hhead := List.head_dropWhile_not isMargin hne
    rw [hall _ (List.head_mem hne)] at hhead
    exact Bool.noConfusion hhead
  rw [isRawJson, hnil, hdropped] at h
  revert h
  decide

/-- What is written for a value is read as one value. -/
theorem jsonRawValue_argumentValue (value : Bytes) {s : Bytes} (hs : Ended s) :
    jsonRawValue (argumentValue value ++ s) = some (argumentValue value, s) := by
  have hstring (text : Text) := jsonRawValue_render (.string text) hs
  rw [argumentValue]
  split_ifs with hblank hraw
  · exact hstring []
  · obtain ⟨b, rest, tail, hb, hdropped, -⟩ := exists_cons_of_trimmed hblank
    rw [isRawJson, hdropped] at hraw
    simp only [List.head?_cons, Option.some.injEq, List.headD_cons] at hraw
    by_cases hbracket : b = 123 ∨ b = 91
    · rw [if_pos hbracket, decide_eq_true_eq, matchingDelimiter, if_pos List.head?_cons] at hraw
      have hscan := scanDelimiter_take s hraw
      rw [← hdropped, take_trimmed] at hscan
      have hread : matchingDelimiter (trimmed value ++ s) b (if b = 91 then 93 else 125) =
          some (trimmed value).length := by
        rw [matchingDelimiter, hb, List.cons_append, if_pos List.head?_cons, ← List.cons_append,
          ← hb, hscan]
      have hquote : b ≠ 34 := by rcases hbracket with rfl | rfl <;> decide
      have hstep : jsonRawValue (trimmed value ++ s) =
          (matchingDelimiter (trimmed value ++ s) b (if b = 91 then 93 else 125)).map fun n =>
            ((trimmed value ++ s).take n, (trimmed value ++ s).drop n) := by
        rw [hb, List.cons_append, jsonRawValue, if_neg hquote, if_pos hbracket.symm]
      rw [hstep, hread, Option.map_some, List.take_left, List.drop_left]
    · rw [if_neg hbracket] at hraw
      split_ifs at hraw with hliteral
      · rcases hliteral with h | h | h
        · rw [h]
          exact jsonRawValue_render (.literal .true) hs
        · rw [h]
          exact jsonRawValue_render (.literal .false) hs
        · rw [h]
          exact jsonRawValue_render (.literal .null) hs
      · rw [numericLiteral, Bool.and_eq_true, List.all_eq_true] at hraw
        exact jsonRawValue_scalar hblank
          (fun c hc => not_endsValue_of_isNumeric (hraw.1 c hc))
          (fun c hc => isNeutral_of_isNumeric (hraw.1 c (List.mem_of_mem_head? hc))) hs
  · rw [jsonEscape_eq]
    exact hstring (escapeText (trimmed value))

/-- Two readings of a value from one text agree. -/
theorem render_eq_argumentValue {v : Json .value} {value s t : Bytes}
    (h : v.render ++ s = argumentValue value ++ t) (hs : Ended s) (ht : Ended t) :
    v.render = argumentValue value ∧ s = t := by
  have hv := jsonRawValue_render v hs
  rw [h, jsonRawValue_argumentValue value ht, Option.some.injEq, Prod.mk.injEq] at hv
  exact ⟨hv.1.symm, hv.2.symm⟩

theorem trimmed_getLast {value : Bytes} (h : trimmed value ≠ []) :
    isMargin ((trimmed value).getLast h) = false := by
  exact Bool.eq_false_iff.mpr (List.rdropWhile_last_not isMargin (value.dropWhile isMargin) h)

theorem isMargin_of_isGap {b : Byte} (h : isGap b = true) : isMargin b = true := by
  simp only [isGap, Bool.or_eq_true, decide_eq_true_eq] at h
  rcases h with ((rfl | rfl) | rfl) | rfl <;> decide

theorem gap_eq_nil {g : Gap} {s : Bytes} {b : Byte} {t : Bytes} (h : g.bytes ++ s = b :: t)
    (hb : isGap b = false) : g.bytes = [] := by
  cases hg : g.bytes with
  | nil => rfl
  | cons c cs =>
    rw [hg, List.cons_append, List.cons.injEq] at h
    have hc := List.all_eq_true.mp g.blank c (hg ▸ List.mem_cons_self)
    rw [h.1, hb] at hc
    exact Bool.noConfusion hc

/-- A text without margins is well formed when it is the text of a value. -/
theorem wellFormed_trimmed {value : Bytes} (h : trimmed value ≠ []) :
    WellFormed (trimmed value) ↔ ∃ v : Json .value, trimmed value = v.render := by
  constructor
  · rintro ⟨before, v, after, heq⟩
    obtain ⟨b, rest, -, hb, -, hmargin⟩ := exists_cons_of_trimmed h
    have hgap : isGap b = false := by
      rw [Bool.eq_false_iff]
      intro hg
      rw [isMargin_of_isGap hg] at hmargin
      exact Bool.noConfusion hmargin
    have hbefore := gap_eq_nil (heq.symm.trans hb) hgap
    have hafter : after.bytes = [] := by
      by_contra hne
      have hlast := trimmed_getLast h
      have hmem : (trimmed value).getLast h ∈ after.bytes := by
        have hl : (trimmed value).getLast h = after.bytes.getLast hne := by
          simp only [heq]
          rw [List.getLast_append_of_ne_nil _ (by simp [hne]),
            List.getLast_append_of_ne_nil _ hne]
        rw [hl]
        exact List.getLast_mem hne
      rw [isMargin_of_isGap (List.all_eq_true.mp after.blank _ hmem)] at hlast
      exact Bool.noConfusion hlast
    rw [hbefore, hafter, List.nil_append, List.append_nil] at heq
    exact ⟨v, heq⟩
  · rintro ⟨v, hv⟩
    exact ⟨default, v, default, by rw [hv]; exact (List.append_nil _).symm⟩

/-- Whether a value that is written as it stands is JSON. -/
def Spliceable (value : Bytes) : Prop := isRawJson value = true → WellFormed (trimmed value)

theorem spliceable_iff {value : Bytes} :
    Spliceable value ↔ ∃ v : Json .value, argumentValue value = v.render := by
  constructor
  · intro h
    rw [argumentValue]
    split_ifs with hblank hraw
    · exact ⟨.string [], rfl⟩
    · exact (wellFormed_trimmed hblank).mp (h hraw)
    · exact ⟨.string (escapeText (trimmed value)), jsonEscape_eq _⟩
  · rintro ⟨v, hv⟩ hraw
    have hblank := trimmed_ne_nil_of_isRawJson hraw
    rw [argumentValue, if_neg hblank, if_pos hraw] at hv
    exact (wellFormed_trimmed hblank).mpr ⟨v, hv⟩

/-! ### Objects -/

def noGap : Gap := default

theorem exists_members (rest : List (Bytes × Bytes)) (h : ∀ p ∈ rest, Spliceable p.2) :
    ∃ members : Json .members,
      members.comma ++ members.render = rest.flatMap (44 :: jsonParameter ·) := by
  induction rest with
  | nil => exact ⟨.noMember, rfl⟩
  | cons p rest ih =>
    obtain ⟨members, hmembers⟩ := ih fun q hq => h q (List.mem_cons_of_mem p hq)
    obtain ⟨v, hv⟩ := spliceable_iff.mp (h p List.mem_cons_self)
    refine ⟨.member noGap (escapeText p.1) noGap noGap v noGap members, ?_⟩
    rw [List.flatMap_cons, ← hmembers, jsonParameter, hv, jsonEscape_eq]
    simp only [List.cons_append, List.append_assoc]
    rfl

theorem ended_gap (g : Gap) {s : Bytes} (hs : Ended s) : Ended (g.bytes ++ s) := by
  intro b hb
  cases hg : g.bytes with
  | nil =>
    rw [hg, List.nil_append] at hb
    exact hs b hb
  | cons c cs =>
    rw [hg] at hb
    have hc := List.all_eq_true.mp g.blank c (hg ▸ List.mem_cons_self)
    rw [← Option.some.inj hb]
    simp only [isGap, Bool.or_eq_true, decide_eq_true_eq] at hc
    rcases hc with ((rfl | rfl) | rfl) | rfl <;> decide

theorem ended_cons {b : Byte} (h : endsValue b = true) (s : Bytes) : Ended (b :: s) := fun c hc => by
  rw [← Option.some.inj hc]
  exact h

/-- What follows a value in an object. -/
theorem ended_comma (rest : Json .members) (s : Bytes) :
    Ended (rest.comma ++ (rest.render ++ 125 :: s)) := by
  cases rest with
  | noMember => exact ended_cons (by decide) s
  | member => exact ended_cons (by decide) _

theorem ended_parameters (rest : List (Bytes × Bytes)) :
    Ended (rest.flatMap (44 :: jsonParameter ·) ++ [125]) := by
  cases rest with
  | nil => exact ended_cons (by decide) []
  | cons p rest => exact ended_cons (by decide) _

theorem exists_cons_argumentValue (value : Bytes) :
    ∃ b rest, argumentValue value = b :: rest ∧ isGap b = false := by
  rw [argumentValue]
  split_ifs with hblank hraw
  · exact ⟨34, _, rfl, rfl⟩
  · obtain ⟨b, rest, -, hb, -, hmargin⟩ := exists_cons_of_trimmed hblank
    refine ⟨b, rest, hb, ?_⟩
    rw [Bool.eq_false_iff]
    intro hg
    rw [isMargin_of_isGap hg] at hmargin
    exact Bool.noConfusion hmargin
  · exact ⟨34, _, rfl, rfl⟩

/-- The member that is read where a parameter is written. -/
theorem exists_member {gap : Gap} {members : Json .members} {p : Bytes × Bytes} {s t : Bytes}
    (ht : Ended t) (h : gap.bytes ++ (members.render ++ 125 :: s) = jsonParameter p ++ t) :
    Spliceable p.2 ∧ ∃ (after : Gap) (rest : Json .members),
      after.bytes ++ (rest.comma ++ (rest.render ++ 125 :: s)) = t := by
  have hgap := gap_eq_nil h (by decide)
  rw [hgap, List.nil_append] at h
  cases members with
  | noMember => exact absurd (List.head_eq_of_cons_eq h) (by decide)
  | member before name beforeColon afterColon v after rest =>
    have hbefore := gap_eq_nil ((List.append_assoc _ _ _).symm.trans h) (by decide)
    have hshape : (Json.member before name beforeColon afterColon v after rest).render ++ 125 :: s =
        name.render ++ (beforeColon.bytes ++ 58 :: (afterColon.bytes ++ (v.render ++
          (after.bytes ++ (rest.comma ++ (rest.render ++ 125 :: s)))))) := by
      simp only [Json.render, hbefore, List.nil_append, List.append_assoc, List.cons_append]
    rw [hshape, jsonParameter, jsonEscape_eq, List.append_assoc] at h
    -- the names end at the same place
    have hread := jsonString_render name (beforeColon.bytes ++ 58 :: (afterColon.bytes ++ (v.render ++
      (after.bytes ++ (rest.comma ++ (rest.render ++ 125 :: s))))))
    rw [h, jsonString_render, Option.some.injEq, Prod.mk.injEq] at hread
    have hcolon := hread.2.symm
    rw [List.cons_append] at hcolon
    rw [gap_eq_nil hcolon (by decide), List.nil_append, List.cons.injEq] at hcolon
    obtain ⟨b, tail, hb, hbgap⟩ := exists_cons_argumentValue p.2
    have hvalue := hcolon.2
    rw [hb, List.cons_append] at hvalue
    rw [gap_eq_nil hvalue hbgap, List.nil_append, ← List.cons_append, ← hb] at hvalue
    obtain ⟨hv, hrest⟩ := render_eq_argumentValue hvalue (ended_gap after (ended_comma rest s)) ht
    exact ⟨spliceable_iff.mpr ⟨v, hv.symm⟩, after, rest, hrest⟩

/-- The members that are read from the parameters are the parameters. -/
theorem spliceable_of_members {s : Bytes} (rest : List (Bytes × Bytes)) :
    ∀ {p : Bytes × Bytes} {gap : Gap} {members : Json .members},
      gap.bytes ++ (members.render ++ 125 :: s) =
          jsonParameter p ++ (rest.flatMap (44 :: jsonParameter ·) ++ [125]) →
        ∀ q ∈ p :: rest, Spliceable q.2 := by
  induction rest with
  | nil =>
    intro p gap members h q hq
    rw [List.mem_singleton.mp hq]
    exact (exists_member (ended_parameters []) h).1
  | cons r rest ih =>
    intro p gap members h q hq
    obtain ⟨hp, after, tail, htail⟩ := exists_member (ended_parameters (r :: rest)) h
    rcases List.mem_cons.mp hq with rfl | hq
    · exact hp
    rw [List.flatMap_cons, List.cons_append, List.cons_append, List.append_assoc] at htail
    have hafter := gap_eq_nil htail (by decide)
    rw [hafter, List.nil_append] at htail
    cases tail with
    | noMember => exact absurd (List.head_eq_of_cons_eq htail) (by decide)
    | member before name beforeColon afterColon v after rest' =>
      have hrest : noGap.bytes ++ ((Json.member before name beforeColon afterColon v after
          rest').render ++ 125 :: s) = _ := List.tail_eq_of_cons_eq htail
      exact ih hrest q hq

/-- The parameters make an object exactly when each value that stands as it is written is JSON. -/
theorem isObject_xmlParameters (text : Bytes) :
    IsObject (xmlParameters text) ↔ ∀ p ∈ parameters text, Spliceable p.2 := by
  cases hp : parameters text with
  | nil =>
    refine ⟨fun _ p hp => absurd hp List.not_mem_nil, fun _ => ?_⟩
    rw [xmlParameters, hp, argumentsText]
    exact ⟨noGap, noGap, .noMember, noGap, by decide⟩
  | cons p rest =>
    rw [xmlParameters, hp, argumentsText]
    constructor
    · rintro ⟨before, gap, members, after, h⟩
      have hshape : before.bytes ++ 123 :: (gap.bytes ++ (members.render ++ 125 :: after.bytes)) =
          123 :: (jsonParameter p ++ (rest.flatMap (44 :: jsonParameter ·) ++ [125])) := by
        rw [h, Json.render]
        simp only [List.cons_append, List.append_assoc, List.nil_append]
      rw [gap_eq_nil hshape (by decide)] at hshape
      exact spliceable_of_members rest (List.tail_eq_of_cons_eq hshape)
    · intro h
      obtain ⟨members, hmembers⟩ := exists_members rest fun q hq => h q (List.mem_cons_of_mem p hq)
      obtain ⟨v, hv⟩ := spliceable_iff.mp (h p List.mem_cons_self)
      have hnil : noGap.bytes = [] := rfl
      refine ⟨noGap, noGap, .member noGap (escapeText p.1) noGap noGap v noGap members, noGap, ?_⟩
      rw [← hmembers, jsonParameter, hv, jsonEscape_eq]
      simp only [Json.render, hnil, List.nil_append, List.append_nil, List.cons_append,
        List.append_assoc]

/-! ### Calls -/

/-- The texts that the loop of `parseToolCalls` tries to read as calls. -/
def callTexts (s : Bytes) : List Bytes :=
  match _h : nextCut s with
  | none => []
  | some cut => cut.segment :: callTexts cut.behind
termination_by s.length
decreasing_by exact Cut.behind_length _h

theorem callTexts_cons {s : Bytes} {cut : Cut} (h : nextCut s = some cut) :
    callTexts s = cut.segment :: callTexts cut.behind := by
  rw [callTexts]
  split
  · rename_i heq
    rw [h] at heq
    exact nomatch heq
  · rename_i heq
    rw [h, Option.some.injEq] at heq
    rw [heq]

/-- The calls are those texts that can be read as one. -/
theorem toolCallScan_calls (s : Bytes) :
    ∀ skipped : Bytes, (toolCallScan skipped s).2 = (callTexts s).filterMap parseToolSegment := by
  induction s using callTexts.induct with
  | case1 s h =>
    intro skipped
    rw [toolCallScan_none h, callTexts]
    split
    · rfl
    · rename_i heq
      rw [h] at heq
      exact nomatch heq
  | case2 s cut h ih =>
    intro skipped
    rw [callTexts_cons h]
    cases hcall : parseToolSegment cut.segment with
    | none => rw [toolCallScan_text h hcall, ih, List.filterMap_cons_none hcall]
    | some call => rw [toolCallScan_call h hcall, ih, List.filterMap_cons_some hcall]

theorem parseToolCalls_calls (raw : Bytes) :
    (parseToolCalls raw).2 = (callTexts raw).filterMap parseToolSegment := by
  rw [← toolCallScan_calls raw [], parseToolCalls]
  by_cases h : (toolCallScan [] raw).2 = []
  · rw [if_pos h, h]
  · rw [if_neg h]

/-! ### Encoded text -/

theorem valid_jsonEscape_iff (text : Bytes) : Utf8.Valid (jsonEscape text) ↔ Utf8.Valid text := by
  have hlow : ∀ b : Byte, b.toNat < 128 → escapeByte b ≠ [] ∧ ∀ c ∈ escapeByte b, c.toNat < 128 := by
    have hall : ∀ n < 128, escapeByte (UInt8.ofNat n) ≠ [] ∧ ∀ c ∈ escapeByte (UInt8.ofNat n), c.toNat < 128 := by
      decide +kernel
    intro b hb
    have := hall b.toNat hb
    rwa [UInt8.ofNat_toNat] at this
  have hhigh : ∀ b : Byte, 128 ≤ b.toNat → escapeByte b = [b] := by
    have hall : ∀ n < 128, escapeByte (UInt8.ofNat (128 + n)) = [UInt8.ofNat (128 + n)] := by decide +kernel
    intro b hb
    have := hall (b.toNat - 128) (by have := b.toNat_lt; omega)
    rwa [Nat.add_sub_cancel' hb, UInt8.ofNat_toNat] at this
  have hquote : ∀ b ∈ ([34] : Bytes), b.toNat < 128 := by decide +kernel
  rw [jsonEscape, ← List.singleton_append, Utf8.valid_ascii_append_iff hquote, Utf8.valid_append_iff (by simp),
    and_iff_left (Utf8.valid_ascii hquote), Utf8.valid_flatMap_iff hlow hhigh]

theorem toNat_lt_of_isMargin {b : Byte} (h : isMargin b = true) : b.toNat < 128 :=
  Nat.lt_of_le_of_lt (UInt8.le_iff_toNat_le.mp (of_decide_eq_true h)) (by decide)

theorem valid_trimmed_iff (value : Bytes) : Utf8.Valid (trimmed value) ↔ Utf8.Valid value := by
  obtain ⟨tail, htail⟩ := trimmed_prefix_dropWhile value
  have hfront : ∀ b ∈ value.takeWhile isMargin, b.toNat < 128 := fun b hb =>
    toNat_lt_of_isMargin (List.mem_takeWhile_imp hb)
  have hsplit : trimmed value ++ ((value.dropWhile isMargin).reverse.takeWhile isMargin).reverse =
      value.dropWhile isMargin := by
    have hreverse := congrArg List.reverse
      (List.takeWhile_append_dropWhile (p := isMargin) (l := (value.dropWhile isMargin).reverse))
    rwa [List.reverse_append, List.reverse_reverse] at hreverse
  have hmargin : ∀ b ∈ tail, b.toNat < 128 := by
    intro b hb
    rw [List.append_cancel_left (htail.trans hsplit.symm), List.mem_reverse] at hb
    exact toNat_lt_of_isMargin (List.mem_takeWhile_imp hb)
  conv_rhs => rw [← List.takeWhile_append_dropWhile (p := isMargin) (l := value)]
  rw [Utf8.valid_ascii_append_iff hfront, ← htail,
    Utf8.valid_append_iff fun b hb => hmargin b (List.mem_of_mem_head? hb), and_iff_left (Utf8.valid_ascii hmargin)]

theorem valid_argumentValue_iff (value : Bytes) : Utf8.Valid (argumentValue value) ↔ Utf8.Valid value := by
  rw [← valid_trimmed_iff value, argumentValue]
  split_ifs with hblank hraw
  · rw [hblank]
    exact iff_of_true (Utf8.valid_ascii (by decide +kernel)) Utf8.valid_nil
  · rfl
  · exact valid_jsonEscape_iff _

theorem valid_jsonParameter_iff (p : Bytes × Bytes) :
    Utf8.Valid (jsonParameter p) ↔ Utf8.Valid p.1 ∧ Utf8.Valid p.2 := by
  have hcolon : ∀ b ∈ ([58] : Bytes), b.toNat < 128 := by decide +kernel
  rw [jsonParameter, Utf8.valid_append_iff (by simp), valid_jsonEscape_iff, ← List.singleton_append,
    Utf8.valid_ascii_append_iff hcolon, valid_argumentValue_iff]

/-- The parameters are UTF-8 exactly when the names and values are. -/
theorem valid_xmlParameters (text : Bytes) :
    Utf8.Valid (xmlParameters text) ↔ ∀ p ∈ parameters text, Utf8.Valid p.1 ∧ Utf8.Valid p.2 := by
  have hcomma : ∀ rest : List (Bytes × Bytes), ∀ b ∈ (rest.flatMap (44 :: jsonParameter ·) ++ [125]).head?,
      b.toNat < 128 := by
    intro rest
    cases rest with
    | nil => simp
    | cons p rest => simp
  have hrest : ∀ rest : List (Bytes × Bytes), Utf8.Valid (rest.flatMap (44 :: jsonParameter ·) ++ [125]) ↔
      ∀ p ∈ rest, Utf8.Valid p.1 ∧ Utf8.Valid p.2 := by
    intro rest
    induction rest with
    | nil => exact iff_of_true (Utf8.valid_ascii (by decide +kernel)) fun p hp => absurd hp List.not_mem_nil
    | cons p rest ih =>
      rw [List.flatMap_cons, List.append_assoc, List.cons_append, ← List.singleton_append,
        Utf8.valid_ascii_append_iff (by decide +kernel), Utf8.valid_append_iff (hcomma rest),
        valid_jsonParameter_iff, ih, List.forall_mem_cons]
  rw [xmlParameters]
  cases parameters text with
  | nil => exact iff_of_true (Utf8.valid_ascii (by decide +kernel)) fun p hp => absurd hp List.not_mem_nil
  | cons p rest =>
    rw [argumentsText, ← List.singleton_append, Utf8.valid_ascii_append_iff (by decide +kernel),
      Utf8.valid_append_iff (hcomma rest), valid_jsonParameter_iff, hrest, List.forall_mem_cons]

/-! ### The text of an object -/

/-- A JSON object in UTF-8 stands at the beginning of the text. -/
def StartsObject (text : Bytes) : Prop :=
  ∃ (gap : Gap) (members : Json .members) (rest : Bytes),
    text = (Json.object gap members).render ++ rest ∧ Utf8.Valid (Json.object gap members).render

theorem jsonRawValue_object (gap : Gap) (members : Json .members) (s : Bytes) :
    jsonRawValue ((Json.object gap members).render ++ s) = some ((Json.object gap members).render, s) := by
  have hread := matchingDelimiter_object gap members s
  obtain ⟨inner, hinner⟩ : ∃ inner, (Json.object gap members).render = 123 :: inner := ⟨_, rfl⟩
  rw [hinner, List.cons_append] at hread
  rw [hinner, List.cons_append, jsonRawValue, if_neg (by decide), if_pos (.inr rfl), if_neg (by decide), hread,
    Option.map_some, ← List.cons_append, List.take_left, List.drop_left]

/-- What is read is the front of the text, which starts with no blank. -/
theorem prefix_of_jsonRawValue {s : Bytes} {r : Bytes × Bytes} (h : jsonRawValue s = some r) :
    r.1 <+: s ∧ ∃ b t, s = b :: t ∧ isGap b = false := by
  cases s with
  | nil => cases h
  | cons b t =>
    have hgap : ∀ c : Byte, ¬ endsValue c = true → isGap c = false := by
      intro c hc
      simp only [endsValue, isGap, Bool.or_eq_true, Bool.or_eq_false_iff, decide_eq_true_eq, decide_eq_false_iff_not]
        at hc ⊢
      tauto
    rw [jsonRawValue] at h
    by_cases hquote : b = 34
    · rw [if_pos hquote] at h
      obtain ⟨q, -, rfl⟩ := Option.map_eq_some_iff.mp h
      exact ⟨List.take_prefix _ _, b, t, rfl, by rw [hquote]; decide⟩
    rw [if_neg hquote] at h
    by_cases hbracket : b = 91 ∨ b = 123
    · rw [if_pos hbracket] at h
      obtain ⟨n, -, rfl⟩ := Option.map_eq_some_iff.mp h
      refine ⟨List.take_prefix _ _, b, t, rfl, ?_⟩
      rcases hbracket with rfl | rfl <;> decide
    rw [if_neg hbracket] at h
    by_cases hends : endsValue b = true
    · rw [if_pos hends] at h
      cases h
    rw [if_neg hends] at h
    rw [← Option.some.inj h]
    exact ⟨List.takeWhile_prefix _, b, t, rfl, hgap b hends⟩

/-- What is read is an object exactly when one begins there. -/
theorem jsonRawValue_isObject_iff {s : Bytes} {r : Bytes × Bytes} (h : jsonRawValue s = some r) :
    IsObject r.1 ∧ Utf8.Valid r.1 ↔ StartsObject s := by
  constructor
  · rintro ⟨⟨before, gap, members, after, hobject⟩, hvalid⟩
    obtain ⟨⟨rest, hrest⟩, b, t, hb, hgap⟩ := prefix_of_jsonRawValue h
    have hbefore : before.bytes = [] := by
      rw [hobject, List.append_assoc, hb] at hrest
      exact gap_eq_nil hrest hgap
    rw [hbefore, List.nil_append] at hobject
    have hs : s = (Json.object gap members).render ++ (after.bytes ++ rest) := by
      rw [← hrest, hobject, List.append_assoc]
    -- the reader stops at the closing bracket
    rw [hs, jsonRawValue_object, Option.some.injEq] at h
    rw [← h] at hvalid
    exact ⟨gap, members, _, hs, hvalid⟩
  · rintro ⟨gap, members, rest, rfl, hvalid⟩
    rw [jsonRawValue_object, Option.some.injEq] at h
    rw [← h]
    exact ⟨⟨default, gap, members, default, (List.append_nil _).symm⟩, hvalid⟩

/-! ### Texts of calls -/

/-- The condition on a text that is tried as a call.  With a function name the parameters are UTF-8 and those that
are written as they stand are JSON; in the JSON form, with a name, an object begins behind the key of the arguments,
where a value does. -/
def Strict (segment : Bytes) : Prop :=
  match find functionOpening segment with
  | some i =>
    let rest := segment.drop (i + functionOpening.length)
    ∀ n ∈ find [62] rest, 0 < n →
      ∀ p ∈ parameters (rest.drop (n + 1)), Spliceable p.2 ∧ Utf8.Valid p.1 ∧ Utf8.Valid p.2
  | none =>
    let raw := trimmed segment
    raw.head? = some 123 → jsonStringValue raw (ascii "name") [] ≠ [] →
      ∀ value ∈ jsonKey (ascii "arguments") raw raw.length, (jsonRawValue value).isSome → StartsObject value

/-- What a client relies on: a name, and an object in UTF-8. -/
def ToolCall.Valid (call : ToolCall) : Prop :=
  call.name ≠ [] ∧ IsObject call.arguments ∧ Utf8.Valid call.arguments

/-- A text that is tried as a call gives a valid one, or none. -/
theorem valid_iff (segment : Bytes) :
    (∀ call ∈ parseToolSegment segment, call.Valid) ↔ Strict segment := by
  -- no call at all is in order
  have hnone : ∀ call ∈ (none : Option ToolCall), call.Valid := fun call h => absurd h (Option.not_mem_none call)
  rw [parseToolSegment, Strict]
  cases hf : find functionOpening segment with
  | some i =>
    simp only
    cases hn : find [62] (segment.drop (i + functionOpening.length)) with
    | none => exact iff_of_true hnone fun n h => absurd h (Option.not_mem_none n)
    | some n =>
      cases n with
      | zero =>
        exact iff_of_true hnone fun n h hpos =>
          absurd (Option.some.inj h ▸ hpos) (Nat.lt_irrefl 0)
      | succ n =>
        have hname : (segment.drop (i + functionOpening.length)).take (n + 1) ≠ [] := by
          have hfit := find_add_length_le (List.cons_ne_nil 62 []) hn
          intro hnil
          have := congrArg List.length hnil
          rw [List.length_take, List.length_nil] at this
          omega
        simp only [Option.mem_def, Option.some.injEq, forall_eq', ToolCall.Valid, Nat.succ_pos, true_implies]
        rw [and_iff_right hname, isObject_xmlParameters, valid_xmlParameters]
        exact ⟨fun h p hp => ⟨h.1 p hp, h.2 p hp⟩, fun h => ⟨fun p hp => (h p hp).1, fun p hp => (h p hp).2⟩⟩
  | none =>
    simp only
    by_cases hhead : (trimmed segment).head? = some 123
    swap
    · rw [if_pos hhead]
      exact iff_of_true hnone fun h => absurd h hhead
    rw [if_neg (not_not.mpr hhead)]
    by_cases hname : jsonStringValue (trimmed segment) (ascii "name") [] = []
    · rw [if_pos hname]
      exact iff_of_true hnone fun _ h => absurd hname h
    rw [if_neg hname]
    cases hvalue : jsonKey (ascii "arguments") (trimmed segment) (trimmed segment).length with
    | none =>
      have hobject : IsObject (ascii "\x7b\x7d") := ⟨noGap, noGap, .noMember, noGap, by decide⟩
      have hvalid : Utf8.Valid (ascii "\x7b\x7d") := Utf8.valid_ascii (by decide +kernel)
      refine iff_of_true (fun call h => ?_) fun _ _ value h => absurd h (Option.not_mem_none value)
      rw [← Option.some.inj h]
      exact ⟨hname, hobject, hvalid⟩
    | some value =>
      simp only [Option.mem_def, Option.some.injEq, forall_eq', hhead, true_implies]
      rw [forall_prop_of_true hname]
      cases hr : jsonRawValue value with
      | none => exact iff_of_true hnone fun h => Bool.noConfusion h
      | some r =>
        simp only [Option.map_some, Option.some.injEq, forall_eq', ToolCall.Valid, Option.isSome_some, true_implies]
        rw [and_iff_right hname, jsonRawValue_isObject_iff hr]

/-- **The calls of a text carry JSON objects** exactly when the texts of the calls are strict. -/
theorem validArguments_iff (raw : Bytes) :
    (∀ call ∈ (parseToolCalls raw).2, call.Valid) ↔ ∀ segment ∈ callTexts raw, Strict segment := by
  rw [parseToolCalls_calls]
  constructor
  · intro h segment hmem
    refine (valid_iff segment).mp fun call hcall => ?_
    exact h call (List.mem_filterMap.mpr ⟨segment, hmem, hcall⟩)
  · intro h call hmem
    obtain ⟨segment, hsegment, hcall⟩ := List.mem_filterMap.mp hmem
    exact (valid_iff segment).mpr (h segment hsegment) call hcall

/-- A call with a telephone number. -/
def phoneCall : Bytes := ascii "<function=dial><parameter=number>+1</parameter></function>"

def phoneParameters : Bytes := ascii "<parameter=number>+1</parameter>"

/-- The telephone number is written as it stands, and is no JSON number. -/
theorem not_valid_phoneCall :
    ¬ ∀ raw : Bytes, ∀ call ∈ (parseToolCalls raw).2, call.name ≠ [] ∧ IsObject call.arguments := by
  intro h
  have hcalls : (parseToolCalls phoneCall).2 = [⟨ascii "dial", xmlParameters phoneParameters⟩] := by
    decide +kernel
  have hparameters : (ascii "number", ascii "+1") ∈ parameters phoneParameters := by
    decide +kernel
  have hobject := (h phoneCall _ (by rw [hcalls]; exact List.mem_cons_self)).2
  have hvalue := (isObject_xmlParameters _).mp hobject _ hparameters (by decide)
  obtain ⟨v, hv⟩ := (wellFormed_trimmed (by decide)).mp hvalue
  have hplus : (43 : Byte) :: [49] = v.render := hv
  cases v with
  | literal l => cases l <;> exact absurd (List.head_eq_of_cons_eq hplus) (by decide)
  | number n =>
    obtain ⟨b, rest, hn, -, hb⟩ := number_ne_nil n
    rw [Json.render, hn] at hplus
    have hb43 : b = 43 := (List.head_eq_of_cons_eq hplus).symm
    rw [hb43] at hb
    exact absurd hb (by decide)
  | string text => exact absurd (List.head_eq_of_cons_eq hplus) (by decide)
  | array gap elements => exact absurd (List.head_eq_of_cons_eq hplus) (by decide)
  | object gap members => exact absurd (List.head_eq_of_cons_eq hplus) (by decide)

end Chat

end FortAI
