import FortAI.Chat.Template
import FortAI.Machine.Tag

/-!
# Splitting off the reasoning

An answer that reasons first is `r</think>c` when the prompt has opened the block, and
`<think>r</think>c` when it has not.  `split_reasoning` looks for the first `<think>` in the whole
text, so in the first form an answer `c` that quotes the tag is cut at the quotation.

* `find_openThink` : the first `<think>` of an answer of the first form is in its content.
* `splits_iff` : both forms are split as they are meant exactly when the content does not hold a
  `<think>`.
-/

namespace FortAI

namespace Chat

open CString Character Tag

def openThink : Bytes := ascii "<think>"
def closeThink : Bytes := ascii "</think>"

/-- The answer is taken apart into its content, without line ends around it, and its reasoning,
without line ends before it. -/
def Splits (raw reasoning content : Bytes) (enableThinking : Bool) : Prop :=
  splitReasoning raw enableThinking (ascii "auto") =
    ((content.dropWhile isNewline).rdropWhile isNewline, reasoning.dropWhile isNewline)

instance (raw reasoning content : Bytes) (enableThinking : Bool) :
    Decidable (Splits raw reasoning content enableThinking) :=
  inferInstanceAs (Decidable (_ = _))

variable {r c : Bytes}

theorem isTag_openThink : IsTag openThink := by decide

theorem isTag_closeThink : IsTag closeThink := by decide

/-- The first `<think>` of a text stands behind the line ends it starts with. -/
theorem find_behindNewlines :
    find openThink c =
      (find openThink (c.dropWhile isNewline)).map (· + (c.takeWhile isNewline).length) := by
  have hnewlines : (60 : Byte) ∉ c.takeWhile isNewline := fun h =>
    absurd (List.mem_takeWhile_imp h) (by decide)
  rw [← find_of_not_mem isTag_openThink hnewlines, List.takeWhile_append_dropWhile]

/-- A `<think>` in the answer is one in its content. -/
theorem find_openThink (hopen : ¬ openThink <:+: r) :
    find openThink (r ++ (closeThink ++ c)) =
      (find openThink c).map (· + (8 + r.length)) := by
  rw [find_append_tag isTag_openThink hopen (starts_tag isTag_closeThink c),
    find_tag_append isTag_openThink isTag_closeThink (by decide)]
  simp only [Option.map_map]
  congr 1
  funext i
  exact Nat.add_assoc i 8 r.length

theorem find_closeThink (hclose : ¬ closeThink <:+: r) :
    find closeThink (r ++ (closeThink ++ c)) = some r.length := find_tag isTag_closeThink hclose c

theorem drop_closeThink : (r ++ (closeThink ++ c)).drop (r.length + 8) = c := by
  rw [← List.drop_drop, List.drop_left]
  exact @List.drop_left Byte closeThink c

/-- An answer of the first form without `<think>`. -/
theorem splits_closed {enableThinking : Bool} (hopen : ¬ openThink <:+: r)
    (hclose : ¬ closeThink <:+: r) (hc : find openThink c = none) :
    Splits (r ++ (closeThink ++ c)) r c enableThinking := by
  have hne : r ++ (closeThink ++ c) ≠ [] := by simp [closeThink, ascii]
  have hstart : index (r ++ (closeThink ++ c)) (ascii "<think>") = 0 := by
    rw [index, show ascii "<think>" = openThink from rfl, find_openThink hopen, hc]
    rfl
  have hmarker : 0 < index (r ++ (closeThink ++ c)) (ascii "</think>") := by
    rw [index, show ascii "</think>" = closeThink from rfl, find_closeThink hclose]
    exact Nat.succ_pos _
  rw [Splits, splitReasoning, if_neg hne, if_neg (by decide)]
  simp only [hstart, Nat.lt_irrefl, false_or, hmarker, not_true_eq_false, false_and, if_false]
  rw [show ascii "</think>" = closeThink from rfl, find_closeThink hclose, if_neg (by decide)]
  simp only [drop_closeThink, List.take_left]
  rfl

/-- An answer of the second form. -/
theorem splits_opened {enableThinking : Bool} (hclose : ¬ closeThink <:+: r) :
    Splits (openThink ++ (r ++ (closeThink ++ c))) r c enableThinking := by
  have hne : openThink ++ (r ++ (closeThink ++ c)) ≠ [] := by simp [openThink, ascii]
  have hstart : index (openThink ++ (r ++ (closeThink ++ c))) (ascii "<think>") = 1 := by
    rw [index, show ascii "<think>" = openThink from rfl,
      find_eq_some_zero (List.prefix_append openThink _)]
    rfl
  have hdrop : (openThink ++ (r ++ (closeThink ++ c))).drop 7 = r ++ (closeThink ++ c) :=
    @List.drop_left Byte openThink _
  rw [Splits, splitReasoning, if_neg hne, if_neg (by decide)]
  simp only [hstart, Nat.one_pos, true_or, not_true_eq_false, false_and, if_false, if_true,
    Nat.sub_self, Nat.zero_add, hdrop]
  rw [show ascii "</think>" = closeThink from rfl, find_closeThink hclose, if_neg (by decide)]
  simp only [drop_closeThink, List.take_left]
  rfl

/-- What stands before the first match does not stand again at a place between the length of the
needle and the match: the match would follow it there, and come earlier. -/
theorem drop_ne_take_append {needle s y : Bytes} {m k : ℕ} (hne : needle ≠ [])
    (hk : find needle s = some k) (hm : needle.length ≤ m) (hmk : m ≤ k) :
    s.drop m ≠ s.take k ++ y := by
  intro heq
  have hfit := find_add_length_le hne hk
  have hpos := List.length_pos_iff.mpr hne
  have htail : s.drop k = (s.take k).drop (k - m) ++ y := by
    have hlength : k - m ≤ (s.take k).length := by simp; omega
    rw [← List.drop_append_of_le_length hlength, ← heq, List.drop_drop]
    congr 1
    omega
  have hfront : needle <+: (s.take k).drop (k - m) := by
    refine List.prefix_of_prefix_length_le (prefix_of_find hk) (htail ▸ List.prefix_append _ _) ?_
    simp
    omega
  have hearlier : needle <+: s.drop (k - m) :=
    hfront.trans (by rw [List.drop_take]; exact List.take_prefix _ _)
  obtain ⟨i, hi, hfound⟩ := find_le hne hearlier
  rw [hk, Option.some.injEq] at hfound
  omega

/-- A `<think>` in the content is taken for the opening of the block. -/
theorem not_splits {enableThinking : Bool} {j : ℕ} (hopen : ¬ openThink <:+: r)
    (hj : find openThink c = some j) : ¬ Splits (r ++ (closeThink ++ c)) r c enableThinking := by
  intro hsplits
  have hk : find openThink (r ++ (closeThink ++ c)) = some (j + (8 + r.length)) := by
    rw [find_openThink hopen, hj]
    rfl
  have hne : r ++ (closeThink ++ c) ≠ [] := by simp [closeThink, ascii]
  have hstart : index (r ++ (closeThink ++ c)) (ascii "<think>") = j + (8 + r.length) + 1 := by
    rw [index, show ascii "<think>" = openThink from rfl, hk]
    rfl
  -- the content that is read starts with everything before the `<think>`
  obtain ⟨y, hy⟩ : ∃ y, (c.dropWhile isNewline).rdropWhile isNewline =
      (r ++ (closeThink ++ c)).take (j + (8 + r.length)) ++ y := by
    rw [Splits, splitReasoning, if_neg hne, if_neg (by decide)] at hsplits
    simp only [hstart, Nat.succ_pos, true_or, not_true_eq_false, false_and, if_false, if_true,
      Nat.add_sub_cancel] at hsplits
    rw [if_neg (by decide)] at hsplits
    split at hsplits
    · exact ⟨_, (congrArg Prod.fst hsplits).symm⟩
    · exact ⟨[], by rw [List.append_nil]; exact (congrArg Prod.fst hsplits).symm⟩
  obtain ⟨v, hv⟩ := List.rdropWhile_prefix (p := isNewline) (c.dropWhile isNewline)
  have hbehind : find openThink c = _ := find_behindNewlines
  rw [hj] at hbehind
  obtain ⟨i, -, hi⟩ := Option.map_eq_some_iff.mp hbehind.symm
  refine drop_ne_take_append (m := r.length + 8 + (c.takeWhile isNewline).length) (y := y ++ v)
    (by decide) hk ?_ (by omega) ?_
  · show 7 ≤ _
    omega
  · have hc : c.drop (c.takeWhile isNewline).length = c.dropWhile isNewline := by
      have hall := List.takeWhile_append_dropWhile (p := isNewline) (l := c)
      exact (congrArg (List.drop _) hall.symm).trans List.drop_left
    calc (r ++ (closeThink ++ c)).drop (r.length + 8 + (c.takeWhile isNewline).length)
        = c.dropWhile isNewline := by rw [← List.drop_drop, drop_closeThink, hc]
      _ = (c.dropWhile isNewline).rdropWhile isNewline ++ v := hv.symm
      _ = (r ++ (closeThink ++ c)).take (j + (8 + r.length)) ++ (y ++ v) := by
        rw [hy, List.append_assoc]

/-- Both forms of an answer are split into their reasoning and their content, whatever the request
says about thinking, exactly when the content does not hold a `<think>`. -/
theorem splits_iff (r c : Bytes) (enableThinking : Bool) (hopen : ¬ ascii "<think>" <:+: r)
    (hclose : ¬ ascii "</think>" <:+: r) :
    (Splits (r ++ ascii "</think>" ++ c) r c enableThinking ∧
      Splits (ascii "<think>" ++ r ++ ascii "</think>" ++ c) r c enableThinking) ↔
      ¬ ascii "<think>" <:+: c := by
  have hfirst : r ++ ascii "</think>" ++ c = r ++ (closeThink ++ c) := List.append_assoc _ _ _
  have hsecond : ascii "<think>" ++ r ++ ascii "</think>" ++ c =
      openThink ++ (r ++ (closeThink ++ c)) := by
    simp only [List.append_assoc]
    rfl
  have hfind : find openThink c = none ↔ ¬ ascii "<think>" <:+: c := find_eq_none (by decide)
  rw [hfirst, hsecond, ← hfind]
  constructor
  · rintro ⟨hsplits, -⟩
    cases hj : find openThink c with
    | none => rfl
    | some j => exact absurd hsplits (not_splits hopen hj)
  · intro hc
    exact ⟨splits_closed hopen hclose hc, splits_opened hclose⟩

/-- An answer about the tags. -/
theorem not_splits_quotedTag :
    ¬ ascii "<think>" <:+: ascii "hm" ∧ ¬ ascii "</think>" <:+: ascii "hm" ∧
      ¬ Splits (ascii "hm" ++ ascii "</think>" ++ ascii "write <think> first") (ascii "hm")
        (ascii "write <think> first") true := by
  decide

theorem splits_plainAnswer :
    Splits (ascii "hm" ++ ascii "</think>" ++ ascii "\nyes") (ascii "hm") (ascii "\nyes") true ∧
      Splits (ascii "<think>" ++ ascii "hm" ++ ascii "</think>" ++ ascii "\nyes") (ascii "hm")
        (ascii "\nyes") true :=
  (splits_iff (ascii "hm") (ascii "\nyes") true (by decide) (by decide)).mpr (by decide)

end Chat

end FortAI
