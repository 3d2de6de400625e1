import FortAI.Machine.CString

/-!
# Tags

A tag is a text that starts with `<` and has no other `<`.  Two tags never overlap, so a tag that is
not in one of two texts can only start at the second one, and only if that one starts with `<`.

* `find_tag` : a tag behind a text without it is found where it stands.
* `not_infix_append` : texts without a tag, one behind the other.
* `not_infix_tag` : another tag does not bring it in.
-/

namespace FortAI

namespace Tag

open CString

def IsTag (tag : Bytes) : Prop := tag.head? = some 60 ∧ 60 ∉ tag.tail

instance (tag : Bytes) : Decidable (IsTag tag) := inferInstanceAs (Decidable (_ ∧ _))

/-- A text behind which a tag can end only if it starts there. -/
def Starts (s : Bytes) : Prop := s = [] ∨ s.head? = some 60

theorem starts_tag {tag : Bytes} (h : IsTag tag) (s : Bytes) : Starts (tag ++ s) := by
  obtain ⟨tail, rfl⟩ := List.head?_eq_some_iff.mp h.1
  exact Or.inr rfl

theorem IsTag.ne_nil {tag : Bytes} (h : IsTag tag) : tag ≠ [] := by
  rintro rfl
  exact nomatch h.1

/-- A tag that starts in a text, and not in that text alone, reaches into the next one. -/
theorem not_prefix_append {tag a b : Bytes} (h : IsTag tag) (ha : a ≠ []) (hb : Starts b)
    (hfree : ¬ tag <+: a) : ¬ tag <+: a ++ b := by
  rintro ⟨r, hr⟩
  rcases List.prefix_or_prefix_of_prefix ⟨r, hr⟩ (List.prefix_append a b) with hin | ⟨x, hx⟩
  · exact hfree hin
  obtain ⟨c, rest, rfl⟩ := List.exists_cons_of_ne_nil ha
  cases x with
  | nil =>
    rw [List.append_nil] at hx
    exact hfree (hx ▸ List.prefix_refl _)
  | cons d x =>
    rw [← hx, List.append_assoc, List.append_cancel_left_eq] at hr
    have hd : d = 60 := by
      rcases hb with rfl | hb
      · exact absurd hr (List.cons_ne_nil _ _)
      · rw [← hr] at hb
        exact Option.some.inj hb
    refine h.2 ?_
    rw [← hx, hd]
    exact List.mem_append_right _ List.mem_cons_self

theorem not_infix_append {tag a b : Bytes} (h : IsTag tag) (ha : ¬ tag <:+: a) (hb : ¬ tag <:+: b)
    (hstarts : Starts b) : ¬ tag <:+: a ++ b := by
  induction a with
  | nil => exact hb
  | cons c a ih =>
    rw [List.infix_cons_iff, not_or] at ha
    rw [List.cons_append, List.infix_cons_iff, not_or]
    exact ⟨not_prefix_append h (List.cons_ne_nil c a) hstarts ha.1, ih ha.2⟩

/-- What stands before a tag starts in no text without `<`. -/
theorem not_infix_of_not_mem {tag a b : Bytes} (h : IsTag tag) (ha : 60 ∉ a) (hb : ¬ tag <:+: b) :
    ¬ tag <:+: a ++ b := by
  induction a with
  | nil => exact hb
  | cons c a ih =>
    rw [List.mem_cons, not_or] at ha
    rw [List.cons_append, List.infix_cons_iff, not_or]
    refine ⟨fun hprefix => ?_, ih ha.2⟩
    obtain ⟨tail, rfl⟩ := List.head?_eq_some_iff.mp h.1
    exact ha.1 (List.cons_prefix_cons.mp hprefix).1

/-- Two tags of which none is the start of the other. -/
def Apart (tag other : Bytes) : Prop := ¬ tag <+: other ∧ ¬ other <+: tag

instance (tag other : Bytes) : Decidable (Apart tag other) := inferInstanceAs (Decidable (_ ∧ _))

theorem Apart.not_prefix {tag other : Bytes} (h : Apart tag other) (b : Bytes) :
    ¬ tag <+: other ++ b := fun hprefix =>
  (List.prefix_or_prefix_of_prefix hprefix (List.prefix_append other b)).elim h.1 h.2

theorem not_infix_tag {tag other b : Bytes} (h : IsTag tag) (hother : IsTag other)
    (hapart : Apart tag other) (hb : ¬ tag <:+: b) : ¬ tag <:+: other ++ b := by
  obtain ⟨tail, rfl⟩ := List.head?_eq_some_iff.mp hother.1
  rw [List.cons_append, List.infix_cons_iff, not_or, ← List.cons_append]
  exact ⟨hapart.not_prefix b, not_infix_of_not_mem h hother.2 hb⟩

/-- A search passes over a text without the tag. -/
theorem find_append_tag {tag a b : Bytes} (h : IsTag tag) (ha : ¬ tag <:+: a) (hb : Starts b) :
    find tag (a ++ b) = (find tag b).map (· + a.length) := by
  induction a with
  | nil => simp
  | cons c a ih =>
    rw [List.infix_cons_iff, not_or] at ha
    have hprefix := not_prefix_append h (List.cons_ne_nil c a) hb ha.1
    rw [List.cons_append] at hprefix ⊢
    rw [find_cons_of_not_starts hprefix, ih ha.2, Option.map_map]
    rfl

/-- A search passes over a text without `<`. -/
theorem find_of_not_mem {tag a : Bytes} (h : IsTag tag) (ha : 60 ∉ a) (b : Bytes) :
    find tag (a ++ b) = (find tag b).map (· + a.length) := by
  obtain ⟨tail, rfl⟩ := List.head?_eq_some_iff.mp h.1
  exact find_skip b ha

/-- A search passes over another tag. -/
theorem find_tag_append {tag other : Bytes} (h : IsTag tag) (hother : IsTag other)
    (hapart : Apart tag other) (b : Bytes) :
    find tag (other ++ b) = (find tag b).map (· + other.length) := by
  have hprefix := hapart.not_prefix b
  obtain ⟨tail, rfl⟩ := List.head?_eq_some_iff.mp hother.1
  rw [List.cons_append] at hprefix ⊢
  have htail : find tag (tail ++ b) = _ := find_of_not_mem h hother.2 b
  rw [find_cons_of_not_starts hprefix, htail, Option.map_map]
  rfl

theorem find_tag {tag a : Bytes} (h : IsTag tag) (ha : ¬ tag <:+: a) (b : Bytes) :
    find tag (a ++ (tag ++ b)) = some a.length := by
  rw [find_append_tag h ha (starts_tag h b), find_eq_some_zero (List.prefix_append tag b),
    Option.map_some, Nat.zero_add]

end Tag

end FortAI
