import FortAI.Machine.CString

/-!
# Multipart bodies

The parts of a body stand behind delimiters, each with its header lines, an empty line and a payload.

* `find_behind`, `find_eq_length`, `find_drop` : where a needle is found.
* `find_headerEnd` : the empty line behind the header lines.
-/

namespace FortAI

open CString

namespace CString

/-- A needle is found behind a text when it stands there and begins nowhere before. -/
theorem find_behind {needle front t : Bytes} (hne : needle ≠ []) (ht : needle <+: t)
    (hfront : ∀ i < front.length, ¬ needle <+: (front ++ t).drop i) :
    find needle (front ++ t) = some front.length := by
  have hstands : needle <+: (front ++ t).drop front.length := by
    rw [List.drop_left]
    exact ht
  obtain ⟨i, hi, hfind⟩ := find_le hne hstands
  rcases hi.eq_or_lt with rfl | hlt
  · exact hfind
  · exact absurd (prefix_of_find hfind) (hfront i hlt)

/-- What begins in a text without the needle goes on to the byte behind it. -/
theorem exists_getElem_of_prefix {needle front t : Bytes} {i : ℕ} (hfront : ¬ needle <:+: front)
    (hi : i < front.length) (h : needle <+: (front ++ t).drop i) :
    ∃ k, 0 < k ∧ k < needle.length ∧ i + k = front.length ∧ needle[k]? = t.head? := by
  have hlong : front.length < i + needle.length := by
    by_contra hshort
    apply hfront
    rw [List.drop_append_of_le_length hi.le] at h
    have hinside : needle <+: front.drop i :=
      List.prefix_of_prefix_length_le h (List.prefix_append _ _) (by rw [List.length_drop]; omega)
    exact hinside.isInfix.trans (List.drop_suffix i front).isInfix
  refine ⟨front.length - i, by omega, by omega, by omega, ?_⟩
  obtain ⟨u, hu⟩ := h
  have hget : (needle ++ u)[front.length - i]? = needle[front.length - i]? :=
    List.getElem?_append_left (by omega)
  rw [← hget, hu, List.getElem?_drop, Nat.add_sub_cancel' hi.le, List.getElem?_append_right le_rfl,
    Nat.sub_self, List.head?_eq_getElem?]

/-- A needle whose first byte does not come again in it is found behind a text that does not have it. -/
theorem find_eq_length {c : Byte} {q front : Bytes} (hc : c ∉ q) (hfront : ¬ c :: q <:+: front) (t : Bytes) :
    find (c :: q) (front ++ (c :: q ++ t)) = some front.length := by
  refine find_behind (List.cons_ne_nil c q) (List.prefix_append _ t) fun i hi h => ?_
  obtain ⟨k, hk, -, -, hget⟩ := exists_getElem_of_prefix hfront hi h
  obtain ⟨k, rfl⟩ := Nat.exists_eq_add_of_le' hk
  exact hc (List.mem_of_getElem? hget)

/-- The first place of a needle is the first one behind every position before it. -/
theorem find_drop {needle s : Bytes} {m k : ℕ} (h : find needle s = some m) (hk : k ≤ m) :
    find needle (s.drop k) = some (m - k) := by
  induction k generalizing s m with
  | zero => exact h
  | succ k ih =>
    cases s with
    | nil =>
      rw [find] at h
      split_ifs at h
      rw [← Option.some_inj.mp h] at hk
      omega
    | cons b s =>
      have hp : ¬ needle <+: b :: s := fun hp => by
        rw [find_eq_some_zero hp] at h
        rw [← Option.some_inj.mp h] at hk
        omega
      rw [find_cons_of_not_starts hp, Option.map_eq_some_iff] at h
      obtain ⟨j, hj, rfl⟩ := h
      rw [List.drop_succ_cons, ih hj (by omega)]
      congr 1
      omega

end CString

namespace Multipart

/-- The empty line behind the header lines, with the end of the last one. -/
def emptyLine : Bytes := crlf ++ crlf

/-- A line and others behind it. -/
def block (first : Bytes) (lines : List Bytes) : Bytes := first ++ lines.flatMap fun line => crlf ++ line

theorem block_cons (first line : Bytes) (lines : List Bytes) :
    block first (line :: lines) = first ++ (crlf ++ block line lines) := by
  rw [block, List.flatMap_cons, block, List.append_assoc]

/-- The empty line is found behind lines that are not empty. -/
theorem find_headerEnd {first : Bytes} {lines : List Bytes} (hfirst : (13 : Byte) ∉ first)
    (hlines : ∀ line ∈ lines, line ≠ [] ∧ (13 : Byte) ∉ line) (t : Bytes) :
    find emptyLine (block first lines ++ (emptyLine ++ t)) = some (block first lines).length := by
  induction lines generalizing first with
  | nil =>
    have hblock : block first [] = first := List.append_nil first
    rw [hblock]
    exact find_cons_append _ hfirst (List.prefix_append emptyLine t)
  | cons line lines ih =>
    obtain ⟨hne, hline⟩ := hlines line List.mem_cons_self
    have hrest := ih hline fun l hl => hlines l (List.mem_cons_of_mem line hl)
    obtain ⟨b, s, hs⟩ := List.exists_cons_of_ne_nil hne
    have hb : b ≠ 13 := fun hb => hline (hs ▸ hb ▸ List.mem_cons_self)
    -- no empty line begins at the line end between the two lines
    have hcr : ¬ emptyLine <+: 13 :: (10 :: (block line lines ++ (emptyLine ++ t))) := by
      intro h
      rw [block, hs] at h
      have h' := (List.cons_prefix_cons.mp (List.cons_prefix_cons.mp (List.cons_prefix_cons.mp h).2).2).1
      exact hb h'.symm
    have hlf : ¬ emptyLine <+: 10 :: (block line lines ++ (emptyLine ++ t)) := fun h =>
      absurd (List.cons_prefix_cons.mp h).1 (by decide)
    have hsplit : block first (line :: lines) ++ (emptyLine ++ t) =
        first ++ 13 :: (10 :: (block line lines ++ (emptyLine ++ t))) := by
      rw [block_cons, List.append_assoc, List.append_assoc]
      rfl
    have hskip : find emptyLine (first ++ 13 :: (10 :: (block line lines ++ (emptyLine ++ t)))) =
        (find emptyLine (13 :: (10 :: (block line lines ++ (emptyLine ++ t))))).map (· + first.length) :=
      find_skip _ hfirst
    rw [hsplit, hskip, find_cons_of_not_starts hcr, find_cons_of_not_starts hlf, hrest, block_cons,
      List.length_append, List.length_append]
    show some _ = some _
    congr 1
    show _ + 1 + 1 + _ = _ + (2 + _)
    omega

end Multipart

end FortAI
