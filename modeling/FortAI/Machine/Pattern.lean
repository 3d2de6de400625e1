import Mathlib.Data.List.TakeWhile
import Mathlib.Data.List.Infix

/-!
# Regular expressions with priorities

Patterns as the backtracking engines read them: the first alternative that leads to a match is taken,
a repetition takes as much as it can, and either gives back what keeps the rest from matching.
`lengths` lists the lengths of all matches at the start of a text in the order in which they are
tried, and the first one counts.

* `first_seq_star` : a repetition in front of a pattern, by the first character.
* `cut_eq_iff` : two ways to cut a text agree just when they agree wherever the first one starts a
  piece.
-/

namespace FortAI

/-- A pattern over characters; a class of characters is a predicate. -/
inductive Pattern (α : Type*)
  | one (inClass : α → Bool)
  | seq (p q : Pattern α)
  | alt (p q : Pattern α)
  /-- `p?` -/
  | optional (p : Pattern α)
  /-- `[...]*` -/
  | star (inClass : α → Bool)
  /-- `(?![...])` -/
  | notAhead (inClass : α → Bool)

namespace Pattern

variable {α : Type*}

/-- The lengths of the runs of a class, the longest first. -/
def runs (inClass : α → Bool) : List α → List ℕ
  | [] => [0]
  | a :: s => if inClass a then (runs inClass s).map (· + 1) ++ [0] else [0]

/-- The lengths of the matches at the start of a text, in the order in which they are tried. -/
def lengths : Pattern α → List α → List ℕ
  | one inClass, s => if s.head?.any inClass then [1] else []
  | seq p q, s => (lengths p s).flatMap fun n => (lengths q (s.drop n)).map (n + ·)
  | alt p q, s => lengths p s ++ lengths q s
  | optional p, s => lengths p s ++ [0]
  | star inClass, s => runs inClass s
  | notAhead inClass, s => if s.head?.any inClass then [] else [0]

/-! The equations of `runs` and `lengths`. -/

section
variable {p q : Pattern α} {inClass : α → Bool} {a : α} {s : List α}

theorem runs_nil : runs inClass [] = [0] := rfl

theorem runs_cons : runs inClass (a :: s) =
    if inClass a then (runs inClass s).map (· + 1) ++ [0] else [0] := rfl

theorem lengths_one : lengths (one inClass) s = if s.head?.any inClass then [1] else [] := rfl

theorem lengths_seq : lengths (seq p q) s =
    (lengths p s).flatMap fun n => (lengths q (s.drop n)).map (n + ·) := rfl

theorem lengths_alt : lengths (alt p q) s = lengths p s ++ lengths q s := rfl

theorem lengths_optional : lengths (optional p) s = lengths p s ++ [0] := rfl

theorem lengths_star : lengths (star inClass) s = runs inClass s := rfl

theorem lengths_notAhead :
    lengths (notAhead inClass) s = if s.head?.any inClass then [] else [0] := rfl

end

/-- The match that counts. -/
def first (p : Pattern α) (s : List α) : Option ℕ := (lengths p s).head?

/-- `[...]+` -/
def plus (inClass : α → Bool) : Pattern α := seq (one inClass) (star inClass)

/-- The first of a list of alternatives. -/
def alts (p : Pattern α) : List (Pattern α) → Pattern α
  | [] => p
  | q :: ps => alt p (alts q ps)

/-! ### The first match -/

section
variable {p q : Pattern α} {inClass : α → Bool} {a : α} {s : List α}

theorem first_alt : first (alt p q) s = (first p s).or (first q s) := by
  rw [first, lengths_alt, List.head?_append]
  rfl

theorem first_seq :
    first (seq p q) s = (lengths p s).findSome? fun n => (first q (s.drop n)).map (n + ·) := by
  rw [first, lengths_seq, List.head?_flatMap]
  congr 1
  funext n
  exact List.head?_map

theorem first_one : first (one inClass) s = if s.head?.any inClass then some 1 else none := by
  rw [first, lengths_one]
  split_ifs <;> rfl

/-- Behind a class. -/
theorem first_seq_one : first (seq (one inClass) q) (a :: s) =
    if inClass a then (first q s).map (1 + ·) else none := by
  rw [first_seq, lengths_one]
  cases ha : inClass a with
  | true => simp [ha]
  | false => simp [ha]

theorem first_seq_assoc {r : Pattern α} :
    first (seq (seq p q) r) s = first (seq p (seq q r)) s := by
  simp only [first, lengths_seq, List.flatMap_assoc, List.flatMap_map, List.map_flatMap, List.map_map,
    List.drop_drop]
  congr 2
  funext n
  congr 1
  funext m
  congr 1
  funext k
  exact Nat.add_assoc n m k

/-- When the second pattern has a match everywhere, the first one keeps its own. -/
theorem first_seq_of_isSome (hq : ∀ t, (first q t).isSome) :
    first (seq p q) s = (first p s).bind fun n => (first q (s.drop n)).map (n + ·) := by
  rw [first_seq, first]
  cases lengths p s with
  | nil => rfl
  | cons n ns =>
    obtain ⟨m, hm⟩ := Option.isSome_iff_exists.mp (hq (s.drop n))
    simp [hm]

/-- An optional class in front of a pattern is taken when the rest matches behind it. -/
theorem first_seq_optional : first (seq (optional (one inClass)) q) (a :: s) =
    (if inClass a then (first q s).map (1 + ·) else none).or (first q (a :: s)) := by
  rw [first_seq, lengths_optional, lengths_one]
  cases ha : inClass a with
  | false => simp [ha]
  | true => cases hq : first q s <;> simp [ha, hq]

/-- A repetition in front of a pattern takes a character when a match is found behind it. -/
theorem first_seq_star : first (seq (star inClass) q) (a :: s) =
    (if inClass a then (first (seq (star inClass) q) s).map (· + 1) else none).or
      (first q (a :: s)) := by
  rw [first_seq, first_seq, lengths_star, lengths_star, runs_cons]
  split_ifs with ha
  · have hshift : ((fun n => (first q ((a :: s).drop n)).map fun m => n + m) ∘ (· + 1)) =
        fun n => ((first q (s.drop n)).map fun m => n + m).map (· + 1) := by
      funext n
      simp only [Function.comp_apply, List.drop_succ_cons, Option.map_map]
      congr 1
      funext m
      exact Nat.add_right_comm n 1 m
    rw [List.findSome?_append, List.findSome?_map, hshift, List.map_findSome?]
    simp [Function.comp_def]
  · simp

theorem first_seq_star_nil : first (seq (star inClass) q) [] = first q [] := by
  rw [first_seq, lengths_star, runs_nil]
  simp

theorem first_star : first (star inClass) s = some (s.takeWhile inClass).length := by
  rw [first, lengths_star]
  induction s with
  | nil => rfl
  | cons a s ih =>
    rw [runs_cons]
    cases ha : inClass a with
    | true => simp [ha, ih]
    | false => simp [ha]

theorem first_plus_cons : first (plus inClass) (a :: s) =
    if inClass a then some (1 + (s.takeWhile inClass).length) else none := by
  rw [plus, first_seq_one, first_star]
  rfl

/-- A repetition of at least one takes the whole run. -/
theorem first_plus : first (plus inClass) s =
    if s.head?.any inClass then some (s.takeWhile inClass).length else none := by
  cases s with
  | nil => rfl
  | cons a s =>
    rw [first_plus_cons]
    cases ha : inClass a with
    | true => simp [ha, Nat.add_comm]
    | false => simp [ha]

/-- A run that nothing but its own kind may follow: all of it at the end of the text, and else all but
its last character. -/
theorem first_star_notAhead : first (seq (star inClass) (notAhead fun a => !inClass a)) s =
    if s.all inClass then some s.length
    else if s.head?.any inClass then some ((s.takeWhile inClass).length - 1) else none := by
  induction s with
  | nil =>
    rw [first_seq_star_nil]
    rfl
  | cons a s ih =>
    rw [first_seq_star, ih]
    cases ha : inClass a with
    | false => simp [ha, first, lengths_notAhead]
    | true =>
      cases s with
      | nil => simp [ha]
      | cons b s =>
        cases hb : inClass b with
        | false => simp [ha, hb, first, lengths_notAhead]
        | true =>
          by_cases hall : s.all inClass
          · simp [ha, hb, hall]
          · simp [ha, hb, hall]

end

/-! ### Matches lie in the text -/

theorem runs_le {inClass : α → Bool} {s : List α} : ∀ n ∈ runs inClass s, n ≤ s.length := by
  induction s with
  | nil => simp [runs_nil]
  | cons a s ih =>
    intro n hn
    rw [runs_cons] at hn
    split_ifs at hn
    · simp only [List.mem_append, List.mem_map, List.mem_singleton] at hn
      rcases hn with ⟨m, hm, rfl⟩ | rfl
      · exact Nat.succ_le_succ (ih m hm)
      · exact Nat.zero_le _
    · rw [List.mem_singleton.mp hn]
      exact Nat.zero_le _

theorem lengths_le (p : Pattern α) (s : List α) : ∀ n ∈ lengths p s, n ≤ s.length := by
  induction p generalizing s with
  | one inClass =>
    intro n hn
    rw [lengths_one] at hn
    split_ifs at hn with h
    · cases s with
      | nil => cases h
      | cons a s =>
        rw [List.mem_singleton.mp hn]
        exact Nat.succ_le_succ (Nat.zero_le _)
    · cases hn
  | seq p q ihp ihq =>
    intro n hn
    rw [lengths_seq, List.mem_flatMap] at hn
    obtain ⟨m, hm, hn⟩ := hn
    obtain ⟨k, hk, rfl⟩ := List.mem_map.mp hn
    have hp := ihp s m hm
    have hq := ihq _ k hk
    rw [List.length_drop] at hq
    omega
  | alt p q ihp ihq =>
    intro n hn
    exact (List.mem_append.mp hn).elim (ihp s n) (ihq s n)
  | optional p ih =>
    intro n hn
    rcases List.mem_append.mp hn with hn | hn
    · exact ih s n hn
    · rw [List.mem_singleton.mp hn]
      exact Nat.zero_le _
  | star inClass => exact runs_le
  | notAhead inClass =>
    intro n hn
    rw [lengths_notAhead] at hn
    split_ifs at hn
    · cases hn
    · rw [List.mem_singleton.mp hn]
      exact Nat.zero_le _

theorem first_le {p : Pattern α} {s : List α} {n : ℕ} (h : first p s = some n) : n ≤ s.length :=
  lengths_le p s n (List.mem_of_head? h)

/-! ### Cutting a text -/

/-- The pieces of a text, given the length of the first one; where there is none, the text is not cut
further. -/
def cut (length : List α → Option ℕ) (s : List α) : List (List α) :=
  if _h : s = [] then []
  else
    match length s with
    | some (n + 1) => s.take (n + 1) :: cut length (s.drop (n + 1))
    | _ => [s]
termination_by s.length
decreasing_by
  have := List.length_pos_iff.mpr _h
  rw [List.length_drop]
  omega

/-- The text from the start of each piece on. -/
def starts (length : List α → Option ℕ) (s : List α) : List (List α) :=
  if _h : s = [] then []
  else
    match length s with
    | some (n + 1) => s :: starts length (s.drop (n + 1))
    | _ => [s]
termination_by s.length
decreasing_by
  have := List.length_pos_iff.mpr _h
  rw [List.length_drop]
  omega

/-- Every piece takes something of the text, and lies in it. -/
def Cuts (length : List α → Option ℕ) : Prop :=
  ∀ s, s ≠ [] → ∃ n, length s = some (n + 1) ∧ n + 1 ≤ s.length

section
variable {f g : List α → Option ℕ} {s : List α} {n : ℕ}

theorem cut_of_some (hne : s ≠ []) (h : f s = some (n + 1)) :
    cut f s = s.take (n + 1) :: cut f (s.drop (n + 1)) := by
  rw [cut, dif_neg hne, h]

theorem starts_of_some (hne : s ≠ []) (h : f s = some (n + 1)) :
    starts f s = s :: starts f (s.drop (n + 1)) := by
  rw [starts, dif_neg hne, h]

/-- The pieces make up the text. -/
theorem flatten_cut (f : List α → Option ℕ) (s : List α) : (cut f s).flatten = s := by
  induction hn : s.length using Nat.strong_induction_on generalizing s with
  | _ k ih =>
    rw [cut]
    split_ifs with hne
    · rw [hne]
      rfl
    split
    · rename_i n _
      have hlt : (s.drop (n + 1)).length < k := by
        have := List.length_pos_iff.mpr hne
        rw [List.length_drop]
        omega
      rw [List.flatten_cons, ih _ hlt _ rfl, List.take_append_drop]
    · exact List.append_nil s

theorem ne_nil_of_mem_starts {f : List α → Option ℕ} {s t : List α} (h : t ∈ starts f s) : t ≠ [] := by
  induction hn : s.length using Nat.strong_induction_on generalizing s with
  | _ k ih =>
    rw [starts] at h
    split_ifs at h with hne
    · cases h
    split at h
    · rename_i n _
      have hlt : (s.drop (n + 1)).length < k := by
        have := List.length_pos_iff.mpr hne
        rw [List.length_drop]
        omega
      rcases List.mem_cons.mp h with rfl | h
      · exact hne
      · exact ih _ hlt h rfl
    · rw [List.mem_singleton.mp h]
      exact hne

/-- Two ways to cut a text agree just when they agree wherever the first one starts a piece. -/
theorem cut_eq_iff (hf : Cuts f) (hg : Cuts g) (s : List α) :
    cut f s = cut g s ↔ ∀ t ∈ starts f s, f t = g t := by
  induction hn : s.length using Nat.strong_induction_on generalizing s with
  | _ k ih =>
    by_cases hne : s = []
    · subst hne
      rw [cut, cut, starts]
      simp
    obtain ⟨n, hfn, hnle⟩ := hf s hne
    obtain ⟨m, hgm, hmle⟩ := hg s hne
    rw [cut_of_some hne hfn, cut_of_some hne hgm, starts_of_some hne hfn, List.forall_mem_cons,
      List.cons.injEq, hfn, hgm]
    have htake : s.take (n + 1) = s.take (m + 1) ↔ some (n + 1) = some (m + 1) := by
      constructor
      · intro h
        have hlen := congrArg List.length h
        rw [List.length_take_of_le hnle, List.length_take_of_le hmle] at hlen
        rw [hlen]
      · intro h
        rw [Option.some.inj h]
    rw [htake]
    refine and_congr_right fun heq => ?_
    have hlt : (s.drop (n + 1)).length < k := by
      rw [List.length_drop]
      omega
    rw [← Option.some.inj heq]
    exact ih _ hlt _ rfl

end

end Pattern

end FortAI
