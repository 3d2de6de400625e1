import Mathlib.Data.List.Basic
import Mathlib.Data.List.Perm.Basic
import Mathlib.Data.Nat.Basic
import Mathlib.Order.Basic
import Mathlib.Order.Defs.LinearOrder
import Mathlib.Order.Lattice

/-!
# Selection

The largest `k` elements are selected from a list whose elements come one after the other: a new element
takes the place of a smallest one if it is larger.  Which of several smallest elements goes is the one
that came first, so that with a threshold `t` that fewer than `k` elements are above:

* `survivors` : of the first `k` elements from `t` on those above it stay, and those at it but for as many
  as elements above it come later.
* `Selects.step` : one turn.
-/

namespace FortAI

namespace Selection

variable {α β : Type*} [LinearOrder β]

section
variable (key : α → β) (k : ℕ) (t : β)

/-- The elements from `t` on. -/
def above (l : List α) : List α := l.filter fun c => decide (t ≤ key c)

/-- Those above `t`. -/
def beyond (l : List α) : List α := l.filter fun c => decide (t < key c)

/-- Those at `t`. -/
def level (l : List α) : List α := l.filter fun c => decide (key c = t)

/-- The elements above `t` that come behind the first `k` from `t` on. -/
def late (l : List α) : List α := beyond key t ((above key t l).drop k)

/-- The elements from `t` on that are left of a list. -/
def survivors (l : List α) : List α :=
  (level key t ((above key t l).take k)).drop (late key k t l).length ++ beyond key t l

/-- The elements `selected` of a list are left of those that have come. -/
structure Selects (l selected : List α) : Prop where
  length : selected.length = k
  subset : ∀ c ∈ selected, c ∈ l
  perm : (above key t selected).Perm (survivors key k t l)

/-- A new element takes the place of the first of the smallest elements, or of none. -/
def Turn (position : α → ℕ) (selected : List α) (x : α) (selected' : List α) : Prop :=
  ∃ root rest, selected.Perm (root :: rest) ∧
    (∀ c ∈ rest, key root < key c ∨ key root = key c ∧ position root ≤ position c) ∧
    (key root < key x ∧ selected'.Perm (x :: rest) ∨ key x ≤ key root ∧ selected'.Perm selected)

end

variable {key : α → β} {k : ℕ} {t : β} {l m selected selected' : List α} {x c : α} {position : α → ℕ}

/-! ### Parts of a list -/

theorem mem_above : c ∈ above key t l ↔ c ∈ l ∧ t ≤ key c := by
  rw [above, List.mem_filter, decide_eq_true_eq]

theorem mem_beyond : c ∈ beyond key t l ↔ c ∈ l ∧ t < key c := by
  rw [beyond, List.mem_filter, decide_eq_true_eq]

theorem mem_level : c ∈ level key t l ↔ c ∈ l ∧ key c = t := by
  rw [level, List.mem_filter, decide_eq_true_eq]

theorem above_append (l m : List α) : above key t (l ++ m) = above key t l ++ above key t m :=
  List.filter_append ..

theorem beyond_append (l m : List α) : beyond key t (l ++ m) = beyond key t l ++ beyond key t m :=
  List.filter_append ..

theorem Perm.above (h : l.Perm m) : (above key t l).Perm (above key t m) := h.filter _

theorem Perm.beyond (h : l.Perm m) : (beyond key t l).Perm (beyond key t m) := h.filter _

theorem above_cons_of_le (h : t ≤ key x) (l : List α) : above key t (x :: l) = x :: above key t l :=
  List.filter_cons_of_pos (decide_eq_true h)

theorem above_cons_of_lt (h : key x < t) (l : List α) : above key t (x :: l) = above key t l :=
  List.filter_cons_of_neg (by rw [decide_eq_true_eq]; exact h.not_ge)

theorem beyond_cons_of_lt (h : t < key x) (l : List α) : beyond key t (x :: l) = x :: beyond key t l :=
  List.filter_cons_of_pos (decide_eq_true h)

theorem beyond_cons_of_le (h : key x ≤ t) (l : List α) : beyond key t (x :: l) = beyond key t l :=
  List.filter_cons_of_neg (by rw [decide_eq_true_eq]; exact h.not_gt)

theorem above_eq_self (h : ∀ c ∈ l, t ≤ key c) : above key t l = l :=
  List.filter_eq_self.mpr fun c hc => decide_eq_true (h c hc)

/-- What is above `t` is from `t` on. -/
theorem beyond_above (l : List α) : beyond key t (above key t l) = beyond key t l := by
  rw [beyond, beyond, above, List.filter_filter]
  refine List.filter_congr fun c _ => ?_
  rw [Bool.and_eq_left_iff_imp, decide_eq_true_eq, decide_eq_true_eq]
  exact le_of_lt

/-- From `t` on an element is at it or above. -/
theorem level_append_beyond (h : ∀ c ∈ l, t ≤ key c) : (level key t l ++ beyond key t l).Perm l := by
  have hbeyond : beyond key t l = l.filter fun c => !decide (key c = t) := by
    refine List.filter_congr fun c hc => ?_
    rw [Bool.eq_iff_iff, Bool.not_eq_true', decide_eq_true_eq, decide_eq_false_iff_not]
    exact (h c hc).lt_iff_ne'
  rw [hbeyond]
  exact List.filter_append_perm _ l

theorem length_level_add_beyond (h : ∀ c ∈ l, t ≤ key c) :
    (level key t l).length + (beyond key t l).length = l.length := by
  rw [← List.length_append, (level_append_beyond h).length_eq]

theorem le_of_mem_above (c : α) (hc : c ∈ above key t l) : t ≤ key c := (mem_above.mp hc).2

/-- The elements above `t` are among the first `k` or come later. -/
theorem length_beyond (k : ℕ) (l : List α) : (beyond key t l).length =
    (beyond key t ((above key t l).take k)).length + (late key k t l).length := by
  rw [← beyond_above, late, ← List.length_append, ← beyond_append, List.take_append_drop]

/-- When `k` elements have come, those that are left are `k`. -/
theorem length_survivors (hk : k ≤ (above key t l).length) (hbeyond : (beyond key t l).length < k) :
    (survivors key k t l).length = k := by
  have hfrom (c : α) (hc : c ∈ (above key t l).take k) : t ≤ key c :=
    le_of_mem_above c (List.mem_of_mem_take hc)
  have hsplit := length_level_add_beyond hfrom
  have hlate : (beyond key t l).length =
      (beyond key t ((above key t l).take k)).length + (late key k t l).length := length_beyond k l
  rw [List.length_take, Nat.min_eq_left hk] at hsplit
  rw [survivors, List.length_append, List.length_drop]
  omega

/-! ### Turns -/

/-- Nothing is lost before `k` elements have come. -/
theorem survivors_perm (hk : (above key t l).length ≤ k) : (survivors key k t l).Perm (above key t l) := by
  have hlate : late key k t l = [] := by
    rw [late, List.drop_eq_nil_of_le hk]
    rfl
  rw [survivors, List.take_of_length_le hk, hlate, List.length_nil, List.drop_zero, ← beyond_above]
  exact level_append_beyond le_of_mem_above

/-- An element below `t` changes nothing. -/
theorem survivors_append_of_lt (hx : key x < t) : survivors key k t (l ++ [x]) = survivors key k t l := by
  have habove : above key t (l ++ [x]) = above key t l := by
    rw [above_append, above_cons_of_lt hx]
    exact List.append_nil _
  have hbeyond : beyond key t (l ++ [x]) = beyond key t l := by
    rw [beyond_append, beyond_cons_of_le hx.le]
    exact List.append_nil _
  rw [survivors, survivors, late, late, habove, hbeyond]

/-- Behind `k` elements from `t` on, one at `t` changes nothing. -/
theorem survivors_append_of_eq (hk : k ≤ (above key t l).length) (hx : key x = t) :
    survivors key k t (l ++ [x]) = survivors key k t l := by
  have habove : above key t (l ++ [x]) = above key t l ++ [x] := by
    rw [above_append, above_cons_of_le hx.ge]
    rfl
  have hbeyond (m : List α) : beyond key t (m ++ [x]) = beyond key t m := by
    rw [beyond_append, beyond_cons_of_le hx.le]
    exact List.append_nil _
  rw [survivors, survivors, late, late, habove, hbeyond, List.take_append_of_le_length hk,
    List.drop_append_of_le_length hk, hbeyond]

/-- One above `t` comes for the first one at `t` that is left. -/
theorem survivors_append_of_gt (hk : k ≤ (above key t l).length) (hx : t < key x) {y : α} {ys : List α}
    (hlevel : (level key t ((above key t l).take k)).drop (late key k t l).length = y :: ys) :
    survivors key k t (l ++ [x]) = ys ++ (beyond key t l ++ [x]) := by
  have habove : above key t (l ++ [x]) = above key t l ++ [x] := by
    rw [above_append, above_cons_of_le hx.le]
    rfl
  have hbeyond (m : List α) : beyond key t (m ++ [x]) = beyond key t m ++ [x] := by
    rw [beyond_append, beyond_cons_of_lt hx]
    rfl
  have hlate : late key k t (l ++ [x]) = late key k t l ++ [x] := by
    rw [late, late, habove, List.drop_append_of_le_length hk, hbeyond]
  rw [survivors, hlate, habove, hbeyond, List.take_append_of_le_length hk, List.length_append,
    List.length_singleton, ← List.drop_drop, hlevel]
  rfl

/-! ### Turns -/

/-- The first elements. -/
theorem selects_of_perm (hlength : l.length = k) (h : selected.Perm l) : Selects key k t l selected := by
  refine ⟨h.length_eq.trans hlength, fun c hc => h.mem_iff.mp hc, (Perm.above h).trans ?_⟩
  exact (survivors_perm (by rw [← hlength]; exact List.length_filter_le ..)).symm

/-- All that has been selected is from `t` on once `k` elements have come that are. -/
theorem Selects.above_eq (h : Selects key k t l selected) (hk : k ≤ (above key t l).length)
    (hbeyond : (beyond key t l).length < k) : above key t selected = selected := by
  refine List.Sublist.eq_of_length List.filter_sublist ?_
  have hlength := h.perm.length_eq
  rw [length_survivors hk hbeyond, ← h.length] at hlength
  exact hlength

/-- The root is below `t` as long as fewer than `k` elements from `t` on have come. -/
theorem Selects.root_lt (h : Selects key k t l selected) (hk : (above key t l).length < k) {root : α}
    (hroot : ∀ c ∈ selected, key root ≤ key c) : key root < t := by
  by_contra hge
  have hall := above_eq_self fun c hc => (not_lt.mp hge).trans (hroot c hc)
  have hlength := h.perm.length_eq
  rw [hall, (survivors_perm hk.le).length_eq, h.length] at hlength
  omega

/-- The root is the first of those at `t` as soon as `k` elements from `t` on have come. -/
theorem Selects.root_eq (h : Selects key k t l selected) (hk : k ≤ (above key t l).length)
    (hbeyond : (beyond key t l).length + 1 < k) {root : α} {rest : List α} (hperm : selected.Perm (root :: rest))
    (hmin : ∀ c ∈ rest, key root < key c ∨ key root = key c ∧ position root ≤ position c)
    (hsorted : l.Pairwise fun a b => position a < position b) :
    ∃ ys, (level key t ((above key t l).take k)).drop (late key k t l).length = root :: ys ∧
      rest.Perm (ys ++ beyond key t l) := by
  have hall := h.above_eq hk (by omega)
  have hsurvivors := h.perm
  rw [hall, survivors] at hsurvivors
  have hlength := length_survivors hk (by omega : (beyond key t l).length < k)
  rw [survivors, List.length_append] at hlength
  cases hlevel : (level key t ((above key t l).take k)).drop (late key k t l).length with
  | nil =>
    rw [hlevel, List.length_nil] at hlength
    omega
  | cons y ys =>
    have hsublist : (y :: ys).Sublist l := by
      rw [← hlevel]
      exact (List.drop_sublist _ _).trans
        (List.filter_sublist.trans ((List.take_sublist _ _).trans List.filter_sublist))
    have hat (c : α) (hc : c ∈ y :: ys) : key c = t := by
      rw [← hlevel] at hc
      exact (mem_level.mp (List.mem_of_mem_drop hc)).2
    rw [hlevel] at hsurvivors
    have hroot : root ∈ y :: ys ++ beyond key t l := hsurvivors.mem_iff.mp (hperm.mem_iff.mpr List.mem_cons_self)
    have hfirst : y ∈ root :: rest :=
      hperm.mem_iff.mp (hsurvivors.mem_iff.mpr (List.mem_append_left _ List.mem_cons_self))
    -- nothing is smaller than `t`, and of those at it `y` comes first
    have heq : y = root := by
      rcases List.mem_cons.mp hfirst with heq | hrest
      · exact heq
      have hge : t ≤ key root := by
        rcases List.mem_append.mp hroot with hroot | hroot
        · exact (hat root hroot).ge
        · exact (mem_beyond.mp hroot).2.le
      rcases hmin y hrest with hlt | ⟨hkey, hposition⟩
      · rw [hat y List.mem_cons_self] at hlt
        exact absurd hge hlt.not_ge
      rw [hat y List.mem_cons_self] at hkey
      rcases List.mem_append.mp hroot with hroot | hroot
      · rcases List.mem_cons.mp hroot with hroot | hroot
        · exact hroot.symm
        · have hbefore := (List.pairwise_cons.mp (hsorted.sublist hsublist)).1 root hroot
          omega
      · exact absurd hkey (mem_beyond.mp hroot).2.ne'
    subst heq
    exact ⟨ys, rfl, (List.perm_cons y).mp (hperm.symm.trans hsurvivors)⟩

/-- One turn. -/
theorem Selects.step (h : Selects key k t l selected) (hturn : Turn key position selected x selected')
    (hsorted : l.Pairwise fun a b => position a < position b)
    (hbeyond : (beyond key t (l ++ [x])).length < k) : Selects key k t (l ++ [x]) selected' := by
  obtain ⟨root, rest, hroot, hmin, hturn⟩ := hturn
  have hle (c : α) (hc : c ∈ selected) : key root ≤ key c := by
    rcases List.mem_cons.mp (hroot.mem_iff.mp hc) with rfl | hrest
    · exact le_rfl
    · exact (hmin c hrest).elim le_of_lt fun h => h.1.le
  have hsubset : ∀ c ∈ selected', c ∈ l ++ [x] := by
    intro c hc
    rw [List.mem_append]
    rcases hturn with ⟨-, hperm⟩ | ⟨-, hperm⟩
    · rcases List.mem_cons.mp (hperm.mem_iff.mp hc) with rfl | hrest
      · exact .inr List.mem_cons_self
      · exact .inl (h.subset c (hroot.mem_iff.mpr (List.mem_cons_of_mem root hrest)))
    · exact .inl (h.subset c (hperm.mem_iff.mp hc))
  have hlength : selected'.length = k := by
    rw [← h.length]
    rcases hturn with ⟨-, hperm⟩ | ⟨-, hperm⟩
    · rw [hperm.length_eq, hroot.length_eq, List.length_cons, List.length_cons]
    · exact hperm.length_eq
  -- a root below `t` was none of the survivors
  have hreplaced (hlow : key root < t) : (above key t rest).Perm (survivors key k t l) := by
    rw [← above_cons_of_lt hlow rest]
    exact (Perm.above hroot.symm).trans h.perm
  refine ⟨hlength, hsubset, ?_⟩
  rcases lt_or_ge (key x) t with hbelow | hfrom
  · rw [survivors_append_of_lt hbelow]
    rcases hturn with ⟨hlt, hperm⟩ | ⟨-, hperm⟩
    · refine (Perm.above hperm).trans ?_
      rw [above_cons_of_lt hbelow]
      exact hreplaced (hlt.trans hbelow)
    · exact (Perm.above hperm).trans h.perm
  rcases Nat.lt_or_ge (above key t l).length k with hfew | hk
  · have hlow := h.root_lt hfew hle
    have habove : above key t (l ++ [x]) = above key t l ++ [x] := by
      rw [above_append, above_cons_of_le hfrom]
      rfl
    rcases hturn with ⟨-, hperm⟩ | ⟨hge, -⟩
    · have hnew : (above key t selected').Perm (x :: above key t rest) := by
        rw [← above_cons_of_le hfrom]
        exact Perm.above hperm
      have hold : (x :: above key t rest).Perm (x :: above key t l) :=
        ((hreplaced hlow).trans (survivors_perm hfew.le)).cons x
      have hall : (x :: above key t l).Perm (above key t (l ++ [x])) := by
        rw [habove]
        exact (List.perm_append_singleton x _).symm
      have hfew' : (above key t (l ++ [x])).length ≤ k := by
        rw [habove, List.length_append]
        exact hfew
      exact hnew.trans (hold.trans (hall.trans (survivors_perm hfew').symm))
    · exact absurd (hlow.trans_le hfrom) hge.not_gt
  rcases hfrom.eq_or_lt with hat | habove
  · rw [survivors_append_of_eq hk hat.symm]
    have hbeyond' : (beyond key t l).length < k := by
      rwa [beyond_append, beyond_cons_of_le hat.ge, beyond, beyond, List.filter_nil, List.append_nil] at hbeyond
    have hall := h.above_eq hk hbeyond'
    rcases hturn with ⟨hlt, -⟩ | ⟨-, hperm⟩
    · have hmem : root ∈ above key t selected := by
        rw [hall]
        exact hroot.mem_iff.mpr List.mem_cons_self
      rw [← hat] at hlt
      exact absurd (mem_above.mp hmem).2 hlt.not_ge
    · exact (Perm.above hperm).trans h.perm
  · have hbeyond' : (beyond key t l).length + 1 < k := by
      rw [beyond_append, beyond_cons_of_lt habove, List.length_append] at hbeyond
      exact hbeyond
    obtain ⟨ys, hlevel, hrest⟩ := h.root_eq hk hbeyond' hroot hmin hsorted
    have hat : key root = t := by
      have hmem : root ∈ (level key t ((above key t l).take k)).drop (late key k t l).length := by
        rw [hlevel]
        exact List.mem_cons_self
      exact (mem_level.mp (List.mem_of_mem_drop hmem)).2
    rw [survivors_append_of_gt hk habove hlevel]
    rcases hturn with ⟨-, hperm⟩ | ⟨hge, -⟩
    · have hnew : selected'.Perm (ys ++ (beyond key t l ++ [x])) := by
        rw [← List.append_assoc]
        exact (hperm.trans (hrest.cons x)).trans (List.perm_append_singleton x _).symm
      have hall : above key t selected' = selected' := by
        refine above_eq_self fun c hc => ?_
        rcases List.mem_cons.mp (hperm.mem_iff.mp hc) with rfl | hc
        · exact hfrom
        · exact hat ▸ hle c (hroot.mem_iff.mpr (List.mem_cons_of_mem root hc))
      rw [hall]
      exact hnew
    · rw [hat] at hge
      exact absurd habove hge.not_gt

/-! ### The whole list -/

/-- What is selected from a whole list comes before all that is not, unless an element above `t` came behind
the first `k` from `t` on: it took the place of the first one at `t`. -/
theorem Selects.closed_iff (h : Selects key k t l selected) (hk : k ≤ (above key t l).length)
    (hbeyond : (beyond key t l).length < k) (hsorted : l.Pairwise fun a b => position a < position b) :
    (∀ c ∈ selected, ∀ e ∈ l, e ∉ selected → key e < key c ∨ key e = key c ∧ position c < position e) ↔
      late key k t l = [] := by
  have hperm := h.perm
  rw [h.above_eq hk hbeyond] at hperm
  have hlength := length_survivors hk hbeyond
  have hmem (c : α) : c ∈ selected ↔
      c ∈ (level key t ((above key t l).take k)).drop (late key k t l).length ∨ c ∈ beyond key t l := by
    rw [hperm.mem_iff, survivors, List.mem_append]
  have hfirst : (level key t ((above key t l).take k)).Sublist l :=
    List.filter_sublist.trans ((List.take_sublist _ _).trans List.filter_sublist)
  constructor
  · intro hclosed
    by_contra hlate
    have hpos : 0 < (late key k t l).length := List.length_pos_iff.mpr hlate
    rw [survivors, List.length_append, List.length_drop] at hlength
    -- the first element at `t` is gone, and one behind it is left
    obtain ⟨y, ys, hlevel⟩ : ∃ y ys, level key t ((above key t l).take k) = y :: ys := by
      refine List.exists_cons_of_length_pos ?_
      omega
    rw [hlevel] at hfirst hmem hlength
    obtain ⟨n, hn⟩ := Nat.exists_eq_add_of_lt hpos
    rw [show (late key k t l).length = n + 1 by omega, List.drop_succ_cons] at hmem
    rw [show (late key k t l).length = n + 1 by omega, List.length_cons] at hlength
    obtain ⟨z, zs, hdrop⟩ : ∃ z zs, ys.drop n = z :: zs := by
      refine List.exists_cons_of_length_pos ?_
      rw [List.length_drop]
      omega
    have hz : z ∈ ys := List.mem_of_mem_drop (i := n) (hdrop ▸ List.mem_cons_self)
    have hkey (c : α) (hc : c ∈ y :: ys) : key c = t := by
      rw [← hlevel] at hc
      exact (mem_level.mp hc).2
    have hbefore := (List.pairwise_cons.mp (hsorted.sublist hfirst)).1
    have hgone : y ∉ selected := by
      rw [hmem]
      rintro (hy | hy)
      · exact absurd (hbefore y (List.mem_of_mem_drop hy)) (Nat.lt_irrefl _)
      · exact absurd (hkey y List.mem_cons_self) (mem_beyond.mp hy).2.ne'
    have hleft : z ∈ selected := (hmem z).mpr (.inl (by rw [hdrop]; exact List.mem_cons_self))
    rcases hclosed z hleft y (hfirst.subset List.mem_cons_self) hgone with hlt | ⟨-, hlt⟩
    · rw [hkey y List.mem_cons_self, hkey z (List.mem_cons_of_mem y hz)] at hlt
      exact lt_irrefl t hlt
    · exact absurd (hbefore z hz) (Nat.lt_asymm hlt)
  · intro hlate c hc e he hgone
    rw [hlate, List.length_nil, List.drop_zero] at hmem
    have hc' : t ≤ key c := by
      rcases (hmem c).mp hc with hc | hc
      · exact (mem_level.mp hc).2.ge
      · exact (mem_beyond.mp hc).2.le
    rcases lt_trichotomy (key e) t with hlow | hat | hhigh
    · exact .inl (hlow.trans_le hc')
    · rcases hc'.eq_or_lt with hsame | hlt
      · refine .inr ⟨hat.trans hsame, ?_⟩
        have hcfirst : c ∈ (above key t l).take k := by
          rcases (hmem c).mp hc with hc | hc
          · exact (mem_level.mp hc).1
          · exact absurd hsame.symm (mem_beyond.mp hc).2.ne'
        have habove : e ∈ (above key t l).take k ++ (above key t l).drop k := by
          rw [List.take_append_drop]
          exact mem_above.mpr ⟨he, hat.ge⟩
        have hafter : e ∈ (above key t l).drop k := by
          refine (List.mem_append.mp habove).resolve_left fun hfirst => hgone ?_
          exact (hmem e).mpr (.inl (mem_level.mpr ⟨hfirst, hat⟩))
        have hparts := hsorted.sublist (List.filter_sublist (p := fun c => decide (t ≤ key c)))
        rw [← List.take_append_drop k (List.filter _ _), List.pairwise_append] at hparts
        exact hparts.2.2 c hcfirst e hafter
      · exact .inl (hat.trans_lt hlt)
    · exact absurd ((hmem e).mpr (.inr (mem_beyond.mpr ⟨he, hhigh⟩))) hgone

/-- Nothing is selected twice. -/
theorem Selects.nodup (h : Selects key k t l selected) (hk : k ≤ (above key t l).length)
    (hbeyond : (beyond key t l).length < k) (hnodup : l.Nodup) : selected.Nodup := by
  have hperm := h.perm
  rw [h.above_eq hk hbeyond, survivors] at hperm
  have hfirst : ((level key t ((above key t l).take k)).drop (late key k t l).length).Sublist l :=
    (List.drop_sublist _ _).trans (List.filter_sublist.trans ((List.take_sublist _ _).trans List.filter_sublist))
  rw [hperm.nodup_iff, List.nodup_append]
  refine ⟨hnodup.sublist hfirst, hnodup.sublist List.filter_sublist, fun c hc e he heq => ?_⟩
  rw [← heq] at he
  exact absurd (mem_level.mp (List.mem_of_mem_drop hc)).2 (mem_beyond.mp he).2.ne'

/-- Fewer than `k` elements are above a threshold, and `k` from it on: a larger threshold leaves fewer than
`k`, and a smaller one has `k` above it. -/
theorem late_eq_nil_iff {a : α} (ha : a ∈ l) (hk : k ≤ (above key (key a) l).length)
    (hbeyond : (beyond key (key a) l).length < k) :
    late key k (key a) l = [] ↔ ∀ b ∈ l, (beyond key (key b) l).length < k → late key k (key b) l = [] := by
  refine ⟨fun h b hb hb' => ?_, fun h => h a ha hbeyond⟩
  rcases lt_trichotomy (key b) (key a) with hlt | heq | hgt
  · have hsublist : (above key (key a) l).Sublist (beyond key (key b) l) :=
      List.monotone_filter_right l fun c hc => decide_eq_true (hlt.trans_le (of_decide_eq_true hc))
    have hlength := hsublist.length_le
    omega
  · rw [heq]
    exact h
  · have hsublist : (above key (key b) l).Sublist (beyond key (key a) l) :=
      List.monotone_filter_right l fun c hc => decide_eq_true (hgt.trans_le (of_decide_eq_true hc))
    have hlength := hsublist.length_le
    rw [late, List.drop_eq_nil_of_le (by omega)]
    rfl

/-- The threshold is the element in the position `k` of a list that falls. -/
theorem exists_threshold (hk : 1 ≤ k) (hlength : k ≤ l.length) (hfalls : l.Pairwise fun a b => key b ≤ key a) :
    ∃ a ∈ l, k ≤ (above key (key a) l).length ∧ (beyond key (key a) l).length < k := by
  obtain ⟨n, rfl⟩ := Nat.exists_eq_add_of_le' hk
  have hn : n < l.length := by omega
  have hsplit : l = l.take n ++ l[n] :: l.drop (n + 1) := by rw [← List.drop_eq_getElem_cons hn, List.take_append_drop]
  obtain ⟨a, ha⟩ : ∃ a, a = l[n] := ⟨_, rfl⟩
  rw [← ha] at hsplit
  rw [hsplit, List.pairwise_append] at hfalls
  obtain ⟨-, hbehind, hbefore⟩ := hfalls
  refine ⟨a, ha ▸ List.getElem_mem hn, ?_, ?_⟩
  · have hfirst : above key (key a) (l.take n ++ [a]) = l.take n ++ [a] := by
      refine above_eq_self fun c hc => ?_
      rcases List.mem_append.mp hc with hc | hc
      · exact hbefore c hc a List.mem_cons_self
      · rw [List.mem_singleton.mp hc]
    have hlist : l = l.take n ++ [a] ++ l.drop (n + 1) := by
      rw [List.append_assoc]
      exact hsplit
    rw [hlist, above_append, hfirst, List.length_append, List.length_append, List.length_take]
    simp only [List.length_singleton]
    omega
  · have hrest : beyond key (key a) (a :: l.drop (n + 1)) = [] := by
      rw [beyond, List.filter_eq_nil_iff]
      intro c hc
      rw [decide_eq_true_eq, not_lt]
      rcases List.mem_cons.mp hc with rfl | hc
      · exact le_rfl
      · exact (List.pairwise_cons.mp hbehind).1 c hc
    have hle := List.length_filter_le (fun c => decide (key a < key c)) (l.take n)
    rw [List.length_take] at hle
    rw [hsplit, beyond_append, hrest, List.append_nil, beyond]
    omega

/-! ### Sorted lists -/

theorem exists_sorted {δ : Type*} [LinearOrder δ] {rank : α → δ}
    (h : l.Pairwise fun a b => rank a ≠ rank b) :
    ∃ sorted : List α, sorted.Perm l ∧ sorted.Pairwise fun a b => rank a < rank b := by
  have htrans (a b c : α) (hab : decide (rank a ≤ rank b) = true) (hbc : decide (rank b ≤ rank c) = true) :
      decide (rank a ≤ rank c) = true :=
    decide_eq_true ((of_decide_eq_true hab).trans (of_decide_eq_true hbc))
  have htotal (a b : α) : (decide (rank a ≤ rank b) || decide (rank b ≤ rank a)) = true := by
    rw [Bool.or_eq_true, decide_eq_true_eq, decide_eq_true_eq]
    exact le_total _ _
  have hsorted := List.pairwise_mergeSort htrans htotal l
  have hperm := List.mergeSort_perm l fun a b => decide (rank a ≤ rank b)
  have hne := (hperm.pairwise_iff fun hab => Ne.symm hab).mpr h
  exact ⟨_, hperm, hsorted.imp₂ (fun _ _ hle hne => lt_of_le_of_ne (of_decide_eq_true hle) hne) hne⟩

/-- A sorted selection is the beginning of the sorted list when it comes before all that is not selected. -/
theorem eq_take_iff {δ : Type*} [LinearOrder δ] {rank : α → δ} {sorted result : List α}
    (hsorted : sorted.Pairwise fun a b => rank a < rank b)
    (hresult : result.Pairwise fun a b => rank a < rank b) (hsubset : ∀ c ∈ result, c ∈ sorted) :
    result = sorted.take result.length ↔ ∀ c ∈ result, ∀ e ∈ sorted, e ∉ result → rank c < rank e := by
  classical
  constructor
  · intro heq c hc e he hgone
    rw [← List.take_append_drop result.length sorted, List.pairwise_append] at hsorted
    rw [← List.take_append_drop result.length sorted, ← heq] at he
    rw [heq] at hc
    exact hsorted.2.2 c hc e ((List.mem_append.mp he).resolve_left hgone)
  · intro hclosed
    have hnodup {m : List α} (hm : m.Pairwise fun a b => rank a < rank b) : m.Nodup :=
      hm.imp fun hlt heq => absurd (congrArg rank heq) hlt.ne
    obtain ⟨others, hothers⟩ : ∃ others, others = sorted.filter fun e => decide (e ∉ result) := ⟨_, rfl⟩
    have hmem (e : α) : e ∈ others ↔ e ∈ sorted ∧ e ∉ result := by
      rw [hothers, List.mem_filter, decide_eq_true_eq]
    have hall : (result ++ others).Pairwise fun a b => rank a < rank b := by
      refine List.pairwise_append.mpr ⟨hresult, ?_, fun c hc e he => ?_⟩
      · rw [hothers]
        exact hsorted.sublist List.filter_sublist
      · exact hclosed c hc e ((hmem e).mp he).1 ((hmem e).mp he).2
    have hperm : (result ++ others).Perm sorted := by
      rw [List.perm_ext_iff_of_nodup (hnodup hall) (hnodup hsorted)]
      intro e
      rw [List.mem_append, hmem]
      by_cases he : e ∈ result
      · exact iff_of_true (.inl he) (hsubset e he)
      · exact ⟨fun h => (h.resolve_left he).1, fun h => .inr ⟨h, he⟩⟩
    have heq : result ++ others = sorted :=
      hperm.eq_of_pairwise (fun a b _ _ hab hba => absurd hab hba.not_gt) hall hsorted
    rw [← heq, List.take_left]

end Selection

end FortAI
