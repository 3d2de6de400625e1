import Mathlib.Algebra.Order.BigOperators.Group.Finset
import Mathlib.Order.Lattice.Nat

/-!
# Dates

Days are counted from 1970-01-01 by going to the next day, again and again.

* `Date.next` : the day after a date.
* `Date.number_eq` : the number of a day, from the lengths of the years and months in front of it.
-/

namespace FortAI

/-- The year has a 29th of February. -/
def IsLeap (year : ℕ) : Prop := year % 4 = 0 ∧ (year % 100 ≠ 0 ∨ year % 400 = 0)

instance (year : ℕ) : Decidable (IsLeap year) := inferInstanceAs (Decidable (_ ∧ _))

def monthLength (year month : ℕ) : ℕ :=
  if month = 2 then if IsLeap year then 29 else 28
  else if month = 4 ∨ month = 6 ∨ month = 9 ∨ month = 11 then 30
  else 31

def yearLength (year : ℕ) : ℕ := if IsLeap year then 366 else 365

/-- A date from 1970 on. -/
@[ext]
structure Date where
  year : ℕ
  month : ℕ
  day : ℕ
  le_year : 1970 ≤ year
  month_mem : 1 ≤ month ∧ month ≤ 12
  day_mem : 1 ≤ day ∧ day ≤ monthLength year month
  deriving DecidableEq

namespace Date

/-- 1970-01-01 -/
def epoch : Date := ⟨1970, 1, 1, le_rfl, by decide, by decide⟩

theorem monthLength_pos (year month : ℕ) : 1 ≤ monthLength year month := by
  rw [monthLength]
  split_ifs <;> decide

/-- The day after. -/
def next (d : Date) : Date :=
  if hday : d.day < monthLength d.year d.month then
    ⟨d.year, d.month, d.day + 1, d.le_year, d.month_mem, Nat.succ_pos _, hday⟩
  else if hmonth : d.month < 12 then
    ⟨d.year, d.month + 1, 1, d.le_year, ⟨Nat.succ_pos _, hmonth⟩, le_rfl, monthLength_pos _ _⟩
  else ⟨d.year + 1, 1, 1, d.le_year.trans (Nat.le_succ _), by decide, le_rfl, monthLength_pos _ _⟩

/-- How many days it is from 1970-01-01. -/
noncomputable def number (d : Date) : ℕ := sInf {n | next^[n] epoch = d}

/-! ### The days in front of a date -/

def daysBeforeYear (year : ℕ) : ℕ := ∑ k ∈ Finset.range (year - 1970), yearLength (1970 + k)

def daysBeforeMonth (year month : ℕ) : ℕ := ∑ k ∈ Finset.range (month - 1), monthLength year (k + 1)

def daysBefore (d : Date) : ℕ := daysBeforeYear d.year + daysBeforeMonth d.year d.month + (d.day - 1)

theorem daysBeforeYear_succ {year : ℕ} (h : 1970 ≤ year) :
    daysBeforeYear (year + 1) = daysBeforeYear year + yearLength year := by
  rw [daysBeforeYear, Nat.sub_add_comm h, Finset.sum_range_succ, Nat.add_sub_cancel' h, daysBeforeYear]

theorem daysBeforeMonth_succ (year : ℕ) {month : ℕ} (h : 1 ≤ month) :
    daysBeforeMonth year (month + 1) = daysBeforeMonth year month + monthLength year month := by
  rw [daysBeforeMonth, Nat.sub_add_comm h, Finset.sum_range_succ, Nat.sub_add_cancel h, daysBeforeMonth]

theorem daysBeforeYear_mono : Monotone daysBeforeYear := by
  intro y z h
  exact Finset.sum_le_sum_of_subset (Finset.range_subset_range.mpr (Nat.sub_le_sub_right h 1970))

theorem daysBeforeMonth_mono (year : ℕ) : Monotone (daysBeforeMonth year) := by
  intro m n h
  exact Finset.sum_le_sum_of_subset (Finset.range_subset_range.mpr (Nat.sub_le_sub_right h 1))

/-- Twelve months are a year. -/
theorem daysBeforeMonth_thirteen (year : ℕ) : daysBeforeMonth year 13 = yearLength year := by
  rw [daysBeforeMonth, yearLength]
  split_ifs with h
  · simp [Finset.sum_range_succ, monthLength, h]
  · simp [Finset.sum_range_succ, monthLength, h]

theorem daysBefore_lt_month (d : Date) :
    daysBeforeYear d.year + daysBeforeMonth d.year d.month ≤ daysBefore d ∧
      daysBefore d < daysBeforeYear d.year + daysBeforeMonth d.year (d.month + 1) := by
  obtain ⟨hfirst, hlast⟩ := d.day_mem
  rw [daysBeforeMonth_succ _ d.month_mem.1, daysBefore]
  omega

theorem daysBefore_lt_year (d : Date) :
    daysBeforeYear d.year ≤ daysBefore d ∧ daysBefore d < daysBeforeYear (d.year + 1) := by
  obtain ⟨hle, hlt⟩ := daysBefore_lt_month d
  have hmonth : daysBeforeMonth d.year (d.month + 1) ≤ daysBeforeMonth d.year 13 :=
    daysBeforeMonth_mono d.year (Nat.succ_le_succ d.month_mem.2)
  have hyear := daysBeforeYear_succ d.le_year
  rw [← daysBeforeMonth_thirteen] at hyear
  omega

/-- Every date is one day behind the date before it. -/
theorem daysBefore_next (d : Date) : daysBefore d.next = daysBefore d + 1 := by
  obtain ⟨hfirst, hlast⟩ := d.day_mem
  rw [next]
  split_ifs with hday hmonth
  · rw [daysBefore, daysBefore]
    dsimp only
    omega
  · -- the first of a month
    have hlength : d.day = monthLength d.year d.month := Nat.le_antisymm hlast (not_lt.mp hday)
    have hnext := daysBeforeMonth_succ d.year d.month_mem.1
    rw [daysBefore, daysBefore]
    dsimp only
    omega
  · -- the first of a year
    have hlength : d.day = monthLength d.year d.month := Nat.le_antisymm hlast (not_lt.mp hday)
    have hlastMonth : d.month = 12 := Nat.le_antisymm d.month_mem.2 (not_lt.mp hmonth)
    have hnext : daysBeforeMonth d.year 13 = daysBeforeMonth d.year 12 + monthLength d.year 12 :=
      daysBeforeMonth_succ d.year (by decide)
    have hyear := daysBeforeYear_succ d.le_year
    rw [← daysBeforeMonth_thirteen] at hyear
    rw [hlastMonth] at hlength
    have hjanuary : daysBeforeMonth (d.year + 1) 1 = 0 := rfl
    rw [daysBefore, daysBefore]
    dsimp only
    rw [hjanuary, hlastMonth]
    omega

/-- Two dates with the same number of days in front of them are the same. -/
theorem daysBefore_injective : Function.Injective daysBefore := by
  intro d e h
  have hyear : d.year = e.year := by
    obtain ⟨hd, hd'⟩ := daysBefore_lt_year d
    obtain ⟨he, he'⟩ := daysBefore_lt_year e
    rcases Nat.lt_trichotomy d.year e.year with hlt | heq | hgt
    · exact absurd (daysBeforeYear_mono hlt) (by simp only [Nat.succ_eq_add_one]; omega)
    · exact heq
    · exact absurd (daysBeforeYear_mono hgt) (by simp only [Nat.succ_eq_add_one]; omega)
  have hmonth : d.month = e.month := by
    obtain ⟨hd, hd'⟩ := daysBefore_lt_month d
    obtain ⟨he, he'⟩ := daysBefore_lt_month e
    rw [hyear] at hd hd'
    rcases Nat.lt_trichotomy d.month e.month with hlt | heq | hgt
    · exact absurd (daysBeforeMonth_mono e.year hlt) (by simp only [Nat.succ_eq_add_one]; omega)
    · exact heq
    · exact absurd (daysBeforeMonth_mono e.year hgt) (by simp only [Nat.succ_eq_add_one]; omega)
  have hday : d.day = e.day := by
    have hd := d.day_mem.1
    have he := e.day_mem.1
    rw [daysBefore, daysBefore, hyear, hmonth] at h
    omega
  exact Date.ext hyear hmonth hday

theorem daysBefore_iterate (n : ℕ) : daysBefore (next^[n] epoch) = n := by
  induction n with
  | zero => rfl
  | succ n ih => rw [Function.iterate_succ_apply', daysBefore_next, ih]

/-- Every date comes as many days behind 1970-01-01 as there are in front of it, and only then. -/
theorem iterate_eq_iff (d : Date) (n : ℕ) : next^[n] epoch = d ↔ n = daysBefore d := by
  constructor
  · rintro rfl
    exact (daysBefore_iterate n).symm
  · rintro rfl
    exact daysBefore_injective (daysBefore_iterate _)

theorem number_eq (d : Date) : d.number = daysBefore d := by
  have hset : {n | next^[n] epoch = d} = {daysBefore d} := by
    ext n
    exact iterate_eq_iff d n
  rw [number, hset, csInf_singleton]

end Date

end FortAI
