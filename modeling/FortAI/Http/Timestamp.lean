import FortAI.Machine.Calendar
import Mathlib.Algebra.BigOperators.Ring.Finset
import Mathlib.Data.Int.Cast.Lemmas
import Mathlib.Tactic.IntervalCases
import Mathlib.Tactic.Ring

/-!
# Timestamps

`unix_timestamp` counts the days in front of a date in two loops, in default integers.  `date_and_time`
reports local time, with the minutes that it is ahead of UTC.

* `unixTimestamp_eq` : what the routine computes, unless it overflows.
* `unixTimestamp_eq_iff` : when that is POSIX time.
-/

namespace FortAI

namespace Http

/-- What `date_and_time` reports. -/
structure Clock where
  date : Date
  /-- Minutes ahead of UTC. -/
  zone : ℤ
  hour : ℕ
  minute : ℕ
  second : ℕ
  hour_lt : hour < 24
  minute_lt : minute < 60
  /-- There may be a leap second. -/
  second_le : second ≤ 60

/-- POSIX time. -/
noncomputable def Clock.posix (c : Clock) : ℤ :=
  86400 * c.date.number + 3600 * c.hour + 60 * c.minute + c.second - 60 * c.zone

/-- A time before 03:14:08 on 2038-01-19. -/
def Clock.Before (c : Clock) : Prop :=
  c.date.year < 2038 ∨ c.date.year = 2038 ∧ c.date.month = 1 ∧
    (c.date.day < 19 ∨ c.date.day = 19 ∧
      (c.hour < 3 ∨ c.hour = 3 ∧ (c.minute < 14 ∨ c.minute = 14 ∧ c.second < 8)))

namespace Timestamp

/-! ### The routine -/

/-- The result of an operation on default integers. -/
def int32 (x : ℤ) : Option ℤ := if -2147483648 ≤ x ∧ x ≤ 2147483647 then some x else none

/-- `days_in_month` -/
def daysInMonth : List ℤ := [31, 28, 31, 30, 31, 30, 31, 31, 30, 31, 30, 31]

/-- The condition for a leap year, which is there twice. -/
def leap (year : ℕ) : Bool := year % 4 == 0 && (year % 100 != 0 || year % 400 == 0)

/-- The loop over the years, from `1970 + turns` down. -/
def yearLoop : ℕ → ℤ → Option ℤ
  | 0, days => some days
  | turns + 1, days => do
    let leapDays := if leap (1970 + turns) then 1 else 0
    let days ← int32 (days + 365)
    let days ← int32 (days + leapDays)
    yearLoop turns days

/-- One turn of the loop over the months. -/
def monthTurn (year : ℕ) (days : ℤ) (month : ℕ) : Option ℤ := do
  let days ← int32 (days + daysInMonth.getD (month - 1) 0)
  if month == 2 && leap year then int32 (days + 1) else some days

/-- `unix_timestamp` -/
def unixTimestamp (c : Clock) : Option ℤ := do
  let days ← yearLoop (c.date.year - 1970) 0
  let days ← (List.range' 1 (c.date.month - 1)).foldlM (monthTurn c.date.year) days
  let days ← int32 (days + c.date.day)
  let days ← int32 (days - 1)
  let seconds ← int32 (86400 * days)
  let seconds ← int32 (seconds + 3600 * c.hour)
  let seconds ← int32 (seconds + 60 * c.minute)
  int32 (seconds + c.second)

/-! ### What it computes -/

theorem int32_eq_some {x : ℤ} (hlow : 0 ≤ x) (hhigh : x ≤ 2147483647) : int32 x = some x :=
  if_pos ⟨(by decide : (-2147483648 : ℤ) ≤ 0).trans hlow, hhigh⟩

theorem int32_eq_none {x : ℤ} (h : 2147483647 < x) : int32 x = none := if_neg fun hx => hx.2.not_gt h

/-- An overflow on the way is one of the result. -/
theorem int32_bind {x y : ℤ} {f : ℤ → Option ℤ} (hlow : 0 ≤ x)
    (hover : 2147483647 < x → 2147483647 < y) (hf : x ≤ 2147483647 → f x = int32 y) :
    (int32 x >>= f) = int32 y := by
  rcases le_or_gt x 2147483647 with hle | hgt
  · rw [int32_eq_some hlow hle]
    exact hf hle
  · rw [int32_eq_none hgt, int32_eq_none (hover hgt)]
    rfl

theorem leap_eq (year : ℕ) : leap year = decide (IsLeap year) := by
  rw [leap, Bool.eq_iff_iff, decide_eq_true_iff, IsLeap]
  simp

theorem yearLoop_eq (turns : ℕ) (days : ℤ) (hlow : 0 ≤ days) (hhigh : days ≤ 2147483647) :
    yearLoop turns days = int32 (days + Date.daysBeforeYear (1970 + turns)) := by
  induction turns generalizing days with
  | zero =>
    have hzero : Date.daysBeforeYear (1970 + 0) = 0 := rfl
    rw [yearLoop, hzero, Nat.cast_zero, add_zero, int32_eq_some hlow hhigh]
  | succ turns ih =>
    have hnext := Date.daysBeforeYear_succ (Nat.le_add_right 1970 turns)
    have hlength : (yearLength (1970 + turns) : ℤ) = 365 + if leap (1970 + turns) then 1 else 0 := by
      rw [leap_eq, yearLength]
      by_cases h : IsLeap (1970 + turns)
      · simp [h]
      · simp [h]
    have hleap : (0 : ℤ) ≤ if leap (1970 + turns) then 1 else 0 := by
      split_ifs <;> decide
    rw [yearLoop, ← add_assoc, hnext]
    push_cast
    rw [hlength]
    refine int32_bind (by omega) (fun h => by omega) fun h1 => ?_
    refine int32_bind (by omega) (fun h => by omega) fun h2 => ?_
    rw [ih _ (by omega) h2]
    exact congrArg int32 (by ring)

/-- The table has the lengths but for the 29th of February. -/
theorem daysInMonth_getD (year : ℕ) {month : ℕ} (h : 1 ≤ month ∧ month ≤ 12) :
    daysInMonth.getD (month - 1) 0 = if month = 2 then 28 else (monthLength year month : ℤ) := by
  obtain ⟨hlow, hhigh⟩ := h
  interval_cases month <;> rfl

theorem monthTurn_eq {year month : ℕ} {days : ℤ} (hmonth : 1 ≤ month ∧ month ≤ 12) (hlow : 0 ≤ days) :
    monthTurn year days month = int32 (days + monthLength year month) := by
  rw [monthTurn, daysInMonth_getD year hmonth, leap_eq]
  by_cases hfebruary : month = 2
  · rw [if_pos hfebruary]
    by_cases hleap : IsLeap year
    · have hlength : monthLength year month = 29 := by rw [monthLength, if_pos hfebruary, if_pos hleap]
      rw [hlength]
      refine int32_bind (by omega) (fun h => by push_cast; omega) fun h => ?_
      rw [hfebruary, decide_eq_true hleap]
      exact congrArg int32 (add_assoc days 28 1)
    · have hlength : monthLength year month = 28 := by rw [monthLength, if_pos hfebruary, if_neg hleap]
      rw [hlength]
      refine int32_bind (by omega) (fun h => h) fun h => ?_
      rw [hfebruary, decide_eq_false hleap]
      exact (int32_eq_some (by omega) h).symm
  · rw [if_neg hfebruary]
    refine int32_bind (by omega) (fun h => h) fun h => ?_
    have hfebruary' : (month == 2) = false := beq_false_of_ne hfebruary
    rw [hfebruary']
    exact (int32_eq_some (by omega) h).symm

theorem months_eq (year : ℕ) (l : List ℕ) (hl : ∀ month ∈ l, 1 ≤ month ∧ month ≤ 12) (days : ℤ)
    (hlow : 0 ≤ days) (hhigh : days ≤ 2147483647) :
    l.foldlM (monthTurn year) days = int32 (days + (l.map fun month => (monthLength year month : ℤ)).sum) := by
  induction l generalizing days with
  | nil =>
    rw [List.map_nil, List.sum_nil, add_zero, int32_eq_some hlow hhigh]
    rfl
  | cons month l ih =>
    have hrest : (0 : ℤ) ≤ (l.map fun month => (monthLength year month : ℤ)).sum :=
      List.sum_nonneg fun x hx => by
        obtain ⟨m, -, rfl⟩ := List.mem_map.mp hx
        exact Int.natCast_nonneg _
    have hlength : (0 : ℤ) ≤ monthLength year month := Int.natCast_nonneg _
    rw [List.foldlM_cons, monthTurn_eq (hl month List.mem_cons_self) hlow, List.map_cons, List.sum_cons]
    refine int32_bind (by omega) (fun h => by omega) fun h => ?_
    rw [ih (fun m hm => hl m (List.mem_cons_of_mem month hm)) _ (by omega) h, add_assoc]

theorem sum_range' (f : ℕ → ℤ) (n : ℕ) :
    ((List.range' 1 n).map f).sum = ∑ k ∈ Finset.range n, f (k + 1) := by
  induction n with
  | zero => rfl
  | succ n ih =>
    rw [List.range'_1_concat, List.map_append, List.sum_append, ih, Finset.sum_range_succ, List.map_singleton,
      List.sum_singleton, add_comm 1 n]

/-- The seconds of the local time, in one integer. -/
theorem unixTimestamp_eq (c : Clock) :
    unixTimestamp c =
      int32 (86400 * (Date.daysBefore c.date : ℤ) + 3600 * c.hour + 60 * c.minute + c.second) := by
  have hday := c.date.day_mem.1
  have hyear : 1970 + (c.date.year - 1970) = c.date.year := Nat.add_sub_cancel' c.date.le_year
  have hmonths : ((List.range' 1 (c.date.month - 1)).map fun month =>
      (monthLength c.date.year month : ℤ)).sum = Date.daysBeforeMonth c.date.year c.date.month := by
    rw [sum_range', Date.daysBeforeMonth, Nat.cast_sum]
  have hmem (month : ℕ) (h : month ∈ List.range' 1 (c.date.month - 1)) : 1 ≤ month ∧ month ≤ 12 := by
    obtain ⟨hlow, hhigh⟩ := List.mem_range'_1.mp h
    have := c.date.month_mem.2
    exact ⟨hlow, by omega⟩
  rw [unixTimestamp, yearLoop_eq _ 0 le_rfl (by decide), hyear, Date.daysBefore]
  push_cast [Nat.cast_sub hday]
  refine int32_bind (by omega) (fun h => by omega) fun h1 => ?_
  rw [months_eq _ _ hmem _ (by omega) h1, hmonths]
  refine int32_bind (by omega) (fun h => by omega) fun h2 => ?_
  refine int32_bind (by omega) (fun h => by omega) fun h3 => ?_
  refine int32_bind (by omega) (fun h => by omega) fun h4 => ?_
  refine int32_bind (by omega) (fun h => by omega) fun h5 => ?_
  refine int32_bind (by omega) (fun h => by omega) fun h6 => ?_
  refine int32_bind (by omega) (fun h => by omega) fun h7 => ?_
  exact congrArg int32 (by ring)

/-! ### POSIX time -/

/-- The days in front of 2038, of its second month and of the year behind it. -/
theorem daysBeforeYear_2038 : Date.daysBeforeYear 2038 = 24837 ∧ Date.daysBeforeMonth 2038 2 = 31 ∧
    Date.daysBeforeYear 2039 = 25202 := by
  decide +kernel

/-- What is left of the range of a default integer after 1970. -/
theorem seconds_le_iff (c : Clock) :
    86400 * (Date.daysBefore c.date : ℤ) + 3600 * c.hour + 60 * c.minute + c.second ≤ 2147483647 ↔
      c.Before := by
  obtain ⟨h2038, hjanuary, h2039⟩ := daysBeforeYear_2038
  have hhour := c.hour_lt
  have hminute := c.minute_lt
  have hsecond := c.second_le
  obtain ⟨hlow, hhigh⟩ := Date.daysBefore_lt_year c.date
  rcases Nat.lt_trichotomy c.date.year 2038 with hlt | heq | hgt
  · have hmono : Date.daysBeforeYear (c.date.year + 1) ≤ 24837 := h2038 ▸ Date.daysBeforeYear_mono hlt
    exact iff_of_true (by omega) (.inl hlt)
  · have hday := c.date.day_mem.1
    rcases c.date.month_mem.1.eq_or_lt with hone | hmonth
    · have hdays : Date.daysBefore c.date = 24837 + (c.date.day - 1) := by
        have hzero : Date.daysBeforeMonth 2038 1 = 0 := rfl
        rw [Date.daysBefore, heq, ← hone, h2038, hzero]
      rw [hdays, Clock.Before]
      omega
    · -- a later month of 2038
      have hmono : 31 ≤ Date.daysBeforeMonth c.date.year c.date.month := by
        rw [heq, ← hjanuary]
        exact Date.daysBeforeMonth_mono 2038 hmonth
      have hle := (Date.daysBefore_lt_month c.date).1
      rw [heq, h2038] at hle
      rw [heq] at hmono
      refine iff_of_false (by omega) ?_
      rw [Clock.Before]
      omega
  · have hmono : 25202 ≤ Date.daysBeforeYear c.date.year := h2039 ▸ Date.daysBeforeYear_mono hgt
    refine iff_of_false (by omega) ?_
    rw [Clock.Before]
    omega

/-- The routine gives POSIX time in UTC, up to 03:14:07 on 2038-01-19. -/
theorem unixTimestamp_eq_iff (c : Clock) :
    unixTimestamp c = some c.posix ↔ c.zone = 0 ∧ c.Before := by
  rw [← seconds_le_iff, unixTimestamp_eq, Clock.posix, Date.number_eq]
  have hlow : (0 : ℤ) ≤ 86400 * (Date.daysBefore c.date : ℤ) + 3600 * c.hour + 60 * c.minute + c.second := by
    omega
  rcases le_or_gt (86400 * (Date.daysBefore c.date : ℤ) + 3600 * c.hour + 60 * c.minute + c.second)
    2147483647 with hle | hgt
  · rw [int32_eq_some hlow hle, Option.some_inj, and_iff_left hle]
    omega
  · rw [int32_eq_none hgt]
    exact iff_of_false (fun h => absurd h.symm (Option.some_ne_none _)) fun h => h.2.not_gt hgt

/-- 01:00 on 1970-01-01, one hour ahead of UTC. -/
def anHourAhead : Clock := ⟨Date.epoch, 60, 1, 0, 0, by decide, by decide, by decide⟩

theorem unixTimestamp_anHourAhead : unixTimestamp anHourAhead = some 3600 ∧ anHourAhead.posix = 0 := by
  refine ⟨by decide, ?_⟩
  have hnumber : anHourAhead.date.number = 0 := Date.number_eq _
  rw [Clock.posix, hnumber]
  decide

end Timestamp

end Http

end FortAI
