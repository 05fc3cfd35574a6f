import Mathlib.Algebra.Group.Int.Defs
import Mathlib.Algebra.Group.Nat.Defs
import Mathlib.Data.Nat.Find

/-!
# The calendar

Seconds since 1970-01-01 00:00:00 as a date of the Gregorian calendar and a time
of day. Years are taken in eras of 400, of 146097 days each.

* `locate_lt`: with the starts of consecutive periods, a later day is in a later
  period or later in the same one;
* `date_lt`: a later day has a later date;
* `minute_lt`, `fields_injective`: the same for the minutes; and different
  seconds have different fields.
-/

namespace Calendar

/-! ## Periods -/

/-- The last of the periods `0, .., bound` that starts at `n` or before. -/
def locate (start : Nat → Nat) (bound n : Nat) : Nat :=
  Nat.findGreatest (fun k => start k ≤ n) bound

section
variable {start : Nat → Nat} {bound m n : Nat}

theorem locate_le : locate start bound n ≤ bound := Nat.findGreatest_le bound

theorem start_locate_le (h0 : start 0 = 0) : start (locate start bound n) ≤ n :=
  Nat.findGreatest_spec (P := fun k => start k ≤ n) (Nat.zero_le bound) (by simp [h0])

/-- The next period starts later. -/
theorem lt_start_succ (h : locate start bound n < bound) :
    n < start (locate start bound n + 1) := by
  have hnot := Nat.findGreatest_is_greatest (Nat.lt_succ_self (locate start bound n)) h
  exact Nat.not_le.mp hnot

theorem locate_mono (h : m ≤ n) : locate start bound m ≤ locate start bound n :=
  Nat.findGreatest_mono_left (fun _ hk => Nat.le_trans hk h) bound

theorem locate_lt (h0 : start 0 = 0) (h : m < n) :
    locate start bound m < locate start bound n ∨
      locate start bound m = locate start bound n ∧
        m - start (locate start bound m) < n - start (locate start bound n) := by
  have hmono : locate start bound m ≤ locate start bound n := locate_mono (Nat.le_of_lt h)
  rcases Nat.lt_or_eq_of_le hmono with hlt | heq
  · exact Or.inl hlt
  · right
    have hstart : start (locate start bound m) ≤ m := start_locate_le h0
    rw [← heq]
    omega

end

/-! ## Dates -/

/-- The days of an era before its year `y`. -/
def yearStart (y : Nat) : Nat := 365 * y + (y + 3) / 4 - (y + 99) / 100 + (y + 399) / 400

def isLeap (y : Nat) : Bool := decide (y % 4 = 0 ∧ (y % 100 ≠ 0 ∨ y % 400 = 0))

/-- The days of a year before its month `m`, counted from 0. -/
def monthStart (leap : Bool) (m : Nat) : Nat :=
  [0, 31, 59, 90, 120, 151, 181, 212, 243, 273, 304, 334, 365].getD m 365 +
    (if leap = true ∧ 2 ≤ m then 1 else 0)

structure Date where
  year : Int
  /-- From 0. -/
  month : Nat
  /-- From 1. -/
  day : Nat
deriving DecidableEq, Repr

/-- The era of a day counted from 1970-01-01; 719528 days are from 0000-01-01 to there. -/
def era (days : Int) : Int := (days + 719528) / 146097

def dayOfEra (days : Int) : Nat := ((days + 719528) % 146097).toNat

def yearOfEra (days : Int) : Nat := locate yearStart 399 (dayOfEra days)

def dayOfYear (days : Int) : Nat := dayOfEra days - yearStart (yearOfEra days)

def monthOfYear (days : Int) : Nat :=
  locate (monthStart (isLeap (yearOfEra days))) 11 (dayOfYear days)

def date (days : Int) : Date where
  year := 400 * era days + yearOfEra days
  month := monthOfYear days
  day := dayOfYear days - monthStart (isLeap (yearOfEra days)) (monthOfYear days) + 1

theorem yearStart_zero : yearStart 0 = 0 := rfl

theorem monthStart_zero (leap : Bool) : monthStart leap 0 = 0 := by
  cases leap <;> rfl

/-- A later day has a later date. -/
theorem date_lt {d e : Int} (h : d < e) :
    (date d).year < (date e).year ∨ (date d).year = (date e).year ∧
      ((date d).month < (date e).month ∨ (date d).month = (date e).month ∧
        (date d).day < (date e).day) := by
  have hyear : yearOfEra d ≤ 399 := locate_le
  by_cases hera : era d = era e
  · have hday : dayOfEra d < dayOfEra e := by
      unfold era at hera
      unfold dayOfEra
      omega
    have hcases : yearOfEra d < yearOfEra e ∨
        yearOfEra d = yearOfEra e ∧ dayOfYear d < dayOfYear e := locate_lt yearStart_zero hday
    rcases hcases with hlt | ⟨hsame, hdoy⟩
    · left
      show 400 * era d + yearOfEra d < 400 * era e + (yearOfEra e : Int)
      omega
    · -- in the same year
      have hmonths : monthOfYear d < monthOfYear e ∨ monthOfYear d = monthOfYear e ∧
          dayOfYear d - monthStart (isLeap (yearOfEra d)) (monthOfYear d) <
            dayOfYear e - monthStart (isLeap (yearOfEra e)) (monthOfYear e) := by
        have hlocated := @locate_lt (monthStart (isLeap (yearOfEra d))) 11 _ _
          (monthStart_zero (isLeap (yearOfEra d))) hdoy
        unfold monthOfYear
        rw [← hsame]
        exact hlocated
      right
      refine ⟨?_, ?_⟩
      · show 400 * era d + yearOfEra d = 400 * era e + (yearOfEra e : Int)
        omega
      · rcases hmonths with hmonth | ⟨hmonth, hoff⟩
        · exact Or.inl hmonth
        · refine Or.inr ⟨hmonth, ?_⟩
          show dayOfYear d - monthStart (isLeap (yearOfEra d)) (monthOfYear d) + 1 <
            dayOfYear e - monthStart (isLeap (yearOfEra e)) (monthOfYear e) + 1
          omega
  · left
    have hlt : era d < era e := by
      unfold era at hera ⊢
      omega
    show 400 * era d + yearOfEra d < 400 * era e + (yearOfEra e : Int)
    omega

theorem yearStart_succ : ∀ y < 400,
    yearStart (y + 1) = yearStart y + (if isLeap y = true then 366 else 365) := by
  decide +kernel

theorem monthStart_succ : ∀ leap, ∀ m < 11,
    monthStart leap (m + 1) ≤ monthStart leap m + 31 := by
  decide

theorem monthStart_last (leap : Bool) :
    monthStart leap 11 + 31 = if leap = true then 366 else 365 := by
  cases leap <;> rfl

theorem dayOfYear_lt (days : Int) :
    dayOfYear days < if isLeap (yearOfEra days) = true then 366 else 365 := by
  have hyear : yearOfEra days ≤ 399 := locate_le
  have hstart : yearStart (yearOfEra days) ≤ dayOfEra days := start_locate_le yearStart_zero
  have hsucc := yearStart_succ (yearOfEra days) (by omega)
  have hnext : dayOfEra days < yearStart (yearOfEra days + 1) := by
    by_cases hlast : yearOfEra days < 399
    · exact lt_start_succ hlast
    · -- the era ends with its last year
      have hend : yearOfEra days = 399 := by omega
      have hera : yearStart (399 + 1) = 146097 := by decide
      rw [hend, hera]
      unfold dayOfEra
      omega
  unfold dayOfYear
  omega

theorem month_le (days : Int) : (date days).month ≤ 11 := locate_le

theorem day_le (days : Int) : (date days).day ≤ 31 := by
  have hyear := dayOfYear_lt days
  show dayOfYear days - monthStart (isLeap (yearOfEra days)) (monthOfYear days) + 1 ≤ 31
  have hmonth : monthOfYear days ≤ 11 := locate_le
  by_cases hlast : monthOfYear days < 11
  · have hnext : dayOfYear days < monthStart (isLeap (yearOfEra days)) (monthOfYear days + 1) :=
      lt_start_succ hlast
    have hlength := monthStart_succ (isLeap (yearOfEra days)) (monthOfYear days) hlast
    omega
  · have hdecember : monthOfYear days = 11 := by omega
    have hend := monthStart_last (isLeap (yearOfEra days))
    rw [hdecember]
    omega

theorem day_pos (days : Int) : 1 ≤ (date days).day := Nat.le_add_left 1 _

theorem date_injective {d e : Int} (h : date d = date e) : d = e := by
  rcases Int.lt_trichotomy d e with hlt | heq | hgt
  · have hlater := date_lt hlt
    rw [h] at hlater
    omega
  · exact heq
  · have hlater := date_lt hgt
    rw [h] at hlater
    omega

/-! ## Times -/

structure Fields where
  date : Date
  hour : Nat
  min : Nat
  sec : Nat
deriving DecidableEq, Repr

def secondOfDay (s : Int) : Nat := (s % 86400).toNat

/-- The date and the time of second `s`. -/
def fields (s : Int) : Fields where
  date := Calendar.date (s / 86400)
  hour := secondOfDay s / 3600
  min := secondOfDay s % 3600 / 60
  sec := secondOfDay s % 60

theorem secondOfDay_lt (s : Int) : secondOfDay s < 86400 := by
  unfold secondOfDay
  omega

theorem hour_le (s : Int) : (fields s).hour ≤ 23 := by
  have hlt := secondOfDay_lt s
  show secondOfDay s / 3600 ≤ 23
  omega

theorem min_le (s : Int) : (fields s).min ≤ 59 := by
  show secondOfDay s % 3600 / 60 ≤ 59
  omega

theorem sec_le (s : Int) : (fields s).sec ≤ 59 := by
  show secondOfDay s % 60 ≤ 59
  omega

/-- Two seconds of the same minute differ in the seconds alone. -/
theorem minute_eq {s t : Int} (h : s / 60 = t / 60) :
    (fields s).date = (fields t).date ∧ (fields s).hour = (fields t).hour ∧
      (fields s).min = (fields t).min := by
  have hday : s / 86400 = t / 86400 := by omega
  refine ⟨?_, ?_, ?_⟩
  · show Calendar.date (s / 86400) = Calendar.date (t / 86400)
    rw [hday]
  · show secondOfDay s / 3600 = secondOfDay t / 3600
    unfold secondOfDay
    omega
  · show secondOfDay s % 3600 / 60 = secondOfDay t % 3600 / 60
    unfold secondOfDay
    omega

/-- An earlier minute has the earlier fields. -/
theorem minute_lt {s t : Int} (h : s / 60 < t / 60) :
    s / 86400 < t / 86400 ∨ s / 86400 = t / 86400 ∧
      ((fields s).hour < (fields t).hour ∨ (fields s).hour = (fields t).hour ∧
        (fields s).min < (fields t).min) := by
  show _ ∨ _ ∧ (secondOfDay s / 3600 < secondOfDay t / 3600 ∨
    secondOfDay s / 3600 = secondOfDay t / 3600 ∧
      secondOfDay s % 3600 / 60 < secondOfDay t % 3600 / 60)
  unfold secondOfDay
  omega

theorem fields_injective {s t : Int} (h : fields s = fields t) : s = t := by
  have hday : s / 86400 = t / 86400 := date_injective (congrArg Fields.date h)
  have hhour : secondOfDay s / 3600 = secondOfDay t / 3600 := congrArg Fields.hour h
  have hmin : secondOfDay s % 3600 / 60 = secondOfDay t % 3600 / 60 := congrArg Fields.min h
  have hsec : secondOfDay s % 60 = secondOfDay t % 60 := congrArg Fields.sec h
  unfold secondOfDay at hhour hmin hsec
  omega

example : fields 951827696 = ⟨⟨2000, 1, 29⟩, 12, 34, 56⟩ := by decide +kernel

end Calendar
