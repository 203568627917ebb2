import EntityQuery.Instant.Calendar
import EntityQuery.Proofs.Lexicographic

/-!
# Dates in order

The days of a year follow those of the year before, and the days of a month those of the month
before. So dates that the calendar has compare by year, month and day as their numbers do.
-/

namespace EntityQuery.Calendar

/-- The number of days of a year. -/
def yearLength (year : Int) : Int := if isLeap year then 366 else 365

/-- A year begins where the year before ends. -/
theorem daysBeforeYear_succ (year : Int) :
    daysBeforeYear (year + 1) = daysBeforeYear year + yearLength year := by
  have hleap : isLeap year = true ↔ year % 4 = 0 ∧ (year % 100 ≠ 0 ∨ year % 400 = 0) := by
    simp [isLeap]
  simp only [daysBeforeYear, yearLength]
  split_ifs with h
  · have hyear := hleap.mp h
    omega
  · have hyear : ¬(year % 4 = 0 ∧ (year % 100 ≠ 0 ∨ year % 400 = 0)) := fun hall =>
      h (hleap.mpr hall)
    omega

/-- Later years begin later. -/
theorem daysBeforeYear_mono {year year' : Int} (h : year ≤ year') :
    daysBeforeYear year ≤ daysBeforeYear year' := by
  simp only [daysBeforeYear]
  omega

/-- A month begins where the month before ends, and the last one ends with the year. -/
theorem daysBeforeMonth_add_le (year : Int) {month : Nat} (hfirst : 1 ≤ month)
    (hlast : month ≤ 12) :
    (∀ month' ≤ 12, month < month' →
      daysBeforeMonth year month + monthLength year month ≤ daysBeforeMonth year month') ∧
    (daysBeforeMonth year month + monthLength year month : Int) ≤ yearLength year := by
  have hmonths : ∀ leap : Bool, ∀ month ≤ 12, 1 ≤ month →
      (∀ month' ≤ 12, month < month' →
        ((monthLengths leap).take (month - 1)).foldl (fun days length => days + length) 0 +
            (monthLengths leap).getD (month - 1) 0 ≤
          ((monthLengths leap).take (month' - 1)).foldl (fun days length => days + length) 0) ∧
      ((monthLengths leap).take (month - 1)).foldl (fun days length => days + length) 0 +
        (monthLengths leap).getD (month - 1) 0 ≤ if leap then 366 else 365 := by
    decide
  obtain ⟨hlater, hend⟩ := hmonths (isLeap year) month hlast hfirst
  refine ⟨hlater, ?_⟩
  have hcast : ((if isLeap year then 366 else 365 : Nat) : Int) = yearLength year := by
    unfold yearLength
    split_ifs <;> rfl
  rw [← hcast]
  exact_mod_cast hend

/-- The place of a date in its year, counted from zero. -/
def Date.dayOfYear (date : Date) : Nat :=
  daysBeforeMonth date.year date.month + (date.day - 1)

/-- The number of a date is that of its year's first day and its place in the year. -/
theorem Date.toDay_eq (date : Date) :
    date.toDay = daysBeforeYear date.year + date.dayOfYear - epochDay := by
  unfold Date.toDay Date.dayOfYear
  push_cast
  omega

/-- The calendar has a date when its month and its day exist. -/
theorem Date.isValid_iff {date : Date} :
    date.isValid = true ↔ (1 ≤ date.month ∧ date.month ≤ 12) ∧
      1 ≤ date.day ∧ date.day ≤ monthLength date.year date.month := by
  simp [Date.isValid, and_assoc]

/-- A date lies within its year. -/
theorem Date.dayOfYear_lt {date : Date} (h : date.isValid = true) :
    (date.dayOfYear : Int) < yearLength date.year := by
  obtain ⟨⟨hfirst, hlast⟩, hday, hlength⟩ := isValid_iff.mp h
  have hend := (daysBeforeMonth_add_le date.year hfirst hlast).2
  unfold dayOfYear
  push_cast
  omega

/-- Within a year, dates compare by month and day as their places do. -/
theorem compare_dayOfYear {date date' : Date} (h : date.isValid = true)
    (h' : date'.isValid = true) (hyear : date.year = date'.year) :
    compare date.dayOfYear date'.dayOfYear =
      (compare date.month date'.month).then (compare date.day date'.day) := by
  obtain ⟨⟨hfirst, hlast⟩, hday, hlength⟩ := Date.isValid_iff.mp h
  obtain ⟨⟨hfirst', hlast'⟩, hday', hlength'⟩ := Date.isValid_iff.mp h'
  rw [← hyear] at hlength'
  have hlater := (daysBeforeMonth_add_le date.year hfirst hlast).1 _ hlast'
  have hearlier := (daysBeforeMonth_add_le date.year hfirst' hlast').1 _ hlast
  unfold Date.dayOfYear
  rw [← hyear]
  rcases lt_trichotomy date.month date'.month with hmonth | hmonth | hmonth
  · have hless := hlater hmonth
    rw [compare_lt_iff_lt.mpr hmonth, compare_lt_iff_lt.mpr (by omega)]
    rfl
  · rw [← hmonth, compare_eq_iff_eq.mpr rfl]
    rcases lt_trichotomy date.day date'.day with hdays | hdays | hdays
    · rw [compare_lt_iff_lt.mpr hdays, compare_lt_iff_lt.mpr (by omega)]
      rfl
    · rw [hdays, compare_eq_iff_eq.mpr rfl, compare_eq_iff_eq.mpr rfl]
      rfl
    · rw [compare_gt_iff_gt.mpr hdays, compare_gt_iff_gt.mpr (by omega)]
      rfl
  · have hless := hearlier hmonth
    rw [compare_gt_iff_gt.mpr hmonth, compare_gt_iff_gt.mpr (by omega)]
    rfl

/-- Dates that the calendar has compare by year, month and day as their numbers do. -/
theorem compare_toDay {date date' : Date} (h : date.isValid = true) (h' : date'.isValid = true) :
    compare date.toDay date'.toDay = (compare date.year date'.year).then
      ((compare date.month date'.month).then (compare date.day date'.day)) := by
  have hend := Date.dayOfYear_lt h
  have hend' := Date.dayOfYear_lt h'
  have hnext := daysBeforeYear_succ date.year
  have hnext' := daysBeforeYear_succ date'.year
  rw [Date.toDay_eq, Date.toDay_eq]
  rcases lt_trichotomy date.year date'.year with hyear | hyear | hyear
  · have hless := daysBeforeYear_mono (Int.add_one_le_iff.mpr hyear)
    rw [compare_lt_iff_lt.mpr hyear, compare_lt_iff_lt.mpr (by omega)]
    rfl
  · rw [compare_eq_iff_eq.mpr hyear, ← compare_dayOfYear h h' hyear, hyear, Int.sub_eq_add_neg,
      Int.sub_eq_add_neg, compare_add_right, Int.add_comm, Int.add_comm (daysBeforeYear _),
      compare_add_right, compare_natCast]
    rfl
  · have hless := daysBeforeYear_mono (Int.add_one_le_iff.mpr hyear)
    rw [compare_gt_iff_gt.mpr hyear, compare_gt_iff_gt.mpr (by omega)]
    rfl

end EntityQuery.Calendar
