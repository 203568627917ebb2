import EntityQuery.Proofs.Instant.Calendar

/-!
# Days and their dates

The date of a day is found by dividing by the lengths of ever shorter cycles. The years before a
cycle make up whole cycles, so each quotient counts years that have passed, and what remains is a
place in the year that has begun. That place is then counted off month by month.
-/

namespace EntityQuery.Calendar

/-- So many cycles of four centuries, of one century, of four years and of one year take so many
days. -/
theorem daysBeforeYear_cycles (fourCenturies : Int) {century fourYears single : Int}
    (hcentury : 0 ≤ century ∧ century ≤ 3) (hfour : 0 ≤ fourYears ∧ fourYears ≤ 24)
    (hsingle : 0 ≤ single ∧ single ≤ 3) :
    daysBeforeYear (400 * fourCenturies + 100 * century + 4 * fourYears + single + 1) =
      146097 * fourCenturies + 36524 * century + 1461 * fourYears + 365 * single := by
  simp only [daysBeforeYear]
  omega

/-- The year that has begun after so many cycles has a leap day when it ends four years, except
for those that end one of the first three centuries. -/
theorem yearLength_cycles (fourCenturies : Int) {century fourYears single : Int}
    (hcentury : 0 ≤ century ∧ century ≤ 3) (hfour : 0 ≤ fourYears ∧ fourYears ≤ 24)
    (hsingle : 0 ≤ single ∧ single ≤ 3) :
    yearLength (400 * fourCenturies + 100 * century + 4 * fourYears + single + 1) =
      if single = 3 ∧ (fourYears ≠ 24 ∨ century = 3) then 366 else 365 := by
  have hleap : isLeap (400 * fourCenturies + 100 * century + 4 * fourYears + single + 1) = true ↔
      single = 3 ∧ (fourYears ≠ 24 ∨ century = 3) := by
    simp only [isLeap, Bool.and_eq_true, Bool.or_eq_true, decide_eq_true_eq]
    omega
  simp only [yearLength, hleap]

/-- A place in the year falls into one of its months. -/
theorem placeInMonths_eq (month : Nat) {lengths : List Nat} {day : Nat} (h : day < lengths.sum) :
    ∃ index < lengths.length,
      placeInMonths month lengths day = (month + index, day - (lengths.take index).sum + 1) ∧
        (lengths.take index).sum ≤ day ∧
        day < (lengths.take index).sum + lengths.getD index 0 := by
  induction lengths generalizing month day with
  | nil => cases h
  | cons length lengths ih =>
    by_cases hday : day < length
    · refine ⟨0, Nat.succ_pos _, ?_, Nat.zero_le _, ?_⟩
      · rw [placeInMonths, if_pos hday]
        rfl
      · simpa using hday
    · rw [List.sum_cons] at h
      have hrest : day - length < lengths.sum := by omega
      obtain ⟨index, hindex, hplace, hlow, hhigh⟩ := ih (month + 1) hrest
      refine ⟨index + 1, Nat.succ_lt_succ hindex, ?_, ?_, ?_⟩
      · rw [placeInMonths, if_neg hday, hplace, List.take_succ_cons, List.sum_cons]
        congr 1 <;> omega
      · rw [List.take_succ_cons, List.sum_cons]
        omega
      · rw [List.take_succ_cons, List.sum_cons, List.getD_cons_succ]
        omega

/-- The days before a month are those of the months before it. -/
theorem daysBeforeMonth_eq_sum (year : Int) (month : Nat) :
    daysBeforeMonth year month = ((monthLengths (isLeap year)).take (month - 1)).sum :=
  List.sum_eq_foldl_nat.symm

/-- The months of a year have its days. -/
theorem sum_monthLengths (year : Int) :
    ((monthLengths (isLeap year)).sum : Int) = yearLength year := by
  unfold yearLength
  cases isLeap year <;> rfl

/-- No month has more than 31 days. -/
theorem monthLength_le (year : Int) (month : Nat) : monthLength year month ≤ 31 := by
  have hall : ∀ leap : Bool, ∀ length ∈ monthLengths leap, length ≤ 31 := by decide
  rw [monthLength, List.getD_eq_getElem?_getD]
  cases hlength : (monthLengths (isLeap year))[month - 1]? with
  | none => exact Nat.zero_le 31
  | some length => exact hall _ length (List.mem_of_getElem? hlength)

/-- The date at a place in a year is one that the calendar has, and stands at that place. -/
theorem dayOfYear_dateInYear {year : Int} {day : Nat} (h : (day : Int) < yearLength year) :
    (dateInYear year day).isValid = true ∧ (dateInYear year day).dayOfYear = day := by
  have hsum : day < (monthLengths (isLeap year)).sum := by
    rw [← sum_monthLengths] at h
    exact_mod_cast h
  obtain ⟨index, hindex, hplace, hlow, hhigh⟩ := placeInMonths_eq 1 hsum
  have hdate : dateInYear year day =
      ⟨year, 1 + index, day - ((monthLengths (isLeap year)).take index).sum + 1⟩ := by
    rw [dateInYear, hplace]
  have htwelve : index < 12 := hindex
  have hbefore : 1 + index - 1 = index := Nat.add_sub_cancel_left 1 index
  rw [hdate]
  constructor
  · refine Date.isValid_iff.mpr ⟨⟨Nat.le_add_right 1 index, ?_⟩, Nat.le_add_left 1 _, ?_⟩
    · show 1 + index ≤ 12
      omega
    · simp only [monthLength, hbefore]
      omega
  · simp only [Date.dayOfYear, daysBeforeMonth_eq_sum, hbefore]
    omega

/-- The date of a day lies in the year in which all whole cycles end, and its place in that year is
what remains. -/
theorem dateOfDay_eq (number : Int) :
    ∃ (year : Int) (day : Nat), (day : Int) < yearLength year ∧
      daysBeforeYear year + day - epochDay = number ∧
      dateOfDay number = dateInYear year day := by
  let fourCenturies := (number + epochDay) / 146097
  let inFour := (number + epochDay) % 146097
  let century := min (inFour / 36524) 3
  let inCentury := inFour - 36524 * century
  let fourYears := inCentury / 1461
  let inYears := inCentury % 1461
  let single := min (inYears / 365) 3
  let inYear := inYears - 365 * single
  have hcentury : 0 ≤ century ∧ century ≤ 3 := by omega
  have hfour : 0 ≤ fourYears ∧ fourYears ≤ 24 := by omega
  have hsingle : 0 ≤ single ∧ single ≤ 3 := by omega
  have hplace : 0 ≤ inYear := by omega
  have hcycles := daysBeforeYear_cycles fourCenturies hcentury hfour hsingle
  have hlength := yearLength_cycles fourCenturies hcentury hfour hsingle
  refine ⟨400 * fourCenturies + 100 * century + 4 * fourYears + single + 1, inYear.toNat, ?_, ?_,
    rfl⟩
  · rw [hlength, Int.toNat_of_nonneg hplace]
    split_ifs <;> omega
  · rw [hcycles, Int.toNat_of_nonneg hplace]
    omega

/-- The date of a day is one that the calendar has. -/
theorem isValid_dateOfDay (number : Int) : (dateOfDay number).isValid = true := by
  obtain ⟨year, day, hday, _, hdate⟩ := dateOfDay_eq number
  rw [hdate]
  exact (dayOfYear_dateInYear hday).1

/-- The number of the date of a day is the day. -/
theorem toDay_dateOfDay (number : Int) : (dateOfDay number).toDay = number := by
  obtain ⟨year, day, hday, hnumber, hdate⟩ := dateOfDay_eq number
  rw [hdate, Date.toDay_eq, (dayOfYear_dateInYear hday).2]
  exact hnumber

end EntityQuery.Calendar
