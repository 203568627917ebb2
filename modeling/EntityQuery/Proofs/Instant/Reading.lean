import EntityQuery.Instant.Rfc3339
import EntityQuery.Proofs.Instant.Calendar

/-!
# Reading moments place by place

A moment is read in parts: a date, a separator, a clock, the places of a second and an offset.
Each reader takes its part off the front of the text. Two texts that were read by one reader
compare by what it read first, and then by what it left.
-/

namespace EntityQuery.Instant

open Calendar

/-- A digit has a value below ten. -/
theorem toNat_of_isDigit {c : Char} (h : c.isDigit = true) : 48 ≤ c.toNat ∧ c.toNat < 58 := by
  have hrange : 48 ≤ c.toNat ∧ c.toNat ≤ 57 := by
    simpa [Char.isDigit, UInt32.le_iff_toNat_le] using h
  omega

/-- Characters compare as their code points. -/
theorem compare_toNat (c d : Char) : compare c.toNat d.toNat = compare c d := by
  rcases lt_trichotomy c d with h | rfl | h
  · rw [compare_lt_iff_lt.mpr h, compare_lt_iff_lt.mpr (show c.toNat < d.toNat from h)]
  · rw [compare_eq_iff_eq.mpr rfl, compare_eq_iff_eq.mpr rfl]
  · rw [compare_gt_iff_gt.mpr h, compare_gt_iff_gt.mpr (show d.toNat < c.toNat from h)]

/-- Digits compare as their values. -/
theorem compare_digit {c d : Char} (hc : c.isDigit = true) (hd : d.isDigit = true) :
    compare (c.toNat - 48) (d.toNat - 48) = compare c d := by
  obtain ⟨hcLow, _⟩ := toNat_of_isDigit hc
  obtain ⟨hdLow, _⟩ := toNat_of_isDigit hd
  rw [← compare_toNat, ← compare_natCast, ← compare_add_right _ _ 48, ← compare_natCast c.toNat]
  congr 1 <;> omega

/-- Equally many digits behind two numbers spell numbers that compare by what stands in front and
then by the digits. -/
theorem compare_spelledFrom {digits digits' : List Char} (hlength : digits.length = digits'.length)
    (h : digits.all Char.isDigit = true) (h' : digits'.all Char.isDigit = true) (n n' : Nat) :
    compare (spelledFrom n digits) (spelledFrom n' digits') =
      (compare n n').then (compare digits digits') := by
  induction digits generalizing digits' n n' with
  | nil =>
    obtain rfl := List.length_eq_zero_iff.mp hlength.symm
    cases hcompare : compare n n' <;> exact hcompare
  | cons c digits ih =>
    cases digits' with
    | nil => cases hlength
    | cons c' digits' =>
      obtain ⟨hc, hrest⟩ := Bool.and_eq_true_iff.mp h
      obtain ⟨hc', hrest'⟩ := Bool.and_eq_true_iff.mp h'
      have hlow := toNat_of_isDigit hc
      have hlow' := toNat_of_isDigit hc'
      have hstep : compare (10 * n + (c.toNat - 48)) (10 * n' + (c'.toNat - 48)) =
          (compare n n').then (compare c c') := by
        rw [compare_natPlaces (by omega) (by omega), compare_digit hc hc']
      have hall : compare (spelledFrom n (c :: digits)) (spelledFrom n' (c' :: digits')) =
          (compare (10 * n + (c.toNat - 48)) (10 * n' + (c'.toNat - 48))).then
            (compare digits digits') := ih (Nat.succ.inj hlength) hrest hrest' _ _
      rw [hall, hstep, compare_cons, Ordering.then_assoc]

/-- So many digits spell a number with so many places. -/
theorem spelledFrom_lt {digits : List Char} (h : digits.all Char.isDigit = true) (n : Nat) :
    spelledFrom n digits < (n + 1) * 10 ^ digits.length := by
  induction digits generalizing n with
  | nil =>
    have hsame : spelledFrom n [] = n := rfl
    rw [hsame, List.length_nil]
    omega
  | cons c digits ih =>
    obtain ⟨hc, hrest⟩ := Bool.and_eq_true_iff.mp h
    obtain ⟨_, hhigh⟩ := toNat_of_isDigit hc
    have hstep : spelledFrom n (c :: digits) <
        (10 * n + (c.toNat - 48) + 1) * 10 ^ digits.length := ih hrest _
    have hten : 10 * n + (c.toNat - 48) + 1 ≤ (n + 1) * 10 := by omega
    have hmul := Nat.mul_le_mul_right (10 ^ digits.length) hten
    rw [List.length_cons, Nat.pow_succ, Nat.mul_comm (10 ^ digits.length) 10, ← Nat.mul_assoc]
    omega

/-- A number is taken off the front of a text as so many digits. -/
theorem digits?_eq_some {count n : Nat} {cs rest : List Char}
    (h : digits? count cs = some (n, rest)) :
    ∃ digits, cs = digits ++ rest ∧ digits.length = count ∧ digits.all Char.isDigit = true ∧
      spelledFrom 0 digits = n := by
  unfold digits? at h
  by_cases hdigits : (cs.take count).length = count ∧ (cs.take count).all Char.isDigit = true
  · rw [if_pos hdigits] at h
    obtain ⟨rfl, rfl⟩ := Prod.mk.inj (Option.some.inj h)
    exact ⟨cs.take count, (List.take_append_drop count cs).symm, hdigits.1, hdigits.2, rfl⟩
  · rw [if_neg hdigits] at h
    cases h

/-- What follows a number is what follows so many characters. -/
theorem drop_of_digits? {count n : Nat} {cs rest : List Char}
    (h : digits? count cs = some (n, rest)) : cs.drop count = rest := by
  obtain ⟨digits, rfl, rfl, _⟩ := digits?_eq_some h
  exact List.drop_left

/-- Texts that begin with a number compare by that number first. -/
theorem compare_of_digits? {count n n' : Nat} {cs cs' rest rest' : List Char}
    (h : digits? count cs = some (n, rest)) (h' : digits? count cs' = some (n', rest')) :
    compare cs cs' = (compare n n').then (compare rest rest') := by
  obtain ⟨digits, rfl, hlength, hdigits, rfl⟩ := digits?_eq_some h
  obtain ⟨digits', rfl, hlength', hdigits', rfl⟩ := digits?_eq_some h'
  have hsame : digits.length = digits'.length := hlength.trans hlength'.symm
  have hspelled := compare_spelledFrom hsame hdigits hdigits' 0 0
  rw [compare_append rest rest' hsame, hspelled]
  rfl

/-- A given character is taken off the front of a text. -/
theorem expect?_eq_some {c : Char} {cs rest : List Char} (h : expect? c cs = some rest) :
    cs = c :: rest := by
  cases cs with
  | nil => cases h
  | cons d cs =>
    by_cases hsame : d = c
    · rw [expect?, if_pos hsame] at h
      rw [hsame, Option.some.inj h]
    · rw [expect?, if_neg hsame] at h
      cases h

/-- What follows a given character is what follows one character. -/
theorem drop_of_expect? {c : Char} {cs rest : List Char} (h : expect? c cs = some rest) :
    cs.drop 1 = rest := by
  rw [expect?_eq_some h]
  rfl

/-- Texts that begin with a given character compare by what follows. -/
theorem compare_of_expect? {c : Char} {cs cs' rest rest' : List Char}
    (h : expect? c cs = some rest) (h' : expect? c cs' = some rest') :
    compare cs cs' = compare rest rest' := by
  rw [expect?_eq_some h, expect?_eq_some h', compare_cons_self]

/-- A date is taken off the front of a text as its year, its month and its day. -/
theorem readDate?_eq_some {cs rest : List Char} {date : Date}
    (h : readDate? cs = some (date, rest)) :
    ∃ year month day afterYear yearEnd afterMonth monthEnd, date = ⟨(year : Nat), month, day⟩ ∧
      digits? 4 cs = some (year, afterYear) ∧ expect? '-' afterYear = some yearEnd ∧
      digits? 2 yearEnd = some (month, afterMonth) ∧ expect? '-' afterMonth = some monthEnd ∧
      digits? 2 monthEnd = some (day, rest) := by
  obtain ⟨⟨year, afterYear⟩, hyear, h⟩ := Option.bind_eq_some_iff.mp h
  obtain ⟨yearEnd, hyearEnd, h⟩ := Option.bind_eq_some_iff.mp h
  obtain ⟨⟨month, afterMonth⟩, hmonth, h⟩ := Option.bind_eq_some_iff.mp h
  obtain ⟨monthEnd, hmonthEnd, h⟩ := Option.bind_eq_some_iff.mp h
  obtain ⟨⟨day, other⟩, hday, h⟩ := Option.bind_eq_some_iff.mp h
  obtain ⟨rfl, rfl⟩ := Prod.mk.inj (Option.some.inj h)
  exact ⟨year, month, day, afterYear, yearEnd, afterMonth, monthEnd, rfl, hyear, hyearEnd, hmonth,
    hmonthEnd, hday⟩

/-- What follows a date is what follows ten characters. -/
theorem drop_of_readDate? {cs rest : List Char} {date : Date}
    (h : readDate? cs = some (date, rest)) : cs.drop 10 = rest := by
  obtain ⟨_, _, _, afterYear, yearEnd, afterMonth, monthEnd, _, hyear, hyearEnd, hmonth, hmonthEnd,
    hday⟩ := readDate?_eq_some h
  rw [← drop_of_digits? hday, ← drop_of_expect? hmonthEnd, ← drop_of_digits? hmonth,
    ← drop_of_expect? hyearEnd, ← drop_of_digits? hyear]
  simp only [List.drop_drop]

/-- Texts that begin with a date compare by year, month and day first. -/
theorem compare_of_readDate? {cs cs' rest rest' : List Char} {date date' : Date}
    (h : readDate? cs = some (date, rest)) (h' : readDate? cs' = some (date', rest')) :
    compare cs cs' = ((compare date.year date'.year).then
      ((compare date.month date'.month).then (compare date.day date'.day))).then
        (compare rest rest') := by
  obtain ⟨year, month, day, afterYear, yearEnd, afterMonth, monthEnd, rfl, hyear, hyearEnd, hmonth,
    hmonthEnd, hday⟩ := readDate?_eq_some h
  obtain ⟨year', month', day', afterYear', yearEnd', afterMonth', monthEnd', rfl, hyear', hyearEnd',
    hmonth', hmonthEnd', hday'⟩ := readDate?_eq_some h'
  rw [compare_of_digits? hyear hyear', compare_of_expect? hyearEnd hyearEnd',
    compare_of_digits? hmonth hmonth', compare_of_expect? hmonthEnd hmonthEnd',
    compare_of_digits? hday hday', compare_natCast, Ordering.then_assoc, Ordering.then_assoc]

/-- A time of day as it is written. -/
structure Clock where
  /-- The hour. -/
  hour : Nat
  /-- The minute. -/
  minute : Nat
  /-- The second; the sixtieth is a leap second. -/
  second : Nat
  /-- The part of a second, in nanoseconds. -/
  fraction : Nat

namespace Clock

/-- Hours, minutes and seconds up to a leap second, and less than a whole second behind them. -/
def InRange (clock : Clock) : Prop :=
  clock.hour ≤ 23 ∧ clock.minute ≤ 59 ∧ clock.second ≤ 60 ∧ clock.fraction < 1000000000

/-- The nanoseconds after the beginning of the minute. A leap second counts as the last
nanosecond before it. -/
def nanosOfMinute (clock : Clock) : Nat :=
  min clock.second 59 * 1000000000 + if clock.second = 60 then 999999999 else clock.fraction

/-- The nanoseconds after midnight. -/
def nanos (clock : Clock) : Nat :=
  (3600 * clock.hour + 60 * clock.minute + min clock.second 59) * 1000000000 +
    if clock.second = 60 then 999999999 else clock.fraction

theorem nanosOfMinute_lt {clock : Clock} (h : clock.InRange) :
    clock.nanosOfMinute < 60000000000 := by
  obtain ⟨_, _, hsecond, hfraction⟩ := h
  unfold nanosOfMinute
  split_ifs <;> omega

theorem nanos_eq (clock : Clock) :
    clock.nanos = 60000000000 * (60 * clock.hour + clock.minute) + clock.nanosOfMinute := by
  unfold nanos nanosOfMinute
  omega

theorem nanos_lt {clock : Clock} (h : clock.InRange) : clock.nanos < 86400000000000 := by
  have hminute := nanosOfMinute_lt h
  obtain ⟨hhour, hminutes, _⟩ := h
  rw [nanos_eq]
  omega

/-- Seconds compare with their parts as the nanoseconds after the beginning of the minute do, as
long as a leap second has no parts. -/
theorem compare_nanosOfMinute {clock clock' : Clock} (h : clock.InRange) (h' : clock'.InRange)
    (hleap : clock.second = 60 ∨ clock'.second = 60 → clock.fraction = 0 ∧ clock'.fraction = 0) :
    compare clock.nanosOfMinute clock'.nanosOfMinute =
      (compare clock.second clock'.second).then (compare clock.fraction clock'.fraction) := by
  obtain ⟨_, _, hsecond, hfraction⟩ := h
  obtain ⟨_, _, hsecond', hfraction'⟩ := h'
  unfold nanosOfMinute
  rcases lt_trichotomy clock.second clock'.second with hless | hsame | hless
  · rw [compare_lt_iff_lt.mpr hless, compare_lt_iff_lt.mpr]
    · rfl
    · split_ifs <;> omega
  · rw [← hsame, compare_eq_iff_eq.mpr rfl]
    by_cases hsixty : clock.second = 60
    · obtain ⟨hnone, hnone'⟩ := hleap (.inl hsixty)
      rw [if_pos hsixty, if_pos hsixty, hnone, hnone']
      rw [compare_eq_iff_eq.mpr rfl, compare_eq_iff_eq.mpr rfl]
      rfl
    · rw [if_neg hsixty, if_neg hsixty, Nat.mul_comm, compare_natPlaces hfraction hfraction',
        compare_eq_iff_eq.mpr rfl]
  · rw [compare_gt_iff_gt.mpr hless, compare_gt_iff_gt.mpr]
    · rfl
    · split_ifs <;> omega

/-- Times of day compare by hour, minute, second and part of a second as their nanoseconds do. -/
theorem compare_nanos {clock clock' : Clock} (h : clock.InRange) (h' : clock'.InRange)
    (hleap : clock.second = 60 ∨ clock'.second = 60 → clock.fraction = 0 ∧ clock'.fraction = 0) :
    compare clock.nanos clock'.nanos = (compare clock.hour clock'.hour).then
      ((compare clock.minute clock'.minute).then
        ((compare clock.second clock'.second).then (compare clock.fraction clock'.fraction))) := by
  have hminute : clock.minute < 60 := by
    have hbound := h.2.1
    omega
  have hminute' : clock'.minute < 60 := by
    have hbound := h'.2.1
    omega
  rw [nanos_eq, nanos_eq, compare_natPlaces (nanosOfMinute_lt h) (nanosOfMinute_lt h'),
    compare_natPlaces hminute hminute', compare_nanosOfMinute h h' hleap, Ordering.then_assoc]

end Clock

/-- Hour, minute and second are taken off the front of a text. -/
def ReadsClock (cs : List Char) (clock : Clock) (rest : List Char) : Prop :=
  ∃ afterHour hourEnd afterMinute minuteEnd, digits? 2 cs = some (clock.hour, afterHour) ∧
    expect? ':' afterHour = some hourEnd ∧ digits? 2 hourEnd = some (clock.minute, afterMinute) ∧
    expect? ':' afterMinute = some minuteEnd ∧ digits? 2 minuteEnd = some (clock.second, rest)

/-- What follows a clock is what follows eight characters. -/
theorem ReadsClock.drop {cs rest : List Char} {clock : Clock} (h : ReadsClock cs clock rest) :
    cs.drop 8 = rest := by
  obtain ⟨_, _, _, _, hhour, hhourEnd, hminute, hminuteEnd, hsecond⟩ := h
  rw [← drop_of_digits? hsecond, ← drop_of_expect? hminuteEnd, ← drop_of_digits? hminute,
    ← drop_of_expect? hhourEnd, ← drop_of_digits? hhour]
  simp only [List.drop_drop]

/-- The digits of the second stand behind six characters. -/
theorem ReadsClock.second_digits {cs rest : List Char} {clock : Clock}
    (h : ReadsClock cs clock rest) : digits? 2 (cs.drop 6) = some (clock.second, rest) := by
  obtain ⟨_, _, _, _, hhour, hhourEnd, hminute, hminuteEnd, hsecond⟩ := h
  rw [← hsecond, ← drop_of_expect? hminuteEnd, ← drop_of_digits? hminute,
    ← drop_of_expect? hhourEnd, ← drop_of_digits? hhour]
  simp only [List.drop_drop]

/-- Texts that begin with a clock compare by hour, minute and second first. -/
theorem ReadsClock.compare {cs cs' rest rest' : List Char} {clock clock' : Clock}
    (h : ReadsClock cs clock rest) (h' : ReadsClock cs' clock' rest') :
    compare cs cs' = (compare clock.hour clock'.hour).then
      ((compare clock.minute clock'.minute).then
        ((compare clock.second clock'.second).then (compare rest rest'))) := by
  obtain ⟨_, _, _, _, hhour, hhourEnd, hminute, hminuteEnd, hsecond⟩ := h
  obtain ⟨_, _, _, _, hhour', hhourEnd', hminute', hminuteEnd', hsecond'⟩ := h'
  rw [compare_of_digits? hhour hhour', compare_of_expect? hhourEnd hhourEnd',
    compare_of_digits? hminute hminute', compare_of_expect? hminuteEnd hminuteEnd',
    compare_of_digits? hsecond hsecond']

/-- The places of a second are a point with digits behind it, or nothing. -/
theorem readFraction?_eq_some {cs rest : List Char} {fraction : Nat}
    (h : readFraction? cs = some (fraction, rest)) :
    (∃ digits, digits.all Char.isDigit = true ∧ cs = '.' :: (digits ++ rest) ∧
      fraction = fractionNanos digits) ∨ (cs = rest ∧ fraction = 0) := by
  unfold readFraction? at h
  split at h
  case h_1 cs =>
    by_cases hempty : (cs.takeWhile Char.isDigit).isEmpty = true
    · rw [if_pos hempty] at h
      cases h
    · rw [if_neg hempty] at h
      obtain ⟨rfl, rfl⟩ := Prod.mk.inj (Option.some.inj h)
      refine .inl ⟨cs.takeWhile Char.isDigit, ?_, ?_, rfl⟩
      · exact List.all_takeWhile
      · rw [List.takeWhile_append_dropWhile]
  case h_2 =>
    obtain ⟨rfl, rfl⟩ := Prod.mk.inj (Option.some.inj h)
    exact .inr ⟨rfl, rfl⟩

/-- Up to nine places are filled up with zeros. -/
theorem fractionNanos_eq {digits : List Char} (h : digits.length ≤ 9) :
    fractionNanos digits =
      spelledFrom 0 (digits ++ List.replicate (9 - digits.length) '0') := by
  rw [fractionNanos, List.take_append, List.take_of_length_le h, List.take_replicate,
    Nat.min_eq_left (Nat.sub_le 9 _)]

/-- Digits with zeros behind them are digits. -/
theorem all_isDigit_append_zeros {digits : List Char} (h : digits.all Char.isDigit = true)
    (count : Nat) : (digits ++ List.replicate count '0').all Char.isDigit = true := by
  rw [List.all_append, h, List.all_replicate]
  simp

/-- Equally many places, at most nine, compare as the parts of a second that they spell. -/
theorem compare_fractionNanos {digits digits' : List Char}
    (hlength : digits.length = digits'.length) (hnine : digits.length ≤ 9)
    (h : digits.all Char.isDigit = true) (h' : digits'.all Char.isDigit = true) :
    compare (fractionNanos digits) (fractionNanos digits') = compare digits digits' := by
  rw [fractionNanos_eq hnine, fractionNanos_eq (hlength ▸ hnine), ← hlength,
    compare_spelledFrom (by simp [hlength]) (all_isDigit_append_zeros h _)
      (all_isDigit_append_zeros h' _), compare_append _ _ hlength, compare_chars_self,
    compare_eq_iff_eq.mpr rfl]
  cases compare digits digits' <;> rfl

/-- The places of a second spell less than a second. -/
theorem fractionNanos_lt {digits : List Char} (h : digits.all Char.isDigit = true) :
    fractionNanos digits < 1000000000 := by
  have hall : ((digits ++ List.replicate 9 '0').take 9).all Char.isDigit = true := by
    rw [List.all_eq_true]
    intro c hc
    exact List.all_eq_true.mp (all_isDigit_append_zeros h 9) c (List.mem_of_mem_take hc)
  have hlength : ((digits ++ List.replicate 9 '0').take 9).length = 9 := by
    rw [List.length_take, List.length_append, List.length_replicate]
    omega
  have hless := spelledFrom_lt hall 0
  rw [hlength] at hless
  exact hless

/-- What is read as the part of a second is less than a second. -/
theorem lt_of_readFraction? {cs rest : List Char} {fraction : Nat}
    (h : readFraction? cs = some (fraction, rest)) : fraction < 1000000000 := by
  rcases readFraction?_eq_some h with ⟨digits, hdigits, _, rfl⟩ | ⟨_, rfl⟩
  · exact fractionNanos_lt hdigits
  · decide

end EntityQuery.Instant
