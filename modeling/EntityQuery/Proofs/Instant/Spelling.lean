import EntityQuery.Proofs.Instant.Reading

/-!
# Texts of moments in order

Texts that denote moments do not compare as the moments do: a calendar date comes before every
moment of its day, another offset shows another clock, and places may be missing. But texts that
are written alike do, that is, with the same separator behind the date, equally many places of
the second and the same offset.
-/

namespace EntityQuery.Instant

open Calendar

/-- The offset of a written moment: what follows the places of its second. -/
def offsetChars (cs : List Char) : List Char :=
  ((readFraction? (cs.drop 19)).map Prod.snd).getD []

/-- A moment or a calendar date is plainly written: it has no blanks around it and no sign in
front, at most nine places of its second, and none behind a sixtieth second. -/
structure PlainlyWritten (cs : List Char) : Prop where
  /-- No blanks stand around it. -/
  trimmed : Text.trimChars cs = cs
  /-- No sign stands in front. -/
  unsigned : cs.head? ≠ some '-' ∧ cs.head? ≠ some '+'
  /-- There are at most nine places. -/
  places : cs.length ≤ 29 + (offsetChars cs).length
  /-- A sixtieth second has no places. -/
  leap : (cs.drop 17).take 2 = ['6', '0'] → cs.length = 19 + (offsetChars cs).length

/-- Two moments or two calendar dates are plainly written in the same form. -/
structure WrittenAlike (cs cs' : List Char) : Prop where
  /-- The first one is plainly written. -/
  left : PlainlyWritten cs
  /-- The second one is plainly written. -/
  right : PlainlyWritten cs'
  /-- Both have equally many places. -/
  length : cs.length = cs'.length
  /-- The same character stands behind the date, or none. -/
  separator : cs[10]? = cs'[10]?
  /-- Both have the same offset. -/
  offset : offsetChars cs = offsetChars cs'

/-- Everything that reading a moment finds in its text, and the rests of the text between its
parts. -/
structure MomentTrace (cs : List Char) (t : Instant) (date : Date) (separator : Char)
    (clock : Clock) (offset : Int) (body tail offsetText : List Char) : Prop where
  /-- A date and a separator come first. -/
  dated : readDate? cs = some (date, separator :: body)
  /-- A clock follows. -/
  clocked : ReadsClock body clock tail
  /-- The places of the second follow. -/
  placed : readFraction? tail = some (clock.fraction, offsetText)
  /-- The offset is the rest. -/
  ended : readOffset? offsetText = some offset
  /-- The calendar has the date. -/
  valid : date.isValid = true
  /-- The clock can show the time. -/
  inRange : clock.InRange
  /-- The moment is that of the clock on the date. -/
  moment : t = ofLocal date.toDay (clock.nanos : Nat) offset

/-- Reading a moment succeeds only by reading each of its parts. -/
theorem exists_trace_of_moment {cs : List Char} {t : Instant} (h : ofRfc3339Chars? cs = some t) :
    ∃ date separator clock offset body tail offsetText,
      MomentTrace cs t date separator clock offset body tail offsetText := by
  obtain ⟨⟨date, rest⟩, hdate, h⟩ := Option.bind_eq_some_iff.mp h
  obtain ⟨separator, hseparator, h⟩ := Option.bind_eq_some_iff.mp h
  obtain ⟨body, rfl⟩ : ∃ body, rest = separator :: body := List.head?_eq_some_iff.mp hseparator
  dsimp only [List.drop_succ_cons, List.drop_zero] at h
  by_cases hascii : 128 ≤ separator.toNat
  · rw [if_pos hascii] at h
    cases h
  rw [if_neg hascii] at h
  obtain ⟨⟨hour, afterHour⟩, hhour, h⟩ := Option.bind_eq_some_iff.mp h
  obtain ⟨hourEnd, hhourEnd, h⟩ := Option.bind_eq_some_iff.mp h
  obtain ⟨⟨minute, afterMinute⟩, hminute, h⟩ := Option.bind_eq_some_iff.mp h
  obtain ⟨minuteEnd, hminuteEnd, h⟩ := Option.bind_eq_some_iff.mp h
  obtain ⟨⟨second, tail⟩, hsecond, h⟩ := Option.bind_eq_some_iff.mp h
  obtain ⟨⟨fraction, offsetText⟩, hfraction, h⟩ := Option.bind_eq_some_iff.mp h
  obtain ⟨offset, hoffset, h⟩ := Option.bind_eq_some_iff.mp h
  dsimp only at h
  by_cases hrange : (!date.isValid) = true ∨ 23 < hour ∨ 59 < minute ∨ 60 < second
  · rw [if_pos hrange] at h
    cases h
  rw [if_neg hrange] at h
  by_cases hleap : second = 60 ∧ (!(ofLocal date.toDay
      (((3600 * hour + 60 * minute + min second 59) * 1000000000 +
        if second = 60 then 999999999 else fraction : Nat) : Int) offset).precedesLeapSecond) = true
  · rw [if_pos hleap] at h
    cases h
  rw [if_neg hleap] at h
  obtain ⟨hvalid, hhours, hminutes, hseconds⟩ : date.isValid = true ∧ hour ≤ 23 ∧ minute ≤ 59 ∧
      second ≤ 60 := by
    simpa [not_or] using hrange
  exact ⟨date, separator, ⟨hour, minute, second, fraction⟩, offset, body, tail, offsetText, hdate,
    ⟨afterHour, hourEnd, afterMinute, minuteEnd, hhour, hhourEnd, hminute, hminuteEnd, hsecond⟩,
    hfraction, hoffset, hvalid, ⟨hhours, hminutes, hseconds, lt_of_readFraction? hfraction⟩,
    (Option.some.inj h).symm⟩

namespace MomentTrace

variable {cs cs' : List Char} {t t' : Instant} {date date' : Date} {separator separator' : Char}
  {clock clock' : Clock} {offset offset' : Int}
  {body body' tail tail' offsetText offsetText' : List Char}

/-- What follows the date is what follows ten characters. -/
theorem drop_ten (trace : MomentTrace cs t date separator clock offset body tail offsetText) :
    cs.drop 10 = separator :: body :=
  drop_of_readDate? trace.dated

/-- The clock begins behind eleven characters. -/
theorem drop_eleven (trace : MomentTrace cs t date separator clock offset body tail offsetText) :
    cs.drop 11 = body := by
  have hdrop : cs.drop 11 = (cs.drop 10).drop 1 := by rw [List.drop_drop]
  rw [hdrop, trace.drop_ten]
  rfl

/-- The places of the second begin behind nineteen characters. -/
theorem drop_nineteen (trace : MomentTrace cs t date separator clock offset body tail offsetText) :
    cs.drop 19 = tail := by
  have hdrop : cs.drop 19 = (cs.drop 11).drop 8 := by rw [List.drop_drop]
  rw [hdrop, trace.drop_eleven, trace.clocked.drop]

/-- The separator stands behind ten characters. -/
theorem separator_eq (trace : MomentTrace cs t date separator clock offset body tail offsetText) :
    cs[10]? = some separator := by
  rw [← List.head?_drop, trace.drop_ten]
  rfl

/-- The offset is found where it was read. -/
theorem offsetChars_eq (trace : MomentTrace cs t date separator clock offset body tail offsetText) :
    offsetChars cs = offsetText := by
  rw [offsetChars, trace.drop_nineteen, trace.placed]
  rfl

/-- Nineteen characters stand before the places of the second. -/
theorem length_eq (trace : MomentTrace cs t date separator clock offset body tail offsetText) :
    cs.length = 19 + tail.length := by
  obtain ⟨digits, hdigits, hcount, _⟩ := digits?_eq_some trace.clocked.second_digits
  have hbody : (body.drop 6).length = 2 + tail.length := by
    rw [hdigits, List.length_append, hcount]
  have hcs : (cs.drop 10).length = 1 + body.length := by
    rw [trace.drop_ten, List.length_cons, Nat.add_comm]
  rw [List.length_drop] at hbody hcs
  omega

/-- A sixtieth second is spelled by its two digits. -/
theorem take_second (trace : MomentTrace cs t date separator clock offset body tail offsetText)
    (h : clock.second = 60) : (cs.drop 17).take 2 = ['6', '0'] := by
  have hdrop : cs.drop 17 = (cs.drop 11).drop 6 := by rw [List.drop_drop]
  obtain ⟨digits, hdigits, hcount, hall, hspelled⟩ := digits?_eq_some trace.clocked.second_digits
  rw [hdrop, trace.drop_eleven, hdigits, List.take_append_of_le_length (Nat.le_of_eq hcount.symm),
    List.take_of_length_le (Nat.le_of_eq hcount)]
  match digits with
  | [tens, ones] =>
    obtain ⟨htens, hones⟩ : tens.isDigit = true ∧ ones.isDigit = true := by
      simpa only [List.all_cons, List.all_nil, Bool.and_true, Bool.and_eq_true] using hall
    have htensRange := toNat_of_isDigit htens
    have honesRange := toNat_of_isDigit hones
    have hsum : 10 * (10 * 0 + (tens.toNat - 48)) + (ones.toNat - 48) = 60 := hspelled.trans h
    have htensValue : tens.toNat = '6'.toNat := by
      have hsix : '6'.toNat = 54 := rfl
      omega
    have honesValue : ones.toNat = '0'.toNat := by
      have hzero : '0'.toNat = 48 := rfl
      omega
    rw [Char.toNat_inj.mp htensValue, Char.toNat_inj.mp honesValue]

/-- Without places there is no part of a second. -/
theorem fraction_eq_zero (trace : MomentTrace cs t date separator clock offset body tail offsetText)
    (h : cs.length = 19 + offsetText.length) : clock.fraction = 0 := by
  have hlength := trace.length_eq
  rcases readFraction?_eq_some trace.placed with ⟨digits, _, htail, _⟩ | ⟨_, hzero⟩
  · rw [htail, List.length_cons, List.length_append] at hlength
    omega
  · exact hzero

/-- Equally many places with the same offset behind them compare as the parts of a second. -/
theorem compare_tail (trace : MomentTrace cs t date separator clock offset body tail offsetText)
    (trace' : MomentTrace cs' t' date' separator' clock' offset' body' tail' offsetText)
    (hlength : cs.length = cs'.length) (hplaces : cs.length ≤ 29 + offsetText.length) :
    compare tail tail' = compare clock.fraction clock'.fraction := by
  have hcount := trace.length_eq
  have hcount' := trace'.length_eq
  rcases readFraction?_eq_some trace.placed with
    ⟨digits, hdigits, htail, hfraction⟩ | ⟨htail, hzero⟩
  · rw [htail, List.length_cons, List.length_append] at hcount
    rcases readFraction?_eq_some trace'.placed with
      ⟨digits', hdigits', htail', hfraction'⟩ | ⟨htail', _⟩
    · rw [htail', List.length_cons, List.length_append] at hcount'
      have hsame : digits.length = digits'.length := by omega
      rw [htail, htail', hfraction, hfraction', compare_cons_self, compare_append _ _ hsame,
        compare_chars_self, compare_fractionNanos hsame (by omega) hdigits hdigits']
      cases compare digits digits' <;> rfl
    · rw [htail'] at hcount'
      omega
  · rw [htail] at hcount
    rcases readFraction?_eq_some trace'.placed with ⟨digits', _, htail', _⟩ | ⟨htail', hzero'⟩
    · rw [htail', List.length_cons, List.length_append] at hcount'
      omega
    · rw [htail, htail', hzero, hzero', compare_chars_self, compare_eq_iff_eq.mpr rfl]

/-- Where one of two texts that are written alike has a sixtieth second, neither has a part of a
second. -/
theorem fractions_eq_zero
    (trace : MomentTrace cs t date separator clock offset body tail offsetText)
    (trace' : MomentTrace cs' t' date' separator' clock' offset' body' tail' offsetText)
    (h : WrittenAlike cs cs') (hsixty : clock.second = 60 ∨ clock'.second = 60) :
    clock.fraction = 0 ∧ clock'.fraction = 0 := by
  have hnone : cs.length = 19 + offsetText.length →
      clock.fraction = 0 ∧ clock'.fraction = 0 := fun hlength =>
    ⟨trace.fraction_eq_zero hlength, trace'.fraction_eq_zero (h.length ▸ hlength)⟩
  rcases hsixty with hsixty | hsixty
  · refine hnone ?_
    rw [h.left.leap (trace.take_second hsixty), trace.offsetChars_eq]
  · refine hnone ?_
    rw [h.length, h.right.leap (trace'.take_second hsixty), trace'.offsetChars_eq]

/-- The time of a clock lies within a day. -/
theorem nanos_within_day
    (trace : MomentTrace cs t date separator clock offset body tail offsetText) :
    (0 : Int) ≤ clock.nanos ∧ (clock.nanos : Int) < nanosPerDay := by
  have hless := Clock.nanos_lt trace.inRange
  unfold nanosPerDay
  omega

/-- Moments that are written alike compare as their texts. -/
theorem compare_eq (trace : MomentTrace cs t date separator clock offset body tail offsetText)
    (trace' : MomentTrace cs' t' date' separator' clock' offset' body' tail' offsetText')
    (h : WrittenAlike cs cs') : compare cs cs' = compare t.nanos t'.nanos := by
  obtain rfl : offsetText = offsetText' := by
    rw [← trace.offsetChars_eq, h.offset, trace'.offsetChars_eq]
  obtain rfl : separator = separator' := by
    have hsame := h.separator
    rw [trace.separator_eq, trace'.separator_eq] at hsame
    exact Option.some.inj hsame
  obtain rfl : offset = offset' :=
    Option.some.inj (trace.ended.symm.trans trace'.ended)
  have hplaces : cs.length ≤ 29 + offsetText.length := by
    have hbound := h.left.places
    rwa [trace.offsetChars_eq] at hbound
  have htext : compare cs cs' =
      (compare date.toDay date'.toDay).then (compare clock.nanos clock'.nanos) := by
    rw [compare_of_readDate? trace.dated trace'.dated, ← compare_toDay trace.valid trace'.valid,
      compare_cons_self, trace.clocked.compare trace'.clocked,
      trace.compare_tail trace' h.length hplaces,
      ← Clock.compare_nanos trace.inRange trace'.inRange (trace.fractions_eq_zero trace' h)]
  have hnanos : compare t.nanos t'.nanos =
      compare (date.toDay * nanosPerDay + clock.nanos)
        (date'.toDay * nanosPerDay + clock'.nanos) := by
    rw [trace.moment, trace'.moment, ofLocal, ofLocal, Int.sub_eq_add_neg, Int.sub_eq_add_neg,
      compare_add_right]
  rw [htext, hnanos, compare_places trace.nanos_within_day trace'.nanos_within_day,
    compare_natCast]

end MomentTrace

/-- A text without a sign in front that is read as a calendar date is nothing but a date. -/
theorem ofDateChars?_eq_some {cs : List Char} {t : Instant}
    (hunsigned : cs.head? ≠ some '-' ∧ cs.head? ≠ some '+') (h : ofDateChars? cs = some t) :
    ∃ date, readDate? cs = some (date, []) ∧ date.isValid = true ∧ t = ofLocal date.toDay 0 0 := by
  unfold ofDateChars? at h
  split at h
  case h_1 => exact absurd rfl hunsigned.1
  case h_2 => exact absurd rfl hunsigned.2
  case h_3 =>
    obtain ⟨⟨date, rest⟩, hdate, h⟩ := Option.bind_eq_some_iff.mp h
    simp only [hunsigned.1, if_false] at h
    by_cases hwrong : (!date.isValid) = true ∨ (!rest.isEmpty) = true
    · rw [if_pos hwrong] at h
      cases h
    · rw [if_neg hwrong] at h
      obtain ⟨hvalid, hempty⟩ : date.isValid = true ∧ rest = [] := by
        simpa [not_or] using hwrong
      exact ⟨date, hempty ▸ hdate, hvalid, (Option.some.inj h).symm⟩

/-- Calendar dates that are written without a sign compare as their texts. -/
theorem compare_of_ofDateChars? {cs cs' : List Char} {t t' : Instant}
    (hunsigned : cs.head? ≠ some '-' ∧ cs.head? ≠ some '+')
    (hunsigned' : cs'.head? ≠ some '-' ∧ cs'.head? ≠ some '+')
    (h : ofDateChars? cs = some t) (h' : ofDateChars? cs' = some t') :
    compare cs cs' = compare t.nanos t'.nanos := by
  obtain ⟨date, hdate, hvalid, rfl⟩ := ofDateChars?_eq_some hunsigned h
  obtain ⟨date', hdate', hvalid', rfl⟩ := ofDateChars?_eq_some hunsigned' h'
  have hzero : (0 : Int) ≤ 0 ∧ (0 : Int) < nanosPerDay := by decide
  rw [compare_of_readDate? hdate hdate', ← compare_toDay hvalid hvalid', ofLocal, ofLocal,
    Int.sub_eq_add_neg, Int.sub_eq_add_neg, compare_add_right, compare_places hzero hzero,
    compare_chars_self, compare_eq_iff_eq.mpr rfl]

/-- A text with a separator behind the date is no calendar date, and without one no moment. -/
theorem isSome_separator_of_ofText? {cs : List Char} {t : Instant} (hplain : PlainlyWritten cs) :
    (ofRfc3339Chars? cs = some t → cs[10]?.isSome = true) ∧
      (ofDateChars? cs = some t → cs[10]?.isSome = false) := by
  constructor
  · intro h
    obtain ⟨_, _, _, _, _, _, _, trace⟩ := exists_trace_of_moment h
    rw [trace.separator_eq]
    rfl
  · intro h
    obtain ⟨date, hdate, _, _⟩ := ofDateChars?_eq_some hplain.unsigned h
    rw [← List.head?_drop, drop_of_readDate? hdate]
    rfl

/-- A plainly written text is read as a moment or as a calendar date. -/
theorem ofText?_cases {text : String} {t : Instant} (hplain : PlainlyWritten text.toList)
    (h : ofText? text = some t) :
    ofRfc3339Chars? text.toList = some t ∨ ofDateChars? text.toList = some t := by
  unfold ofText? at h
  rw [hplain.trimmed] at h
  cases hread : ofRfc3339Chars? text.toList with
  | some found =>
    simp only [hread] at h
    exact .inl h
  | none =>
    simp only [hread] at h
    exact .inr h

/-- Texts of moments that are written alike compare as the moments do. -/
theorem compare_of_writtenAlike {first second : String} {s t : Instant}
    (hfirst : ofText? first = some s) (hsecond : ofText? second = some t)
    (h : WrittenAlike first.toList second.toList) :
    compare first second = compare s.nanos t.nanos := by
  rw [Text.compare_eq_compare_toList]
  obtain ⟨hmoment, hdate⟩ := isSome_separator_of_ofText? (t := s) h.left
  obtain ⟨hmoment', hdate'⟩ := isSome_separator_of_ofText? (t := t) h.right
  rw [← h.separator] at hmoment' hdate'
  rcases ofText?_cases h.left hfirst with hread | hread
  · rcases ofText?_cases h.right hsecond with hread' | hread'
    · obtain ⟨_, _, _, _, _, _, _, trace⟩ := exists_trace_of_moment hread
      obtain ⟨_, _, _, _, _, _, _, trace'⟩ := exists_trace_of_moment hread'
      exact trace.compare_eq trace' h
    · cases (hmoment hread).symm.trans (hdate' hread')
  · rcases ofText?_cases h.right hsecond with hread' | hread'
    · cases (hmoment' hread').symm.trans (hdate hread)
    · exact compare_of_ofDateChars? h.left.unsigned h.right.unsigned hread hread'

end EntityQuery.Instant
