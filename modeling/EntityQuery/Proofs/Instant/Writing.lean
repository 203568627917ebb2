import EntityQuery.Proofs.Decimal.Reading
import EntityQuery.Proofs.Instant.Days
import EntityQuery.Proofs.Instant.Spelling
import Mathlib.Data.List.DropRight

/-!
# Written moments read back

Every part of a written moment has a fixed width or ends before a character that is no digit. So
each reader, put in front of what the writer of its part wrote and whatever follows, finds what
was written and leaves what follows. A moment that has a written form is therefore read back from
it, with its offset.
-/

namespace EntityQuery.Instant

open Calendar

/-- A padded number is written in digits. -/
theorem isDigit_of_mem_padded {width n : Nat} {c : Char} (h : c ∈ padded width n) :
    c.isDigit = true := by
  rcases List.mem_append.mp h with hzero | hdigit
  · rw [List.eq_of_mem_replicate hzero]
    decide
  · exact Nat.isDigit_of_mem_toDigits (by decide) (by decide) hdigit

/-- So are the places of a part of a second. -/
theorem isDigit_of_mem_placesText {n : Nat} {c : Char} (h : c ∈ placesText n) :
    c.isDigit = true := by
  have hmem := List.mem_reverse.mp h
  exact isDigit_of_mem_padded (List.mem_reverse.mp ((List.dropWhile_sublist _).subset hmem))

/-- A number that has room in a width is written in that width. -/
theorem length_padded {width n : Nat} (hwidth : 0 < width) (h : n < 10 ^ width) :
    (padded width n).length = width := by
  have hlength : (Nat.toDigits 10 n).length ≤ width :=
    (Nat.length_toDigits_le_iff (by decide) hwidth).mpr h
  rw [padded, List.length_append, List.length_replicate]
  omega

/-- A padded number spells itself. -/
theorem spelledFrom_padded (width n : Nat) : spelledFrom 0 (padded width n) = n :=
  (Decimal.spelled_zeros_append _ _).trans (Decimal.spelled_digitsOf n)

/-- A number that has room in a width is read back in front of anything. -/
theorem digits?_padded {width n : Nat} (hwidth : 0 < width) (h : n < 10 ^ width)
    (rest : List Char) : digits? width (padded width n ++ rest) = some (n, rest) := by
  have hlength := length_padded hwidth h
  have htake : (padded width n ++ rest).take width = padded width n := List.take_left' hlength
  have hdigits : (padded width n).all Char.isDigit = true :=
    List.all_eq_true.mpr fun _ hc => isDigit_of_mem_padded hc
  rw [digits?, htake, if_pos ⟨hlength, hdigits⟩, spelledFrom_padded, List.drop_left' hlength]

/-- A given character is read in front of anything. -/
theorem expect?_cons (c : Char) (cs : List Char) : expect? c (c :: cs) = some cs := if_pos rfl

/-- A date with a year of four digits is read back in front of anything. -/
theorem readDate?_dateText {date : Date} (hyear : 0 ≤ date.year ∧ date.year ≤ 9999)
    (hmonth : date.month < 100) (hday : date.day < 100) (rest : List Char) :
    readDate? (dateText date ++ rest) = some (date, rest) := by
  have htext : dateText date ++ rest = padded 4 date.year.natAbs ++
      ('-' :: (padded 2 date.month ++ ('-' :: (padded 2 date.day ++ rest)))) := by
    rw [dateText, yearText, if_neg (Int.not_lt.mpr hyear.1)]
    simp only [List.append_assoc, List.cons_append]
  have hsame : (date.year.natAbs : Int) = date.year := Int.natAbs_of_nonneg hyear.1
  have hyearDigits := fun rest => digits?_padded (show 0 < 4 by decide)
    (show date.year.natAbs < 10 ^ 4 by omega) rest
  have hmonthDigits := fun rest => digits?_padded (show 0 < 2 by decide) hmonth rest
  have hdayDigits := digits?_padded (show 0 < 2 by decide) hday rest
  simp only [htext, readDate?, hyearDigits, hmonthDigits, hdayDigits, expect?_cons,
    Option.bind_eq_bind, Option.bind_some, hsame]
  rfl

/-- What is read as a clock is what is written for it. -/
theorem readsClock_text {clock : Clock} (h : clock.InRange) (rest : List Char) :
    ReadsClock (padded 2 clock.hour ++ (':' :: (padded 2 clock.minute ++
      (':' :: (padded 2 clock.second ++ rest))))) clock rest := by
  obtain ⟨hhour, hminute, hsecond, _⟩ := h
  exact ⟨_, _, _, _, digits?_padded (by decide) (by omega) _, expect?_cons _ _,
    digits?_padded (by decide) (by omega) _, expect?_cons _ _,
    digits?_padded (by decide) (by omega) _⟩

/-- The places of a part of a second are all nine places but the zeros at their end. -/
theorem placesText_append_zeros {n : Nat} (h : n < 1000000000) :
    ∃ count, placesText n ++ List.replicate count '0' = padded 9 n ∧
      (placesText n).length + count = 9 := by
  have hall : placesText n ++ (padded 9 n).rtakeWhile (· == '0') = padded 9 n :=
    List.rdropWhile_append_rtakeWhile
  have hzeros : (padded 9 n).rtakeWhile (· == '0') =
      List.replicate ((padded 9 n).rtakeWhile (· == '0')).length '0' :=
    List.eq_replicate_iff.mpr ⟨rfl, fun c hc => by
      have hzero := List.mem_rtakeWhile_imp hc
      exact beq_iff_eq.mp hzero⟩
  refine ⟨((padded 9 n).rtakeWhile (· == '0')).length, ?_, ?_⟩
  · rw [← hzeros, hall]
  · rw [← List.length_append, hall, length_padded (by decide) h]

/-- A part of a second is what its places spell. -/
theorem fractionNanos_placesText {n : Nat} (h : n < 1000000000) :
    fractionNanos (placesText n) = n := by
  obtain ⟨count, hall, hlength⟩ := placesText_append_zeros h
  have hcount : 9 - (placesText n).length = count := by omega
  rw [fractionNanos_eq (by omega), hcount, hall, spelledFrom_padded]

/-- A part of a second that is not nothing has places. -/
theorem placesText_ne_nil {n : Nat} (hpos : n ≠ 0) (h : n < 1000000000) : placesText n ≠ [] := by
  intro hnil
  have hzero := fractionNanos_placesText h
  rw [hnil] at hzero
  exact hpos hzero.symm

/-- The part of a second is read back in front of what does not go on with it. -/
theorem readFraction?_places {n : Nat} (h : n < 1000000000) {c : Char} {rest : List Char}
    (hdigit : c.isDigit = false) (hpoint : c ≠ '.') :
    readFraction? ((if n = 0 then [] else '.' :: placesText n) ++ c :: rest) =
      some (n, c :: rest) := by
  by_cases hzero : n = 0
  · rw [if_pos hzero, List.nil_append, readFraction?, hzero]
    rintro cs hcs
    exact hpoint (List.cons.inj hcs).1
  · have hall : ∀ d ∈ placesText n, d.isDigit = true := fun _ hd => isDigit_of_mem_placesText hd
    have htake : (placesText n ++ c :: rest).takeWhile Char.isDigit = placesText n := by
      rw [List.takeWhile_append_of_pos hall, List.takeWhile_cons_of_neg (by simp [hdigit]),
        List.append_nil]
    have hdrop : (placesText n ++ c :: rest).dropWhile Char.isDigit = c :: rest := by
      rw [List.dropWhile_append_of_pos hall, List.dropWhile_cons_of_neg (by simp [hdigit])]
    have hsome : (placesText n).isEmpty = false := by simp [placesText_ne_nil hzero h]
    simp only [if_neg hzero, List.cons_append, readFraction?, htake, hdrop, hsome,
      fractionNanos_placesText h, Bool.false_eq_true, if_false]

/-- Hours and minutes behind a sign are read as an offset. -/
theorem readOffset?_minutes {c : Char} (hsign : c = '+' ∨ c = '-') {hours minutes : Nat}
    (hhours : hours ≤ 23) (hminutes : minutes ≤ 59) :
    readOffset? (c :: (padded 2 hours ++ (':' :: padded 2 minutes))) =
      some (if c = '-' then -((3600 * hours + 60 * minutes : Nat) : Int)
        else ((3600 * hours + 60 * minutes : Nat) : Int)) := by
  have hhourDigits := digits?_padded (show 0 < 2 by decide) (show hours < 10 ^ 2 by omega)
    (':' :: padded 2 minutes)
  have hminuteDigits := digits?_padded (show 0 < 2 by decide) (show minutes < 10 ^ 2 by omega) []
  rw [List.append_nil] at hminuteDigits
  have hrange : ¬(23 < hours ∨ 59 < minutes ∨ (!([] : List Char).isEmpty) = true) := by
    simp only [List.isEmpty_nil, Bool.not_true, Bool.false_eq_true, or_false]
    omega
  have hreads : ∀ rest, readOffset? (c :: rest) =
      (digits? 2 rest).bind fun hour => (expect? ':' hour.2).bind fun afterHour =>
        (digits? 2 afterHour).bind fun minute =>
          if 23 < hour.1 ∨ 59 < minute.1 ∨ (!minute.2.isEmpty) = true then none
          else some (if c = '-' then -((3600 * hour.1 + 60 * minute.1 : Nat) : Int)
            else ((3600 * hour.1 + 60 * minute.1 : Nat) : Int)) := by
    rcases hsign with rfl | rfl
    · exact fun _ => rfl
    · exact fun _ => rfl
  simp only [hreads, hhourDigits, expect?_cons, hminuteDigits, Option.bind_some, if_neg hrange]

/-- An offset of whole minutes within a day is read back. -/
theorem readOffset?_offsetText {offset : Int} (hday : offset.natAbs < 86400)
    (hminutes : offset % 60 = 0) : readOffset? (offsetText offset) = some offset := by
  by_cases hzero : offset = 0
  · rw [hzero]
    rfl
  · have htext : offsetText offset = offsetSign offset ::
        (padded 2 (offset.natAbs / 60 / 60) ++ (':' :: padded 2 (offset.natAbs / 60 % 60))) := by
      simp only [offsetText, if_neg hzero, List.cons_append]
    have hsign : offsetSign offset = '+' ∨ offsetSign offset = '-' := by
      unfold offsetSign
      split_ifs
      · exact .inr rfl
      · exact .inl rfl
    rw [htext, readOffset?_minutes hsign (by omega) (by omega)]
    unfold offsetSign
    split_ifs with hnegative hplus hplus
    · congr 1
      omega
    · exact absurd rfl hplus
    · exact absurd hplus (by decide)
    · congr 1
      omega

/-- A written offset does not go on with a part of a second. -/
theorem exists_offsetText_eq_cons (offset : Int) :
    ∃ c rest, offsetText offset = c :: rest ∧ c.isDigit = false ∧ c ≠ '.' := by
  unfold offsetText
  split_ifs
  · exact ⟨'Z', [], rfl, rfl, by decide⟩
  · unfold offsetSign
    split_ifs
    · exact ⟨'-', _, rfl, rfl, by decide⟩
    · exact ⟨'+', _, rfl, rfl, by decide⟩

/-- Reading a moment succeeds when each of its parts is read, if its separator is an ASCII
character and it shows no leap second. -/
theorem MomentTrace.reads {cs body tail offsetText : List Char} {t : Instant} {date : Date}
    {separator : Char} {clock : Clock} {offset : Int}
    (trace : MomentTrace cs t date separator clock offset body tail offsetText)
    (hascii : separator.toNat < 128) (hsecond : clock.second ≤ 59) :
    ofRfc3339Chars? cs = some t := by
  obtain ⟨afterHour, hourEnd, afterMinute, minuteEnd, hhour, hhourEnd, hminute, hminuteEnd,
    hseconds⟩ := trace.clocked
  obtain ⟨hhours, hminutes, _, _⟩ := trace.inRange
  have hvalid := trace.valid
  have hrange : ¬((!date.isValid) = true ∨ 23 < clock.hour ∨ 59 < clock.minute ∨
      60 < clock.second) := by
    rw [hvalid]
    simp only [Bool.not_true, Bool.false_eq_true, false_or]
    omega
  have hleap : clock.second ≠ 60 := by omega
  rw [ofRfc3339Chars?, trace.dated, trace.moment, Clock.nanos]
  simp only [Option.bind_eq_bind, Option.bind_some, List.head?_cons, List.drop_succ_cons,
    List.drop_zero, if_neg (Nat.not_le.mpr hascii), hhour, hhourEnd, hminute, hminuteEnd, hseconds,
    trace.placed, trace.ended, if_neg hrange, hleap, false_and, if_false]
  rfl

/-- What the clock of an instant shows. -/
def clock (t : Instant) : Clock := ⟨t.hour, t.minute, t.second, t.nanosecond⟩

theorem timeOfDay_lt (t : Instant) : t.timeOfDay < 86400000000000 := by
  have hlow := Int.emod_nonneg t.localNanos (show nanosPerDay ≠ 0 by decide)
  have hhigh := Int.emod_lt_of_pos t.localNanos (show (0 : Int) < nanosPerDay by decide)
  simp only [nanosPerDay] at hlow hhigh
  simp only [timeOfDay, nanosPerDay]
  omega

/-- A clock shows no leap second. -/
theorem clock_inRange (t : Instant) : t.clock.InRange ∧ t.clock.second ≤ 59 := by
  have hday := timeOfDay_lt t
  simp only [Clock.InRange, clock, hour, minute, second, nanosecond]
  omega

/-- What a clock shows is the time of day. -/
theorem nanos_clock (t : Instant) : t.clock.nanos = t.timeOfDay := by
  have hsecond := (clock_inRange t).2
  have hleap : t.clock.second ≠ 60 := by omega
  rw [Clock.nanos, if_neg hleap, Nat.min_eq_left hsecond]
  simp only [clock, hour, minute, second, nanosecond]
  omega

/-- An instant is the one at which its clock shows its day and its time of day. -/
theorem ofLocal_eq (t : Instant) : ofLocal t.localDay (t.timeOfDay : Nat) t.offset = t := by
  have hlow := Int.emod_nonneg t.localNanos (show nanosPerDay ≠ 0 by decide)
  have hsplit := Int.ediv_mul_add_emod t.localNanos nanosPerDay
  have hnanos : t.localDay * nanosPerDay + (t.timeOfDay : Nat) - t.offset * nanosPerSecond =
      t.nanos := by
    rw [localDay, timeOfDay, Int.toNat_of_nonneg hlow, hsplit, localNanos, Int.add_sub_cancel]
  rw [ofLocal, hnanos]

/-- An instant is read back from its written form, with its offset. The offset begins with a letter
or a sign, so the places of the second end before it. -/
theorem ofRfc3339?_rfc3339? {t : Instant} {text : String} (h : t.rfc3339? = some text) :
    ofRfc3339? text = some t := by
  obtain ⟨hexpressible, htext⟩ := Option.ite_none_right_eq_some.mp h
  obtain ⟨⟨⟨hfirst, hlast⟩, hday⟩, hminutes⟩ : ((0 ≤ t.date.year ∧ t.date.year ≤ 9999) ∧
      t.offset.natAbs < 86400) ∧ t.offset % 60 = 0 := by
    simpa [isExpressible] using hexpressible
  have hvalid : t.date.isValid = true := isValid_dateOfDay t.localDay
  have hnumber : t.date.toDay = t.localDay := toDay_dateOfDay t.localDay
  obtain ⟨⟨hmonth, htwelve⟩, hfirstDay, hlastDay⟩ := Date.isValid_iff.mp hvalid
  have hlength := monthLength_le t.date.year t.date.month
  obtain ⟨hrange, hsecond⟩ := clock_inRange t
  obtain ⟨c, rest, hoffset, hdigit, hpoint⟩ := exists_offsetText_eq_cons t.offset
  let tail := (if t.nanosecond = 0 then [] else '.' :: placesText t.nanosecond) ++
    offsetText t.offset
  let body := padded 2 t.hour ++
    (':' :: (padded 2 t.minute ++ (':' :: (padded 2 t.second ++ tail))))
  have hchars : text.toList = dateText t.date ++ ('T' :: body) := by
    rw [← Option.some.inj htext, String.toList_ofList, clockText]
    simp only [body, tail, List.append_assoc, List.cons_append]
  have hplaces : readFraction? tail = some (t.clock.fraction, offsetText t.offset) := by
    simp only [tail, hoffset]
    exact readFraction?_places hrange.2.2.2 hdigit hpoint
  have hmoment : t = ofLocal t.date.toDay (t.clock.nanos : Nat) t.offset := by
    rw [hnumber, nanos_clock, ofLocal_eq]
  have hdated : readDate? text.toList = some (t.date, 'T' :: body) := by
    rw [hchars]
    exact readDate?_dateText ⟨hfirst, hlast⟩ (by omega) (by omega) _
  have trace : MomentTrace text.toList t t.date 'T' t.clock t.offset body tail
      (offsetText t.offset) :=
    ⟨hdated, readsClock_text hrange tail, hplaces, readOffset?_offsetText hday hminutes, hvalid,
      hrange, hmoment⟩
  exact trace.reads (by decide) hsecond

end EntityQuery.Instant
