import EntityQuery.Proofs.Remote.Containment
import EntityQuery.Proofs.Text.Words

/-!
# Written dates read back

The reader of dates tries two forms, one after the other. No text has both forms, because a
moment goes on behind its date and a calendar date does not, so the order of the attempts does
not matter. What is written has one of the two forms and no blank in it, and is found again
whatever blanks stand around it.
-/

namespace EntityQuery

namespace Instant

open Calendar

/-- A text that begins with a year has no sign in front. -/
theorem unsigned_of_readDate? {cs rest : List Char} {date : Date}
    (h : readDate? cs = some (date, rest)) : cs.head? ≠ some '-' ∧ cs.head? ≠ some '+' := by
  obtain ⟨_, _, _, _, _, _, _, _, hyear, _⟩ := readDate?_eq_some h
  obtain ⟨digits, hcs, hlength, hdigits, _⟩ := digits?_eq_some hyear
  obtain ⟨first, others, rfl⟩ : ∃ first others, digits = first :: others :=
    List.exists_cons_of_length_eq_add_one hlength
  have hfirst : first.isDigit = true := List.all_eq_true.mp hdigits first List.mem_cons_self
  rw [hcs, List.cons_append, List.head?_cons]
  constructor
  · rintro ⟨⟩
    cases hfirst
  · rintro ⟨⟩
    cases hfirst

/-- A text that is read as a moment is no calendar date: it goes on behind its date. -/
theorem ofDateChars?_eq_none {cs : List Char} {t : Instant} (h : ofRfc3339Chars? cs = some t) :
    ofDateChars? cs = none := by
  obtain ⟨_, separator, _, _, body, _, _, trace⟩ := exists_trace_of_moment h
  rw [Option.eq_none_iff_forall_ne_some]
  intro s hs
  obtain ⟨date, hdate, _⟩ := ofDateChars?_eq_some (unsigned_of_readDate? trace.dated) hs
  cases trace.dated.symm.trans hdate

/-- A text that is read as a calendar date is no moment. -/
theorem ofRfc3339Chars?_eq_none {cs : List Char} {t : Instant} (h : ofDateChars? cs = some t) :
    ofRfc3339Chars? cs = none := by
  cases hmoment : ofRfc3339Chars? cs with
  | none => rfl
  | some s => cases h.symm.trans (ofDateChars?_eq_none hmoment)

/-- The order in which the two forms are tried does not matter. -/
theorem ofText?_eq_some_iff {text : String} {t : Instant} :
    ofText? text = some t ↔ ofRfc3339Chars? (Text.trimChars text.toList) = some t ∨
      ofDateChars? (Text.trimChars text.toList) = some t := by
  cases hmoment : ofRfc3339Chars? (Text.trimChars text.toList) with
  | none => simp [ofText?, hmoment]
  | some s => simp [ofText?, hmoment, ofDateChars?_eq_none hmoment]

/-- A text that is nothing but a date of the calendar is read as midnight in UTC. -/
theorem ofDateChars?_of_readDate? {cs : List Char} {date : Date}
    (h : readDate? cs = some (date, [])) (hvalid : date.isValid = true) :
    ofDateChars? cs = some (ofLocal date.toDay 0 0) := by
  obtain ⟨hminus, hplus⟩ := unsigned_of_readDate? h
  unfold ofDateChars?
  split
  case h_1 => exact absurd rfl hminus
  case h_2 => exact absurd rfl hplus
  case h_3 => simp [h, hminus, hvalid]

/-- The date of an instant is read from its text if its year has four digits. -/
theorem ofDateChars?_dateText {t : Instant} (hyear : 0 ≤ t.date.year ∧ t.date.year ≤ 9999) :
    ofDateChars? (dateText t.date) = some (ofLocal t.localDay 0 0) := by
  have hvalid : t.date.isValid = true := isValid_dateOfDay t.localDay
  have hnumber : t.date.toDay = t.localDay := toDay_dateOfDay t.localDay
  obtain ⟨⟨_, hmonth⟩, _, hday⟩ := Date.isValid_iff.mp hvalid
  have hlength := monthLength_le t.date.year t.date.month
  have hread := readDate?_dateText hyear (show t.date.month < 100 by omega)
    (show t.date.day < 100 by omega) []
  rw [List.append_nil] at hread
  rw [ofDateChars?_of_readDate? hread hvalid, hnumber]

/-- Midnight in UTC of a day shows the date of the day, and no time has passed. -/
theorem shows_midnight (day : Int) :
    (ofLocal day 0 0).date = dateOfDay day ∧ (ofLocal day 0 0).timeOfDay = 0 := by
  have hlocal : (ofLocal day 0 0).localNanos = day * nanosPerDay := by
    simp [ofLocal, localNanos]
  constructor
  · rw [date, localDay, hlocal, Int.mul_ediv_cancel _ (by decide)]
  · rw [timeOfDay, hlocal, Int.mul_emod_left]
    rfl

/-- The written form of an instant is one word. -/
theorem isSingleWord_text {t : Instant} (h : t.isExpressible = true) :
    Text.IsSingleWord t.text where
  nonempty := by simpa using (Remote.isWord_text_of_isExpressible h).nonempty
  solid c hc := Remote.isBlank_of_isPlain ((Remote.isWord_text_of_isExpressible h).plain c hc)

/-- So is the text of a calendar date. -/
theorem isSingleWord_dateOnlyText (t : Instant) : Text.IsSingleWord t.dateOnlyText where
  nonempty := by simp [dateOnlyText, dateText]
  solid c hc := by
    rw [dateOnlyText, String.toList_ofList] at hc
    exact Remote.isBlank_of_isPlain (Remote.isPlain_of_mem_dateText t.date c hc)

end Instant

namespace DateStyle

open Instant

/-- The standard choice reads a text as an instant or as a calendar date. -/
theorem read?_string (text : String) : standard.read? (.string text) = ofText? text := by
  simp only [standard, readStandard?]

/-- What the standard choice writes for an instant with a year of four digits and an offset of
whole minutes within a day is read back, whatever blanks stand around it: the whole form as the
instant, with its offset, and never as a calendar date; the date alone as midnight in UTC of the
date that the clock of the instant shows, and never as a moment. -/
theorem written_dates_read_back {t : Instant} (hyear : 0 ≤ t.date.year ∧ t.date.year ≤ 9999)
    (hoffset : t.offset % 60 = 0 ∧ t.offset.natAbs ≤ 23 * 3600 + 59 * 60)
    {before after : String} (hbefore : Text.isBlankText before = true)
    (hafter : Text.isBlankText after = true) :
    let whole := before ++ standard.write t false ++ after
    let dateOnly := before ++ standard.write t true ++ after
    standard.read? (.string whole) = some t ∧
      ofDateChars? (Text.trimChars whole.toList) = none ∧
      (∃ midnight, standard.read? (.string dateOnly) = some midnight ∧ midnight.date = t.date ∧
        midnight.timeOfDay = 0 ∧ midnight.offset = 0) ∧
      ofRfc3339Chars? (Text.trimChars dateOnly.toList) = none := by
  intro whole dateOnly
  have hexpressible : t.isExpressible = true := by
    simp only [isExpressible, Bool.and_eq_true, decide_eq_true_eq]
    omega
  have hmoment : ofRfc3339Chars? t.text.toList = some t := ofRfc3339?_rfc3339? (by
    simp [text, rfc3339?, hexpressible])
  have hdate : ofDateChars? t.dateOnlyText.toList = some (ofLocal t.localDay 0 0) := by
    rw [dateOnlyText, String.toList_ofList, ofDateChars?_dateText hyear]
  have hword := isSingleWord_text hexpressible
  have hdateWord := isSingleWord_dateOnlyText t
  have hwhole : Text.trimChars whole.toList = t.text.toList :=
    Text.trimChars_of_isSingleWord hword hbefore hafter
  have hdateOnly : Text.trimChars dateOnly.toList = t.dateOnlyText.toList :=
    Text.trimChars_of_isSingleWord hdateWord hbefore hafter
  obtain ⟨hshown, hnone⟩ := shows_midnight t.localDay
  refine ⟨?_, ?_, ⟨ofLocal t.localDay 0 0, ?_, hshown, hnone, rfl⟩, ?_⟩
  · rw [read?_string, ofText?_eq_some_iff, hwhole]
    exact .inl hmoment
  · rw [hwhole, ofDateChars?_eq_none hmoment]
  · rw [read?_string, ofText?_eq_some_iff, hdateOnly]
    exact .inr hdate
  · rw [hdateOnly, ofRfc3339Chars?_eq_none hdate]

/-- On a clock behind UTC a leap day ends while March has begun in UTC. Its last second is written
with two places, and blanks of three kinds stand around both texts. -/
theorem written_dates_read_back_leap_day :
    let t : Instant := ⟨1583040599120000000, -19800⟩
    standard.write t false = "2020-02-29T23:59:59.12-05:30" ∧
      standard.write t true = "2020-02-29" ∧
      standard.read? (.string " \t2020-02-29T23:59:59.12-05:30\u00a0") = some t ∧
      ∃ midnight, standard.read? (.string " \t2020-02-29\u00a0") = some midnight ∧
        midnight.date = ⟨2020, 2, 29⟩ ∧ midnight.timeOfDay = 0 ∧ midnight.offset = 0 := by
  intro t
  have hwhole : standard.write t false = "2020-02-29T23:59:59.12-05:30" := by decide +kernel
  have hdateOnly : standard.write t true = "2020-02-29" := by decide +kernel
  have hdate : t.date = ⟨2020, 2, 29⟩ := by decide
  obtain ⟨hread, _, ⟨midnight, hmidnight, hshown, hnone⟩, _⟩ :=
    written_dates_read_back (t := t) (by decide) (by decide)
      (show Text.isBlankText " \t" = true by decide)
      (show Text.isBlankText "\u00a0" = true by decide)
  have hwholeText : " \t" ++ standard.write t false ++ "\u00a0" =
      " \t2020-02-29T23:59:59.12-05:30\u00a0" := by rw [hwhole]; decide
  have hdateText : " \t" ++ standard.write t true ++ "\u00a0" = " \t2020-02-29\u00a0" := by
    rw [hdateOnly]; decide
  rw [hwholeText] at hread
  rw [hdateText] at hmidnight
  exact ⟨hwhole, hdateOnly, hread, midnight, hmidnight, hshown.trans hdate, hnone⟩

end DateStyle

end EntityQuery
