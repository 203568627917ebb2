import EntityQuery.Proofs.Rows.DateTests

/-!
# Other spellings of a date

One moment can be written with many offsets, and on another clock it may belong to another day. A
comparison of moments does not notice the spelling of its sides. A comparison of calendar dates
takes each side by its own clock, so it does not notice a spelling on the same day, and it tells
two spellings of one moment apart if they are on different days.
-/

namespace EntityQuery

/-- One operand in place of another: the same, or a value for a value. -/
def Operand.Replaces (after before : Operand) : Prop :=
  after = before ∨ ∃ value other, before = .literal value ∧ after = .literal other

namespace Rows

namespace Reading

variable {style : DateStyle} {reading : Reading} {op : Comparison}
  {before after beside left right : Value}

/-- What counts of an instant: its calendar date by its own clock, or the moment. -/
def measure (reading : Reading) (t : Instant) : Int :=
  if reading = days then t.localDay else t.nanos

/-- Instants compare by what counts of them. -/
theorem compareInstants_eq_compare (reading : Reading) (s t : Instant) :
    reading.compareInstants s t = compare (reading.measure s) (reading.measure t) := by
  rw [compareInstants, measure, measure]
  split <;> rfl

/-- Two values denote instants of which the same counts. -/
def DenoteAlike (style : DateStyle) (reading : Reading) (before after : Value) : Prop :=
  before.isNull = false ∧ after.isNull = false ∧
    ∃ s t, style.read? before = some s ∧ style.read? after = some t ∧
      reading.measure s = reading.measure t

/-- A value is written in another way beside a third one, or not at all. It goes on denoting what
it denoted, and the third one is a date as well, or of another kind than both. -/
def Respelled (style : DateStyle) (reading : Reading) (before after beside : Value) : Prop :=
  after = before ∨
    DenoteAlike style reading before after ∧
      (style.read? beside ≠ none ∨
        before.kindRank ≠ beside.kindRank ∧ after.kindRank ≠ beside.kindRank)

/-- Instants may be written in any way beside anything. -/
theorem respelled_instants (hstyle : style.ReadsInstants) {s t : Instant}
    (h : reading.measure s = reading.measure t) (beside : Value) :
    Respelled style reading (.instant s) (.instant t) beside := by
  refine .inr ⟨⟨rfl, rfl, s, t, hstyle s, hstyle t, h⟩, ?_⟩
  cases hbeside : beside.isInstant with
  | true => exact .inl (read?_ne_none_of_isInstant hstyle hbeside)
  | false =>
    have hkind : ∀ u, (Value.instant u).kindRank ≠ beside.kindRank := by
      intro u hsame
      exact Bool.false_ne_true (hbeside.symm.trans (isInstant_of_kindRank_eq hsame rfl))
    exact .inr ⟨hkind s, hkind t⟩

/-- Values of different kinds, of which one is null or no date, do not compare. -/
theorem compare?_eq_none (hkinds : left.kindRank ≠ right.kindRank)
    (h : right.isNull = true ∨ style.read? right = none) :
    reading.compare? style left right = none := by
  have hplain : reading.compare? style left right = left.compare? right := by
    rcases h with hnull | hnone
    · have hnone : reading.instants? style left right = none := by simp [instants?, hnull]
      rw [compare?, hnone]
    · exact compare?_of_no_instant (.inr hnone)
  rw [hplain]
  by_contra hsome
  obtain ⟨ordering, hordering⟩ := Option.ne_none_iff_exists'.mp hsome
  exact hkinds (Value.kindRank_eq_of_compare? hordering)

/-- In a comparison of dates nothing changes if its left side is written in another way. -/
theorem compare?_of_respelled (hreading : reading ≠ values)
    (h : Respelled style reading before after beside) :
    reading.compare? style after beside = reading.compare? style before beside := by
  rcases h with rfl | ⟨⟨hbefore, hafter, s, t, hs, ht, hmeasure⟩, hbeside⟩
  · rfl
  by_cases hplain : beside.isNull = true ∨ style.read? beside = none
  · obtain ⟨hkind, hkind'⟩ : before.kindRank ≠ beside.kindRank ∧
        after.kindRank ≠ beside.kindRank := by
      rcases hplain with hnull | hnone
      · exact ⟨Value.kindRank_ne_of_isNull hbefore hnull, Value.kindRank_ne_of_isNull hafter hnull⟩
      · exact hbeside.resolve_left (not_not.mpr hnone)
    rw [compare?_eq_none hkind hplain, compare?_eq_none hkind' hplain]
  · obtain ⟨hnull, hsome⟩ := not_or.mp hplain
    obtain ⟨u, hu⟩ := Option.ne_none_iff_exists'.mp hsome
    rw [Bool.not_eq_true] at hnull
    rw [compare?_of_instants (takesInstants_of_ne_values hreading _ _) hafter hnull ht hu,
      compare?_of_instants (takesInstants_of_ne_values hreading _ _) hbefore hnull hs hu,
      compareInstants_eq_compare, compareInstants_eq_compare, hmeasure]

/-- Exchanging two sides exchanges how they compare. -/
theorem compare?_swap (style : DateStyle) (reading : Reading) (left right : Value) :
    reading.compare? style right left =
      (reading.compare? style left right).map Ordering.swap := by
  have htakes : reading.takesInstants right left = reading.takesInstants left right := by
    simp only [takesInstants, Bool.or_assoc, Bool.or_comm right.asInstant?.isSome]
  have hinstants : reading.instants? style right left =
      (reading.instants? style left right).map fun pair => (pair.2, pair.1) := by
    unfold instants?
    rw [htakes, Bool.and_right_comm]
    split
    · cases style.read? left <;> cases style.read? right <;> rfl
    · rfl
  rw [compare?, compare?, hinstants]
  cases reading.instants? style left right with
  | none => exact Value.compare?_swap left right
  | some pair =>
    obtain ⟨s, t⟩ := pair
    simp only [Option.map_some, compareInstants_eq_compare]
    exact congrArg some Std.OrientedOrd.eq_swap

/-- In a comparison of dates nothing changes if its left side is written in another way, and then
its right side. -/
theorem holds_of_respelled (hreading : reading ≠ values) {left' right' : Value}
    (hleft : Respelled style reading left left' right)
    (hright : Respelled style reading right right' left') (op : Comparison) :
    reading.holds style left' op right' = reading.holds style left op right := by
  have hcompare : reading.compare? style left' right' = reading.compare? style left right :=
    calc reading.compare? style left' right'
        = (reading.compare? style right' left').map Ordering.swap := compare?_swap ..
      _ = (reading.compare? style right left').map Ordering.swap := by
        rw [compare?_of_respelled hreading hright]
      _ = reading.compare? style left' right := (compare?_swap ..).symm
      _ = reading.compare? style left right := compare?_of_respelled hreading hleft
  rw [holds, holds, hcompare]

/-- Two dates of one moment are equal as moments, and as calendar dates if they are on one day. -/
theorem holds_eq_iff_of_nanos_eq (hreading : reading ≠ values) (hleft : left.isNull = false)
    (hright : right.isNull = false) {s t : Instant} (hs : style.read? left = some s)
    (ht : style.read? right = some t) (hnanos : s.nanos = t.nanos) :
    reading.holds style left .eq right = true ↔ (reading = days → s.localDay = t.localDay) := by
  have htakes := takesInstants_of_ne_values hreading left right
  have hequal : (compare (reading.measure s) (reading.measure t) == Ordering.eq) = true ↔
      reading.measure s = reading.measure t := by
    rw [beq_iff_eq, Std.LawfulEqCmp.compare_eq_iff_eq]
  rw [holds, compare?_of_instants htakes hleft hright hs ht, compareInstants_eq_compare]
  refine hequal.trans ?_
  by_cases hdays : reading = days
  · simp [measure, hdays]
  · simp [measure, hdays, hnanos]

end Reading

/-- What replaces an operand can be looked up where that operand can. -/
theorem Source.exists_of_replaces {schema : Schema} {type : String} {after before : Operand}
    {source : Source} (h : after.Replaces before)
    (hsource : ofOperand schema type before = .ok source) :
    ∃ other, ofOperand schema type after = .ok other := by
  rcases h with rfl | ⟨_, value, _, rfl⟩
  · exact ⟨source, hsource⟩
  · exact ⟨.fixed value, rfl⟩

/-- A comparison of dates does not depend on how its sides are written. In records and fixed
values, a date may be replaced by another spelling: of the same moment, or in a comparison of
calendar dates, of the same day by its own clock. The verdict stays, if what it is compared with
is a date as well, null, or of another kind. Two dates of one moment are equal in a comparison of
moments, and in one of calendar dates exactly if they are on the same day. -/
theorem respelled_dates_pass_alike {schema : Schema} {type : String}
    {left right left' right' : Operand} {op : Comparison} {timeless : Bool} {test : Test}
    (h : Test.ofPredicate schema (.compareDates left op right timeless) type = .ok test)
    (hleft : left'.Replaces left) (hright : right'.Replaces right) :
    let reading : Reading := if timeless then .days else .moments
    ∃ l r l' r' test',
      (Source.ofOperand schema type left = .ok l ∧ Source.ofOperand schema type right = .ok r ∧
        Source.ofOperand schema type left' = .ok l' ∧
        Source.ofOperand schema type right' = .ok r' ∧
        Test.ofPredicate schema (.compareDates left' op right' timeless) type = .ok test') ∧
      ∀ (style : DateStyle) (record : Record),
        (∀ record' : Record,
          reading.Respelled style (l.read record) (l'.read record') (r.read record) →
          reading.Respelled style (r.read record) (r'.read record') (l'.read record') →
            test'.passes style record' = test.passes style record) ∧
        ∀ s t, (l.read record).isNull = false → (r.read record).isNull = false →
          style.read? (l.read record) = some s → style.read? (r.read record) = some t →
            s.nanos = t.nanos → op = .eq →
              (test.passes style record = true ↔ (timeless = true → s.localDay = t.localDay)) := by
  intro reading
  have hdates : reading ≠ .values := by
    cases timeless <;> decide
  obtain ⟨l, hl, hrest⟩ := bind_eq_ok_iff.mp h
  obtain ⟨r, hr, htest⟩ := bind_eq_ok_iff.mp hrest
  obtain rfl := pure_eq_ok_iff.mp htest
  obtain ⟨l', hl'⟩ := Source.exists_of_replaces hleft hl
  obtain ⟨r', hr'⟩ := Source.exists_of_replaces hright hr
  have htest' : Test.ofPredicate schema (.compareDates left' op right' timeless) type =
      .ok (.compare l' op r' reading) :=
    bind_eq_ok_iff.mpr ⟨l', hl', bind_eq_ok_iff.mpr ⟨r', hr', rfl⟩⟩
  refine ⟨l, r, l', r', _, ⟨hl, hr, hl', hr', htest'⟩, fun style record => ⟨?_, ?_⟩⟩
  · intro record' hleft hright
    exact Reading.holds_of_respelled hdates hleft hright op
  · rintro s t hlnull hrnull hs ht hnanos rfl
    have hdays : reading = .days ↔ timeless = true := by
      cases timeless <;> decide
    have hholds := Reading.holds_eq_iff_of_nanos_eq hdates hlnull hrnull hs ht hnanos
    exact hholds.trans (imp_congr hdays Iff.rfl)

open Store

/-- A time on the first of May 2020, so many seconds after midnight, on a clock of some offset. -/
def onMayFirst (seconds offset : Int) : Instant :=
  ⟨mayFirst.nanos + seconds * Instant.nanosPerSecond, offset⟩

/-- The comparison of the calendar date at which something is due with that of a time. -/
def dueOnDayOf (t : Instant) : Predicate :=
  .compareDates (.field "due") .eq (.literal (.instant t)) true

/-- Noon is on one day at Greenwich and two hours east of it, so neither the record nor the value
need be written by the clock of Greenwich. -/
theorem noon_passes_alike :
    let noon := onMayFirst 43200 0
    let noonEast := onMayFirst 43200 7200
    ∃ test newTest,
      Test.ofPredicate deliverySchema (dueOnDayOf mayFirst) "delivery" = .ok test ∧
      (Operand.literal (.instant noonEast)).Replaces (.literal (.instant mayFirst)) ∧
      Test.ofPredicate deliverySchema (dueOnDayOf noonEast) "delivery" = .ok newTest ∧
      Reading.days.Respelled .standard (.instant noon) (.instant noonEast) (.instant mayFirst) ∧
      newTest.passes .standard [("due", .instant noonEast)] =
        test.passes .standard [("due", .instant noon)] := by
  intro noon noonEast
  have htest : Test.ofPredicate deliverySchema (dueOnDayOf mayFirst) "delivery" =
      .ok (.compare (.path ["due"]) .eq (.fixed (.instant mayFirst)) .days) := rfl
  have hreplaces : (Operand.literal (.instant noonEast)).Replaces (.literal (.instant mayFirst)) :=
    .inr ⟨_, _, rfl, rfl⟩
  have hstored : Reading.days.Respelled .standard (.instant noon) (.instant noonEast)
      (.instant mayFirst) :=
    Reading.respelled_instants DateStyle.readsInstants_standard (by decide) _
  have hvalue : Reading.days.Respelled .standard (.instant mayFirst) (.instant noonEast)
      (.instant noonEast) :=
    Reading.respelled_instants DateStyle.readsInstants_standard (by decide) _
  obtain ⟨l, r, l', r', newTest, ⟨hl, hr, hl', hr', hnew⟩, hpasses⟩ :=
    respelled_dates_pass_alike htest (.inl rfl) hreplaces
  obtain rfl : Source.path ["due"] = l := Except.ok.inj hl
  obtain rfl : Source.fixed (.instant mayFirst) = r := Except.ok.inj hr
  obtain rfl : Source.path ["due"] = l' := Except.ok.inj hl'
  obtain rfl : Source.fixed (.instant noonEast) = r' := Except.ok.inj hr'
  refine ⟨_, newTest, htest, hreplaces, hnew, hstored, ?_⟩
  exact (hpasses .standard [("due", .instant noon)]).1 [("due", .instant noonEast)] hstored hvalue

/-- Late in the evening it is the next day two hours east of Greenwich. What is due then is not due
on the calendar date of the same moment by the other clock. -/
theorem evening_passes_unlike :
    let evening := onMayFirst 84600 0
    let eveningEast := onMayFirst 84600 7200
    evening.nanos = eveningEast.nanos ∧
      (Test.ofPredicate deliverySchema (dueOnDayOf evening) "delivery").map
        (·.passes .standard [("due", .instant evening)]) = .ok true ∧
      (Test.ofPredicate deliverySchema (dueOnDayOf eveningEast) "delivery").map
        (·.passes .standard [("due", .instant evening)]) = .ok false :=
  ⟨rfl, rfl, rfl⟩

end Rows

end EntityQuery
