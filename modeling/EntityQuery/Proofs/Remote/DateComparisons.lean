import EntityQuery.Proofs.Instant.Spelling
import EntityQuery.Proofs.Remote.Acceptance
import EntityQuery.Proofs.Remote.Containment
import EntityQuery.Proofs.Rows.Stages

/-!
# Comparisons of dates

A remote service is told the declared type of a field, so a literal for a date is written as a
moment in a plain comparison as well as in one of dates. In memory no declared type is known. A
plain comparison takes its sides as moments only if one of them is an instant, and compares them
as they are otherwise. That comes out the same where both are milliseconds, and where both are
texts that are written alike. Values that denote different moments differ either way.
-/

namespace EntityQuery

namespace Rows

/-- Two values that denote moments compare alike as they are and as moments. -/
inductive ComparesAsMoment : Value → Value → Prop where
  /-- A value is equal to itself, and so is its moment. -/
  | same (value : Value) : ComparesAsMoment value value
  /-- An instant on the left makes the other side a moment too. -/
  | instantLeft (s : Instant) (right : Value) : ComparesAsMoment (.instant s) right
  /-- So does an instant on the right. -/
  | instantRight (left : Value) (t : Instant) : ComparesAsMoment left (.instant t)
  /-- Milliseconds compare as the moments that they denote. -/
  | millis (m n : Int64) : ComparesAsMoment (.int m) (.int n)
  /-- Texts that are written alike compare as the moments that they denote. -/
  | texts {first second : String} (h : Instant.WrittenAlike first.toList second.toList) :
    ComparesAsMoment (.string first) (.string second)

/-- A value that denotes a moment is not null. -/
theorem isNull_of_readStandard? {value : Value} {t : Instant}
    (h : DateStyle.standard.read? value = some t) : value.isNull = false := by
  cases value with
  | null => cases h
  | _ => rfl

/-- Values that are taken as moments compare as the moments that they denote. -/
theorem compare?_of_takesInstants {reading : Reading} {left right : Value} {s t : Instant}
    (hleft : DateStyle.standard.read? left = some s)
    (hright : DateStyle.standard.read? right = some t)
    (htakes : reading.takesInstants left right = true) (hdays : reading ≠ .days) :
    reading.compare? .standard left right = some (compare s.nanos t.nanos) := by
  rw [Reading.compare?_of_instants htakes (isNull_of_readStandard? hleft)
    (isNull_of_readStandard? hright) hleft hright, Reading.compareInstants, if_neg hdays]

/-- The moment of so many milliseconds. -/
theorem nanos_of_ofMillis? {millis : Int} {t : Instant} (h : Instant.ofMillis? millis = some t) :
    t.nanos = millis * 1000000 := by
  simp only [Instant.ofMillis?, Instant.ofNanos?] at h
  split_ifs at h
  exact (congrArg Instant.nanos (Option.some.inj h)).symm

/-- Such values compare as the moments that they denote in a plain comparison. -/
theorem ComparesAsMoment.compare? {left right : Value} {s t : Instant}
    (h : ComparesAsMoment left right) (hleft : DateStyle.standard.read? left = some s)
    (hright : DateStyle.standard.read? right = some t) :
    Reading.values.compare? .standard left right = some (compare s.nanos t.nanos) := by
  cases h with
  | same =>
    obtain rfl := Option.some.inj (hleft.symm.trans hright)
    have hequal : compare s.nanos s.nanos = .eq := compare_eq_iff_eq.mpr rfl
    cases left with
    | instant s' => exact compare?_of_takesInstants hleft hright rfl Reading.noConfusion
    | int n =>
      rw [hequal, ← compare_eq_iff_eq.mpr (rfl : n.toInt = n.toInt)]
      rfl
    | string text =>
      rw [hequal, ← compare_chars_self text.toList, ← Text.compare_eq_compare_toList]
      rfl
    | _ => cases hleft
  | instantLeft s' =>
    exact compare?_of_takesInstants hleft hright rfl Reading.noConfusion
  | instantRight _ t' =>
    have htakes : Reading.values.takesInstants left (.instant t') = true := by
      rw [Reading.takesInstants, Bool.or_eq_true]
      exact .inr rfl
    exact compare?_of_takesInstants hleft hright htakes Reading.noConfusion
  | millis m n =>
    have hplain : Reading.values.compare? .standard (.int m) (.int n) =
        some (compare m.toInt n.toInt) := rfl
    have hzero : (0 : Int) ≤ 0 ∧ (0 : Int) < 1000000 := by decide
    have hplaces : compare (m.toInt * 1000000 + 0) (n.toInt * 1000000 + 0) =
        (compare m.toInt n.toInt).then (compare 0 0) := compare_places hzero hzero
    rw [hplain, nanos_of_ofMillis? hleft, nanos_of_ofMillis? hright, ← Int.add_zero (m.toInt * _),
      ← Int.add_zero (n.toInt * _), hplaces]
    cases compare m.toInt n.toInt <;> rfl
  | @texts first second halike =>
    have hplain : Reading.values.compare? .standard (.string first) (.string second) =
        some (compare first second) := rfl
    rw [hplain, Instant.compare_of_writtenAlike hleft hright halike]

/-- Such values pass a plain comparison exactly when they pass it as moments. -/
theorem ComparesAsMoment.holds_eq {left right : Value} {s t : Instant}
    (h : ComparesAsMoment left right) (hleft : DateStyle.standard.read? left = some s)
    (hright : DateStyle.standard.read? right = some t) (op : Comparison) :
    Reading.values.holds .standard left op right =
      Reading.moments.holds .standard left op right := by
  have hmoments : Reading.moments.compare? .standard left right =
      some (compare s.nanos t.nanos) :=
    compare?_of_takesInstants hleft hright rfl Reading.noConfusion
  rw [Reading.holds, Reading.holds, h.compare? hleft hright, hmoments]

/-- Values that denote different moments are not equal in a plain comparison. -/
theorem compare?_ne_eq {left right : Value} {s t : Instant}
    (hleft : DateStyle.standard.read? left = some s)
    (hright : DateStyle.standard.read? right = some t) (hne : s.nanos ≠ t.nanos) :
    Reading.values.compare? .standard left right ≠ some .eq := by
  intro hequal
  have hsame : ComparesAsMoment left right → False := by
    intro halike
    have hmoments := (halike.compare? hleft hright).symm.trans hequal
    exact hne (compare_eq_iff_eq.mp (Option.some.inj hmoments))
  cases left with
  | instant s' => exact hsame (.instantLeft s' right)
  | int m =>
    cases right with
    | instant t' => exact hsame (.instantRight _ t')
    | int n => exact hsame (.millis m n)
    | string second => cases hequal
    | _ => cases hright
  | string first =>
    cases right with
    | instant t' => exact hsame (.instantRight _ t')
    | int n => cases hequal
    | string second =>
      have htexts : compare first second = .eq := Option.some.inj hequal
      obtain rfl := Std.LawfulEqOrd.eq_of_compare htexts
      exact hsame (.same _)
    | _ => cases hright
  | _ => cases hleft

/-- Values that denote different moments differ in a plain comparison and in one of dates, and
equality asks for no more. -/
theorem holds_eq_of_nanos_ne {left right : Value} {s t : Instant}
    (hleft : DateStyle.standard.read? left = some s)
    (hright : DateStyle.standard.read? right = some t) (hne : s.nanos ≠ t.nanos)
    {op : Comparison} (hop : op = .eq ∨ op = .neq) :
    Reading.values.holds .standard left op right =
      Reading.moments.holds .standard left op right := by
  have hmoments : Reading.moments.compare? .standard left right =
      some (compare s.nanos t.nanos) :=
    compare?_of_takesInstants hleft hright rfl Reading.noConfusion
  have hdiffer : compare s.nanos t.nanos ≠ .eq := fun hequal => hne (compare_eq_iff_eq.mp hequal)
  have hplain := compare?_ne_eq hleft hright hne
  rw [Reading.holds, Reading.holds, hmoments]
  have haskForEquality : ∀ ordering : Ordering, ordering ≠ .eq →
      op.accepts ordering = (op == Comparison.neq) := by
    intro ordering hother
    rcases hop with rfl | rfl <;> cases ordering <;> first | rfl | exact absurd rfl hother
  cases hcompare : Reading.values.compare? .standard left right with
  | none => exact (haskForEquality _ hdiffer).symm
  | some ordering =>
    have hother : ordering ≠ .eq := fun hequal => hplain (hequal ▸ hcompare)
    exact (haskForEquality ordering hother).trans (haskForEquality _ hdiffer).symm

end Rows

namespace Remote.Context

open Rows

variable {context : Context} {entityType path : String} {reference : Reference} {field : Field}

/-- An attribute stands for itself, whatever it is compared with. -/
theorem resolveOperand_of_attribute {scope : Scope} {type : AttributeType} (other : Operand)
    (hpath : context.reference scope path = .ok (reference, field))
    (htype : field.attributeType? = some type) :
    context.resolveOperand scope other (.field path) = .ok (.field reference field) := by
  have hkind : ¬(field.kind = .belongsTo ∧ isSolidLiteral other = true) := by
    rintro ⟨hmaster, _⟩
    cases field with
    | scalar owner declaration => cases hmaster
    | _ => cases htype
  rw [resolveOperand, hpath, ok_bind]
  simp only [hkind, if_false]
  rfl

/-- A path that requests can refer to is one along which records are tested. -/
theorem exists_test_of_reference
    (hpath : context.reference (.root entityType) path = .ok (reference, field)) :
    ∃ segments, Schema.pathSegments path = .ok segments ∧
      ∀ op value reading, Test.ofComparison context.schema entityType (.field path) op
        (.literal value) reading = .ok (.compare (.path segments) op (.fixed value) reading) := by
  obtain ⟨segments, hchecked⟩ := exists_reference_iff.mp ⟨_, hpath⟩
  have hsource : Source.ofOperand context.schema entityType (.field path) =
      .ok (.path segments) := by
    rw [Source.ofOperand]
    exact map_eq_ok_iff.mpr ⟨segments, hchecked, rfl⟩
  refine ⟨segments, checkedPath_eq_ok hchecked, fun op value reading => ?_⟩
  rw [Test.ofComparison, hsource]
  rfl

/-- A comparison of a date with a literal is its three parts with blanks between, whatever the
declared type of the field. -/
theorem filterText_compareDates {op : Comparison} {value : Value} (hvalue : value.isNull = false)
    (h : context.resolveOperand (.root entityType) (.literal value) (.field path) =
      .ok (.field reference field)) :
    context.filterText entityType (.compareDates (.field path) op (.literal value) false) =
      (context.dateLiteral value false).map fun literal =>
        reference.text ++ " " ++ operatorWord op ++ " " ++ literal.text := by
  have hliteral : context.literal value (some field) (some false) =
      context.dateLiteral value false := by
    simp [Context.literal, hvalue]
  have hunfold : context.expression entityType
      (.compareDates (.field path) op (.literal value) false) =
        context.comparison (.root entityType) (.field path) op (.literal value) (some false) := rfl
  rw [filterText, hunfold, comparison, h, ← hliteral]
  simp only [bind, Except.bind, resolveOperand, side, Resolved.field?]
  cases context.literal value (some field) (some false) <;> rfl

/-- A comparison of a declared date with a moment has one filter text, whether it is plain or one
of dates. In memory both pass the same records as long as the value at the path and the literal
compare alike as they are and as moments, and tests for equality also as long as they denote
different moments. -/
theorem plain_and_date_comparisons_agree (hdates : context.dates = .standard)
    (hpath : context.reference (.root entityType) path = .ok (reference, field))
    (htype : field.attributeType? = some .date) (op : Comparison) {value : Value} {t : Instant}
    (hvalue : DateStyle.standard.read? value = some t) :
    (∃ text, context.filterText entityType (.simple path op value) = .ok text ∧
      context.filterText entityType
        (.compareDates (.field path) op (.literal value) false) = .ok text) ∧
    ∃ segments plain dated, Schema.pathSegments path = .ok segments ∧
      Test.ofPredicate context.schema (.simple path op value) entityType = .ok plain ∧
      Test.ofPredicate context.schema
        (.compareDates (.field path) op (.literal value) false) entityType = .ok dated ∧
      ∀ (record : Record) (s : Instant),
        DateStyle.standard.read? (record.read segments) = some s →
        (ComparesAsMoment (record.read segments) value ∨
          (op = .eq ∨ op = .neq) ∧ s.nanos ≠ t.nanos) →
        plain.passes .standard record = dated.passes .standard record := by
  have hnull : value.isNull = false := isNull_of_readStandard? hvalue
  have hresolved := resolveOperand_of_attribute (.literal value) hpath htype
  constructor
  · have hliteral : context.dateLiteral value false =
        .ok (.bare (context.dates.write t false)) := by
      rw [dateLiteral, hdates, hvalue]
    have hfield : context.fieldLiteral field value = context.dateLiteral value false := by
      rw [fieldLiteral, htype]
    refine ⟨reference.text ++ " " ++ operatorWord op ++ " " ++ context.dates.write t false, ?_, ?_⟩
    · rw [filterText_simple hnull hresolved, hfield, hliteral]
      rfl
    · rw [filterText_compareDates hnull hresolved, hliteral]
      rfl
  · obtain ⟨segments, hsegments, htest⟩ := exists_test_of_reference hpath
    refine ⟨segments, _, _, hsegments, htest op value .values, htest op value .moments, ?_⟩
    rintro record s hread (halike | ⟨hop, hne⟩)
    · exact halike.holds_eq hread hvalue op
    · exact holds_eq_of_nanos_ne hread hvalue hne hop

theorem due_comparisons_agree :
    ∃ plain dated,
      Test.ofPredicate deliveries.schema (.simple "due" .leq (.string "2020-05-02")) "delivery" =
        .ok plain ∧
      Test.ofPredicate deliveries.schema
        (.compareDates (.field "due") .leq (.literal (.string "2020-05-02")) false) "delivery" =
          .ok dated ∧
      Instant.WrittenAlike "2020-05-01".toList "2020-05-02".toList ∧
      plain.passes .standard [("due", .string "2020-05-01")] =
        dated.passes .standard [("due", .string "2020-05-01")] := by
  have hpath : deliveries.reference (.root "delivery") "due" =
      .ok (⟨none, ["Due"]⟩, .scalar "delivery" ⟨"due", .date, none⟩) := by decide +kernel
  have hread : DateStyle.standard.read? (.string "2020-05-02") =
      some ⟨1588377600000000000, 0⟩ := by decide +kernel
  have hsegments : Schema.pathSegments "due" = .ok ["due"] := by decide +kernel
  have halike : Instant.WrittenAlike "2020-05-01".toList "2020-05-02".toList := by
    refine ⟨⟨?_, ?_, ?_, ?_⟩, ⟨?_, ?_, ?_, ?_⟩, ?_, ?_, ?_⟩
    all_goals decide +kernel
  obtain ⟨_, segments, plain, dated, hsame, hplain, hdated, hagree⟩ :=
    plain_and_date_comparisons_agree rfl hpath rfl .leq hread
  obtain rfl := Except.ok.inj (hsegments.symm.trans hsame)
  refine ⟨plain, dated, hplain, hdated, halike, ?_⟩
  exact hagree [("due", .string "2020-05-01")] ⟨1588291200000000000, 0⟩ (by decide +kernel)
    (.inl (.texts halike))

/-- A calendar date and the first moment of it have one filter text and are one moment, and yet
only the comparison of dates finds them equal. -/
theorem due_comparisons_differ :
    deliveries.filterText "delivery" (.simple "due" .eq (.string "2020-05-01")) =
        .ok "Due eq 2020-05-01T00:00:00Z" ∧
      deliveries.filterText "delivery"
          (.compareDates (.field "due") .eq (.literal (.string "2020-05-01")) false) =
        .ok "Due eq 2020-05-01T00:00:00Z" ∧
      DateStyle.standard.read? (.string "2020-05-01") = some ⟨1588291200000000000, 0⟩ ∧
      DateStyle.standard.read? (.string "2020-05-01T00:00:00Z") =
        some ⟨1588291200000000000, 0⟩ ∧
      (Test.ofPredicate deliveries.schema (.simple "due" .eq (.string "2020-05-01"))
        "delivery").map (·.passes .standard [("due", .string "2020-05-01T00:00:00Z")]) =
          .ok false ∧
      (Test.ofPredicate deliveries.schema
        (.compareDates (.field "due") .eq (.literal (.string "2020-05-01")) false)
        "delivery").map (·.passes .standard [("due", .string "2020-05-01T00:00:00Z")]) =
          .ok true := by
  refine ⟨?_, ?_, ?_, ?_, ?_, ?_⟩
  all_goals decide +kernel

end Remote.Context

end EntityQuery
