import EntityQuery.Predicate.Validity
import EntityQuery.Proofs.Store.Moments

/-!
# Tests of dates

A comparison of dates takes both sides as instants. Where a side that is not null denotes none,
the values are compared as they are, so that texts which are no dates pass by the order of their
letters. Apart from this, what passes are instants that are related as the operator says. No other
values pass if the two sides are of different kinds, or if one of them is an instant already.
-/

namespace EntityQuery.Rows

namespace Reading

variable {style : DateStyle} {reading : Reading} {left right : Value} {op : Comparison}

/-- Two values denote instants, which compare as an operator asks. -/
def RelatesInstants (style : DateStyle) (reading : Reading) (left : Value) (op : Comparison)
    (right : Value) : Prop :=
  ∃ s t, style.read? left = some s ∧ style.read? right = some t ∧
    op.accepts (reading.compareInstants s t) = true

/-- One of two values denotes no instant, and they compare as an operator asks nevertheless. -/
def RelatesOthers (style : DateStyle) (left : Value) (op : Comparison) (right : Value) : Prop :=
  (style.read? left = none ∨ style.read? right = none) ∧
    ∃ ordering, left.compare? right = some ordering ∧ op.accepts ordering = true

/-- A comparison of dates takes what is not null as instants. -/
theorem takesInstants_of_ne_values (hreading : reading ≠ values) (left right : Value) :
    reading.takesInstants left right = true := by
  have hdates : (reading != values) = true := bne_iff_ne.mpr hreading
  rw [takesInstants, hdates, Bool.true_or, Bool.true_or]

/-- Any operator but the one for differences asks for values that compare. -/
theorem holds_iff_of_ne_neq (hop : op ≠ .neq) : reading.holds style left op right = true ↔
    ∃ ordering, reading.compare? style left right = some ordering ∧
      op.accepts ordering = true := by
  rw [holds]
  cases reading.compare? style left right with
  | none => simp [hop]
  | some ordering => simp

/-- A comparison of dates that are not null holds of instants that are related as the operator
says, and of values that are so related where one of them is no date. -/
theorem holds_iff_relates (hreading : reading ≠ values) (hop : op ≠ .neq)
    (hleft : left.isNull = false) (hright : right.isNull = false) :
    reading.holds style left op right = true ↔
      reading.RelatesInstants style left op right ∨ RelatesOthers style left op right := by
  rw [holds_iff_of_ne_neq hop]
  by_cases hnone : style.read? left = none ∨ style.read? right = none
  · rw [compare?_of_no_instant hnone]
    constructor
    · exact fun hplain => .inr ⟨hnone, hplain⟩
    · rintro (⟨s, t, hs, ht, _⟩ | ⟨_, hplain⟩)
      · rcases hnone with hnone | hnone
        · cases hs.symm.trans hnone
        · cases ht.symm.trans hnone
      · exact hplain
  · obtain ⟨hs, ht⟩ := not_or.mp hnone
    obtain ⟨s, hs⟩ := Option.ne_none_iff_exists'.mp hs
    obtain ⟨t, ht⟩ := Option.ne_none_iff_exists'.mp ht
    rw [compare?_of_instants (takesInstants_of_ne_values hreading left right) hleft hright hs ht]
    constructor
    · rintro ⟨_, heq, haccepts⟩
      obtain rfl := Option.some.inj heq
      exact .inl ⟨s, t, hs, ht, haccepts⟩
    · rintro (⟨s', t', hs', ht', haccepts⟩ | ⟨hnone', _⟩)
      · obtain rfl := Option.some.inj (hs.symm.trans hs')
        obtain rfl := Option.some.inj (ht.symm.trans ht')
        exact ⟨_, rfl, haccepts⟩
      · exact absurd hnone' hnone

/-- Two values are related as dates or not at all: they are of different kinds, or one of them is
an instant. -/
def DatesOnly (style : DateStyle) (left right : Value) : Prop :=
  left.kindRank ≠ right.kindRank ∨
    style.ReadsInstants ∧ (left.isInstant = true ∨ right.isInstant = true)

/-- Nothing but an instant is of the kind of instants. -/
theorem isInstant_of_kindRank_eq (h : left.kindRank = right.kindRank)
    (hinstant : left.isInstant = true) : right.isInstant = true := by
  cases left with
  | instant s =>
    cases right with
    | instant t => rfl
    | _ => cases h
  | _ => cases hinstant

/-- An instant is read as a date. -/
theorem read?_ne_none_of_isInstant {value : Value} (hstyle : style.ReadsInstants)
    (h : value.isInstant = true) : style.read? value ≠ none := by
  cases value with
  | instant t => simp [hstyle t]
  | _ => cases h

/-- Such values are not related unless both are dates. -/
theorem not_relatesOthers_of_datesOnly (h : DatesOnly style left right) :
    ¬RelatesOthers style left op right := by
  rintro ⟨hnone, ordering, hcompare, _⟩
  have hkind := Value.kindRank_eq_of_compare? hcompare
  rcases h with hkinds | ⟨hstyle, hinstant⟩
  · exact hkinds hkind
  · have hbothInstants : left.isInstant = true ∧ right.isInstant = true := by
      rcases hinstant with hleft | hright
      · exact ⟨hleft, isInstant_of_kindRank_eq hkind hleft⟩
      · exact ⟨isInstant_of_kindRank_eq hkind.symm hright, hright⟩
    rcases hnone with hnone | hnone
    · exact read?_ne_none_of_isInstant hstyle hbothInstants.1 hnone
    · exact read?_ne_none_of_isInstant hstyle hbothInstants.2 hnone

end Reading

open Store

variable {schema : Schema} {type : String}

/-- A record in which neither side of a comparison of dates is null passes it exactly when both
sides denote instants that are related as the operator says, or one of them denotes none and the
values are so related as they are. If they are of different kinds or one is an instant, the latter
cannot be. -/
theorem passes_compareDates_iff {left right : Operand} {op : Comparison} {timeless : Bool}
    {test : Test} (hop : op ≠ .neq)
    (h : Test.ofPredicate schema (.compareDates left op right timeless) type = .ok test) :
    ∃ l r, Source.ofOperand schema type left = .ok l ∧
      Source.ofOperand schema type right = .ok r ∧
      ∀ (style : DateStyle) (record : Record),
        (l.read record).isNull = false → (r.read record).isNull = false →
          (test.passes style record = true ↔
            Reading.RelatesInstants style (if timeless then .days else .moments)
                (l.read record) op (r.read record) ∨
              Reading.RelatesOthers style (l.read record) op (r.read record)) ∧
          (Reading.DatesOnly style (l.read record) (r.read record) →
            (test.passes style record = true ↔
              Reading.RelatesInstants style (if timeless then .days else .moments)
                (l.read record) op (r.read record))) := by
  obtain ⟨l, hl, hrest⟩ := bind_eq_ok_iff.mp h
  obtain ⟨r, hr, htest⟩ := bind_eq_ok_iff.mp hrest
  obtain rfl := pure_eq_ok_iff.mp htest
  have hdates : (if timeless then Reading.days else .moments) ≠ .values := by
    cases timeless <;> decide
  refine ⟨l, r, hl, hr, fun style record hleft hright => ?_⟩
  rw [Test.passes, Reading.holds_iff_relates hdates hop hleft hright]
  exact ⟨.rfl, fun honly => or_iff_left (Reading.not_relatesOthers_of_datesOnly honly)⟩

/-- What is due at the first moment of May or later is a date. -/
theorem passes_due_iff :
    ∃ test, Test.ofPredicate deliverySchema
        (.compareDates (.field "due") .geq (.literal (.instant mayFirst)) false) "delivery" =
          .ok test ∧
      ∀ record : Record, (record.read ["due"]).isNull = false →
        (test.passes .standard record = true ↔
          Reading.moments.RelatesInstants .standard (record.read ["due"]) .geq
            (.instant mayFirst)) := by
  have htest : Test.ofPredicate deliverySchema
      (.compareDates (.field "due") .geq (.literal (.instant mayFirst)) false) "delivery" =
        .ok (.compare (.path ["due"]) .geq (.fixed (.instant mayFirst)) .moments) := rfl
  obtain ⟨l, r, hl, hr, hpasses⟩ := passes_compareDates_iff (by decide) htest
  obtain rfl : Source.path ["due"] = l := Except.ok.inj hl
  obtain rfl : Source.fixed (.instant mayFirst) = r := Except.ok.inj hr
  refine ⟨_, htest, fun record hdue => ?_⟩
  exact (hpasses .standard record hdue rfl).2
    (.inr ⟨DateStyle.readsInstants_standard, .inr rfl⟩)

/-- What is due soon is due after the first of May, as a moment and as a calendar date, although
this is no date: letters come after digits. -/
theorem soon_passes :
    DateStyle.standard.read? (.string "soon") = none ∧
      ∀ timeless : Bool, ∃ predicate test,
        Predicate.date (.field "due") .geq (.literal (.string "2020-05-01")) timeless =
          .ok predicate ∧
        Test.ofPredicate deliverySchema predicate "delivery" = .ok test ∧
        (Record.read [("due", .string "soon")] ["due"]).isNull = false ∧
        test.passes .standard [("due", .string "soon")] = true := by
  refine ⟨by decide +kernel, fun timeless => ?_⟩
  have hchecked : Predicate.checkDateOperand (.literal (.string "2020-05-01")) = .ok () := by
    decide +kernel
  have hdate : Predicate.date (.field "due") .geq (.literal (.string "2020-05-01")) timeless =
      .ok (.compareDates (.field "due") .geq (.literal (.string "2020-05-01")) timeless) := by
    rw [Predicate.date, hchecked]
    rfl
  refine ⟨_, .compare (.path ["due"]) .geq (.fixed (.string "2020-05-01"))
    (if timeless then .days else .moments), hdate, rfl, rfl, ?_⟩
  cases timeless <;> decide +kernel

end EntityQuery.Rows
