import EntityQuery.Proofs.Rows.Respelling

/-!
# The six operators together

Two values that compare do so in one of three ways, as plain values, as moments or as calendar
dates, and each operator accepts some of the ways. Values that do not compare are different and
nothing else. So what the operators say of the same two sides fits together, and with the sides
exchanged the converse operator says the same.
-/

namespace EntityQuery

/-- What the operators say of two sides fits together. -/
structure Comparison.Coherent (verdict : Comparison → Bool) : Prop where
  /-- The sides are either equal or different. -/
  neq_iff : verdict .neq = true ↔ verdict .eq = false
  /-- To be greater or equal is to be greater or to be equal. -/
  geq_iff : verdict .geq = true ↔ verdict .gt = true ∨ verdict .eq = true
  /-- To be less or equal is to be less or to be equal. -/
  leq_iff : verdict .leq = true ↔ verdict .lt = true ∨ verdict .eq = true
  /-- No two of less, equal and greater are said. -/
  exclusive : ∀ first ∈ [lt, eq, gt], ∀ second ∈ [lt, eq, gt],
    verdict first = true → verdict second = true → first = second

/-- What the operators say of an ordering fits together. -/
theorem Comparison.coherent_accepts (ordering : Ordering) :
    Coherent fun op => op.accepts ordering := by
  cases ordering <;> exact ⟨by decide, by decide, by decide, by decide⟩

/-- It fits together to say that the sides are different and nothing else. -/
theorem Comparison.coherent_different : Coherent fun op => op == neq :=
  ⟨by decide, by decide, by decide, by decide⟩

/-- The predicate that compares two operands as values, as moments or as calendar dates. -/
def Predicate.relating (reading : Rows.Reading) (left : Operand) (op : Comparison)
    (right : Operand) : Predicate :=
  match reading with
  | .values => .compare left op right
  | .moments => .compareDates left op right false
  | .days => .compareDates left op right true

namespace Rows

namespace Reading

/-- What the operators say of two values fits together, whether the values compare or not. -/
theorem coherent_holds (style : DateStyle) (reading : Reading) (left right : Value) :
    Comparison.Coherent fun op => reading.holds style left op right := by
  unfold holds
  cases reading.compare? style left right with
  | none => exact Comparison.coherent_different
  | some ordering => exact Comparison.coherent_accepts ordering

/-- With the sides exchanged the converse operator says the same. -/
theorem holds_converse (style : DateStyle) (reading : Reading) (left : Value) (op : Comparison)
    (right : Value) :
    reading.holds style right op.converse left = reading.holds style left op right := by
  rw [holds, holds, compare?_swap]
  cases reading.compare? style left right with
  | none =>
    show (op.converse == .neq) = (op == .neq)
    cases op <;> rfl
  | some ordering => exact Comparison.accepts_converse op ordering

end Reading

variable {schema : Schema} {type : String} {reading : Reading} {left right : Operand}

/-- The test of such a predicate looks up both operands. -/
theorem ofPredicate_relating (schema : Schema) (type : String) (reading : Reading)
    (left : Operand) (op : Comparison) (right : Operand) :
    Test.ofPredicate schema (.relating reading left op right) type =
      Test.ofComparison schema type left op right reading := by
  cases reading <;> rfl

/-- If two operands can be compared by one operator on the records of a type, they can be by all,
and with the sides exchanged. On every record what the operators say fits together, and it is what
their converses say with the sides exchanged, so both keep the same records. -/
theorem comparisons_cohere {op : Comparison} {test : Test}
    (h : Test.ofPredicate schema (.relating reading left op right) type = .ok test) :
    ∃ tests mirrored : Comparison → Test,
      (∀ op, Test.ofPredicate schema (.relating reading left op right) type = .ok (tests op) ∧
        Test.ofPredicate schema (.relating reading right op.converse left) type =
          .ok (mirrored op)) ∧
      ∀ style : DateStyle,
        (∀ record, Comparison.Coherent fun op => (tests op).passes style record) ∧
        (∀ op record, (mirrored op).passes style record = (tests op).passes style record) ∧
        ∀ op (records : List Record), records.filter ((mirrored op).passes style) =
          records.filter ((tests op).passes style) := by
  rw [ofPredicate_relating] at h
  obtain ⟨l, hl, h⟩ := bind_eq_ok_iff.mp h
  obtain ⟨r, hr, -⟩ := bind_eq_ok_iff.mp h
  have htest : ∀ op, Test.ofComparison schema type left op right reading =
      .ok (.compare l op r reading) := fun op =>
    bind_eq_ok_iff.mpr ⟨l, hl, bind_eq_ok_iff.mpr ⟨r, hr, rfl⟩⟩
  have hmirrored : ∀ op, Test.ofComparison schema type right op left reading =
      .ok (.compare r op l reading) := fun op =>
    bind_eq_ok_iff.mpr ⟨r, hr, bind_eq_ok_iff.mpr ⟨l, hl, rfl⟩⟩
  refine ⟨fun op => .compare l op r reading, fun op => .compare r op.converse l reading, ?_, ?_⟩
  · intro op
    rw [ofPredicate_relating, ofPredicate_relating]
    exact ⟨htest op, hmirrored op.converse⟩
  · intro style
    have hsame : ∀ op record, (Test.compare r op.converse l reading).passes style record =
        (Test.compare l op r reading).passes style record := fun op record =>
      Reading.holds_converse style reading (l.read record) op (r.read record)
    refine ⟨fun record => ?_, hsame, fun op records => ?_⟩
    · exact Reading.coherent_holds style reading (l.read record) (r.read record)
    · exact List.filter_congr fun record _ => hsame op record

open Store

/-- With the first of May on the left, the deliveries that are due then or later are those that
the first of May is not after. -/
theorem comparisons_cohere_due :
    ∃ test mirrored,
      Test.ofPredicate deliverySchema (.relating .moments (.field "due") .geq
        (.literal (.instant mayFirst))) "delivery" = .ok test ∧
      Test.ofPredicate deliverySchema (.relating .moments (.literal (.instant mayFirst)) .leq
        (.field "due")) "delivery" = .ok mirrored ∧
      deliveries.filter (mirrored.passes .standard) = deliveries.filter (test.passes .standard) ∧
      (deliveries.filter (test.passes .standard)).length = 3 := by
  have h : Test.ofPredicate deliverySchema (.relating .moments (.field "due") .geq
      (.literal (.instant mayFirst))) "delivery" =
        .ok (.compare (.path ["due"]) .geq (.fixed (.instant mayFirst)) .moments) := rfl
  obtain ⟨tests, mirrored, htests, hpasses⟩ := comparisons_cohere h
  obtain ⟨htest, hmirrored⟩ := htests .geq
  refine ⟨tests .geq, mirrored .geq, htest, hmirrored, (hpasses .standard).2.2 .geq deliveries, ?_⟩
  rw [← Except.ok.inj (h.symm.trans htest)]
  decide +kernel

end Rows

end EntityQuery
