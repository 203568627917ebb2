import EntityQuery.Proofs.Store.Agreement

/-!
# Ranges of moments

A test reads both sides of a comparison as dates when one of them is an instant. A range of an
index does not read anything: it has only those values that are instants already when its bound
is one. So a query for a moment that is served by a range gives what its pipeline gives on the
records that have an instant at the field, and texts and numbers that denote a moment are left
out.
-/

namespace EntityQuery

/-- An instant is read as itself. -/
def DateStyle.ReadsInstants (dates : DateStyle) : Prop :=
  ∀ t, dates.read? (.instant t) = some t

/-- The standard choice reads an instant as itself. -/
theorem DateStyle.readsInstants_standard : DateStyle.standard.ReadsInstants := fun _ => rfl

namespace Store

open Rows

variable {dates : DateStyle}

/-- Two instants compare by their moments in a test as well. -/
theorem holds_instants (hdates : dates.ReadsInstants) (s t : Instant) (op : Comparison) :
    Reading.values.holds dates (.instant s) op (.instant t) =
      op.accepts (compare s.nanos t.nanos) := by
  rw [Reading.holds, Reading.compare?_of_instants rfl rfl rfl (hdates s) (hdates t)]
  rfl

/-- Nothing but an instant compares with an instant. -/
theorem compare?_instant_right {value : Value} (t : Instant) (h : value.isInstant = false) :
    value.compare? (.instant t) = none := by
  cases value with
  | instant s => cases h
  | _ => rfl

/-- Null passes no comparison with a moment but one for a difference. -/
theorem holds_null_instant (dates : DateStyle) {op : Comparison} {bound : Value}
    (hbound : bound.isInstant = true) (hop : op ≠ .neq) :
    Reading.values.holds dates .null op bound = false := by
  have hneq : (op == Comparison.neq) = false := by simpa using hop
  have hbare : bound.isNull = false := by
    cases bound with
    | null => cases hbound
    | _ => rfl
  simp [Reading.holds, Reading.compare?, Reading.instants?, Value.isNull,
    Value.compare?_null_left hbare, hneq]

namespace IndexRange

/-- A range up to a moment has a value in it exactly when the value is an instant and the test of
the comparison would pass it. -/
theorem contains_eq_isInstant_and_holds (hdates : dates.ReadsInstants) {range : IndexRange}
    (hbound : range.bound.isInstant = true) (value : Value) :
    range.contains value =
      (value.isInstant && Reading.values.holds dates value range.op range.bound) := by
  obtain ⟨op, bound⟩ := range
  obtain ⟨t, rfl⟩ : ∃ t, bound = .instant t := by
    cases bound with
    | instant t => exact ⟨t, rfl⟩
    | _ => cases hbound
  cases hvalue : value.isInstant with
  | false => rw [contains, compare?_instant_right t hvalue, Bool.and_false, Bool.false_and]
  | true =>
    cases value with
    | instant s =>
      rw [holds_instants hdates, Bool.true_and]
      rfl
    | _ => cases hvalue

end IndexRange

/-- A query for a moment that is served by a range of an index gives what its pipeline gives on
the records that have an instant at the field, in the same order and shape, or the same fault. -/
theorem run_eq_run_instants (hdates : dates.ReadsInstants) (schema : Schema) {query : Query}
    {store : Store} {records : List Record} {field : String} {range : IndexRange}
    (htable : store.table query.entityType = .ok records)
    (hplan : AccessPlan.ofQuery query = .indexRange field range)
    (htrim : Text.trim field = field) (hbound : range.bound.isInstant = true)
    (hlists : ∀ record ∈ records, (record.read [field]).isList = false) :
    store.run schema dates query = (Pipeline.ofQuery schema dates query).map fun pipeline =>
      pipeline.run (records.filter fun record => (record.read [field]).isInstant) := by
  rw [run_indexRange schema dates htable hplan]
  cases h : Pipeline.ofQuery schema dates query with
  | error fault => rfl
  | ok pipeline =>
    have hsame : (records.filter fun record => range.hits (record.read [field])) =
        (records.filter fun record => (record.read [field]).isInstant).filter
          pipeline.admits := by
      rw [List.filter_filter]
      refine List.filter_congr fun record hrecord => ?_
      rw [IndexRange.hits_of_not_list range (hlists record hrecord),
        IndexRange.contains_eq_isInstant_and_holds hdates hbound,
        AccessPlan.admits_indexRange h hplan htrim record, Bool.and_comm]
    simp only [Except.map, Pipeline.run, hsame]

/-- Where every value at the field is an instant or null, such a query gives what its pipeline
gives on the whole table, unless it asks for a difference. -/
theorem run_eq_run_of_instants (hdates : dates.ReadsInstants) (schema : Schema) {query : Query}
    {store : Store} {records : List Record} {field : String} {range : IndexRange}
    (htable : store.table query.entityType = .ok records)
    (hplan : AccessPlan.ofQuery query = .indexRange field range)
    (htrim : Text.trim field = field) (hbound : range.bound.isInstant = true)
    (hop : range.op ≠ .neq)
    (hrecords : ∀ record ∈ records,
      (record.read [field]).isInstant = true ∨ record.read [field] = .null) :
    store.run schema dates query = (Pipeline.ofQuery schema dates query).map fun pipeline =>
      pipeline.run records := by
  have hlists : ∀ record ∈ records, (record.read [field]).isList = false := by
    intro record hrecord
    rcases hrecords record hrecord with hinstant | hnull
    · cases hvalue : record.read [field] with
      | list items =>
        rw [hvalue] at hinstant
        cases hinstant
      | _ => rfl
    · rw [hnull]
      rfl
  rw [run_eq_run_instants hdates schema htable hplan htrim hbound hlists]
  cases h : Pipeline.ofQuery schema dates query with
  | error fault => rfl
  | ok pipeline =>
    have hsame : (records.filter fun record => (record.read [field]).isInstant).filter
        pipeline.admits = records.filter pipeline.admits := by
      rw [List.filter_filter]
      refine List.filter_congr fun record hrecord => ?_
      rcases hrecords record hrecord with hinstant | hnull
      · rw [hinstant, Bool.and_true]
      · have hfails : pipeline.admits record = false := by
          rw [AccessPlan.admits_indexRange h hplan htrim record, hnull]
          exact holds_null_instant dates hbound hop
        rw [hfails, Bool.false_and]
    simp only [Except.map, Pipeline.run, hsame]

/-- A schema of deliveries with a due date. -/
def deliverySchema : Schema where
  models := [("delivery", { name := "delivery", attributes := [⟨"due", .date, none⟩] })]

/-- The first moment of May 2020. -/
def mayFirst : Instant := ⟨1588291200000000000, 0⟩

/-- A table of four deliveries: one is due at an instant, two at a moment that is given by a text
or in milliseconds, and one at no time. -/
def deliveries : List Record :=
  [[("due", .instant ⟨1588377600000000000, 0⟩), ("id", .string "d1")],
    [("due", .string "2020-05-03T00:00:00Z"), ("id", .string "d2")],
    [("due", .int 1588550400000), ("id", .string "d3")],
    [("due", .null), ("id", .string "d4")]]

/-- None of them is due at a list of times. -/
theorem due_of_mem_deliveries {record : Record} (h : record ∈ deliveries) :
    (record.read ["due"]).isList = false := by
  simp only [deliveries, List.mem_cons, List.not_mem_nil, or_false] at h
  rcases h with rfl | rfl | rfl | rfl
  all_goals decide +kernel

/-- A store with that table. -/
def depot : Store := ⟨[("delivery", deliveries)]⟩

/-- The steps of a query for the deliveries that are due after the first of May. -/
def dueSteps : List Step :=
  [.ofType "delivery", .select "id", .filter (.simple "due" .gt (.instant mayFirst))]

/-- A store serves that query by a range of the index of the due date, from the table of the
deliveries. -/
theorem exists_due_query :
    ∃ query, (Draft.ofSteps dueSteps).build deliverySchema = .ok query ∧
      depot.table query.entityType = .ok deliveries ∧
      AccessPlan.ofQuery query = .indexRange "due" ⟨.gt, .instant mayFirst⟩ := by
  obtain ⟨query, hbuild⟩ : ∃ query, (Draft.ofSteps dueSteps).build deliverySchema = .ok query :=
    exists_eq_ok_of_isOk (by decide +kernel)
  obtain ⟨htype, hidentity, hpredicate, _⟩ := Draft.options_of_build hbuild
  have hdelivery : "delivery" = query.entityType := Option.some.inj htype
  refine ⟨query, hbuild, ?_, ?_⟩
  · rw [← hdelivery]
    rfl
  · simp only [AccessPlan.ofQuery, hidentity, hpredicate]
    rfl

theorem run_dueSteps :
    ∃ query, (Draft.ofSteps dueSteps).build deliverySchema = .ok query ∧
      depot.run deliverySchema .standard query =
        (Pipeline.ofQuery deliverySchema .standard query).map fun pipeline =>
          pipeline.run (deliveries.filter fun record => (record.read ["due"]).isInstant) := by
  obtain ⟨query, hbuild, htable, hplan⟩ := exists_due_query
  have htrim : Text.trim "due" = "due" := by decide +kernel
  have hrun := run_eq_run_instants DateStyle.readsInstants_standard deliverySchema htable hplan
    htrim rfl fun record => due_of_mem_deliveries
  exact ⟨query, hbuild, hrun⟩

/-- Three deliveries are due after the first of May, and a range has one of them. -/
theorem run_dueSteps_ne :
    ∃ query, (Draft.ofSteps dueSteps).build deliverySchema = .ok query ∧
      depot.table query.entityType = .ok deliveries ∧
      AccessPlan.ofQuery query = .indexRange "due" ⟨.gt, .instant mayFirst⟩ ∧
      depot.run deliverySchema .standard query ≠
        (Pipeline.ofQuery deliverySchema .standard query).map fun pipeline =>
          pipeline.run deliveries := by
  obtain ⟨query, hbuild, htable, hplan⟩ := exists_due_query
  have hindexed : ((Draft.ofSteps dueSteps).build deliverySchema >>=
      fun query => (depot.run deliverySchema .standard query).map List.length) = .ok 1 := by
    decide +kernel
  have hpresent : ((Draft.ofSteps dueSteps).build deliverySchema >>=
      fun query => ((Pipeline.ofQuery deliverySchema .standard query).map fun pipeline =>
        pipeline.run deliveries).map List.length) = .ok 3 := by
    decide +kernel
  rw [hbuild, ok_bind] at hindexed hpresent
  refine ⟨query, hbuild, htable, hplan, fun hsame => ?_⟩
  rw [hsame, hpresent] at hindexed
  cases hindexed

end Store

end EntityQuery
