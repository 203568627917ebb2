import EntityQuery.Proofs.Store.Agreement

/-!
# What an index does not reach

A range of an index has only values that compare with its bound. A test for a difference lets
values through that do not compare, so where a query for a difference is served by a range, it
gives what its pipeline gives on the records whose value at the field compares with the bound.
Those are fewer than the records that have a value there.
-/

namespace EntityQuery.Store

open Rows

/-- A range of an index has those records comparing with its bound that the test of its
comparison lets through, also when it asks for a difference. -/
theorem AccessPlan.finish_comparing {schema : Schema} {dates : DateStyle} {query : Query}
    {pipeline : Pipeline} {path : String} {op : Comparison} {value : Value}
    {records : List Record} (h : Pipeline.ofQuery schema dates query = .ok pipeline)
    (hidentity : query.identity = none)
    (hpredicate : query.predicate = some (.simple path op value))
    (hnull : value.isNull = false) (hdot : path.toList.contains '.' = false)
    (htrim : Text.trim path = path) (hbound : value.isInstant = false)
    (hrecords : ∀ record ∈ records,
      (record.read [path]).isInstant = false ∧ (record.read [path]).isList = false) :
    pipeline.finish (records.filter fun record =>
        (⟨op, value⟩ : IndexRange).hits (record.read [path])) =
      pipeline.run (records.filter fun record => ((record.read [path]).compare? value).isSome) := by
  rw [Pipeline.run, List.filter_filter]
  refine congrArg pipeline.finish (List.filter_congr fun record hrecord => ?_)
  obtain ⟨hinstant, hlist⟩ := hrecords record hrecord
  have hcontains : (⟨op, value⟩ : IndexRange).contains (record.read [path]) =
      (((record.read [path]).compare? value).isSome &&
        Reading.values.holds dates (record.read [path]) op value) :=
    IndexRange.contains_eq_compares_and_holds dates hnull hbound hinstant
  rw [IndexRange.hits_of_not_list _ hlist, hcontains,
    admits_simple h hidentity hpredicate hdot htrim, Bool.and_comm]

/-- A query that is served by a range of an index gives what its pipeline gives on the records
whose value at the field compares with the bound, in the same order and shape, or the same
fault. -/
theorem run_eq_run_comparing (schema : Schema) (dates : DateStyle) {query : Query}
    {store : Store} {records : List Record} {field : String} {range : IndexRange}
    (htable : store.table query.entityType = .ok records)
    (hplan : AccessPlan.ofQuery query = .indexRange field range)
    (htrim : Text.trim field = field) (hbound : range.bound.isInstant = false)
    (hrecords : ∀ record ∈ records,
      (record.read [field]).isInstant = false ∧ (record.read [field]).isList = false) :
    store.run schema dates query = (Pipeline.ofQuery schema dates query).map fun pipeline =>
      pipeline.run (records.filter fun record =>
        ((record.read [field]).compare? range.bound).isSome) := by
  obtain ⟨identity, _, hother⟩ | ⟨path, op, value, hidentity, hpredicate, hnull, hdot, hsame⟩ |
    ⟨filtered, hother⟩ := AccessPlan.ofQuery_cases query
  · cases hplan.symm.trans hother
  · obtain ⟨rfl, rfl⟩ := AccessPlan.indexRange.inj (hplan.symm.trans hsame)
    rw [run]
    cases h : Pipeline.ofQuery schema dates query with
    | error fault => rfl
    | ok pipeline =>
      have hfinish := AccessPlan.finish_comparing h hidentity hpredicate hnull hdot htrim hbound
        hrecords
      simp only [requestOf, hplan, AccessPlan.request, answer_range htable, ok_bind,
        AccessPlan.complete, hfinish]
      rfl
  · cases hplan.symm.trans hother

/-- The steps of a query for the employees whose value at a field differs from another. -/
def differenceSteps (field : String) (value : Value) : List Step :=
  [.ofType "employee", .select "name", .filter (.simple field .neq value)]

/-- A store serves such a query by a range of the index of the field, from the table of the
employees. -/
theorem ofQuery_differenceSteps {field : String} {value : Value} {query : Query}
    (hbuild : (Draft.ofSteps (differenceSteps field value)).build Sample.schema = .ok query)
    (hnull : value.isNull = false) (hdot : field.toList.contains '.' = false) :
    payroll.table query.entityType = .ok staff ∧
      AccessPlan.ofQuery query = .indexRange field ⟨.neq, value⟩ := by
  obtain ⟨htype, hidentity, hpredicate, _⟩ := Draft.options_of_build hbuild
  have hemployee : "employee" = query.entityType := Option.some.inj htype
  have hfilter : query.predicate = some (.simple field .neq value) := hpredicate
  have hnobody : query.identity = none := hidentity
  constructor
  · rw [← hemployee]
    rfl
  · simp only [AccessPlan.ofQuery, hnobody, hfilter, AccessPlan.rangeOf?, Predicate.simple, hnull,
      hdot, Bool.or_self, Bool.false_eq_true, if_false, Option.getD_some]

theorem run_age_differences :
    ∃ query, (Draft.ofSteps (differenceSteps "age" (.int 20))).build Sample.schema = .ok query ∧
      payroll.run Sample.schema .standard query =
        (Pipeline.ofQuery Sample.schema .standard query).map fun pipeline =>
          pipeline.run (staff.filter fun record =>
            ((record.read ["age"]).compare? (.int 20)).isSome) := by
  obtain ⟨query, hbuild⟩ : ∃ query,
      (Draft.ofSteps (differenceSteps "age" (.int 20))).build Sample.schema = .ok query :=
    exists_eq_ok_of_isOk (by decide +kernel)
  obtain ⟨htable, hplan⟩ := ofQuery_differenceSteps hbuild rfl (by decide +kernel)
  have htrim : Text.trim "age" = "age" := by decide +kernel
  have hrun := run_eq_run_comparing Sample.schema .standard htable hplan htrim rfl
    fun record => age_of_mem_staff
  exact ⟨query, hbuild, hrun⟩

/-- Every name differs from a number, and yet a range of the index of names has none of them. -/
theorem run_name_differences_ne :
    ∃ query, (Draft.ofSteps (differenceSteps "name" (.int 5))).build Sample.schema = .ok query ∧
      payroll.table query.entityType = .ok staff ∧
      AccessPlan.ofQuery query = .indexRange "name" ⟨.neq, .int 5⟩ ∧
      payroll.run Sample.schema .standard query ≠
        (Pipeline.ofQuery Sample.schema .standard query).map fun pipeline =>
          pipeline.run (staff.filter fun record => !(record.read ["name"]).isNull) := by
  obtain ⟨query, hbuild⟩ : ∃ query,
      (Draft.ofSteps (differenceSteps "name" (.int 5))).build Sample.schema = .ok query :=
    exists_eq_ok_of_isOk (by decide +kernel)
  obtain ⟨htable, hplan⟩ := ofQuery_differenceSteps hbuild rfl (by decide +kernel)
  have hindexed : ((Draft.ofSteps (differenceSteps "name" (.int 5))).build Sample.schema >>=
      fun query => (payroll.run Sample.schema .standard query).map List.length) = .ok 0 := by
    decide +kernel
  have hpresent : ((Draft.ofSteps (differenceSteps "name" (.int 5))).build Sample.schema >>=
      fun query => ((Pipeline.ofQuery Sample.schema .standard query).map fun pipeline =>
        pipeline.run (staff.filter fun record => !(record.read ["name"]).isNull)).map
          List.length) = .ok 2 := by
    decide +kernel
  rw [hbuild, ok_bind] at hindexed hpresent
  refine ⟨query, hbuild, htable, hplan, fun hsame => ?_⟩
  rw [hsame, hpresent] at hindexed
  cases hindexed

end EntityQuery.Store
