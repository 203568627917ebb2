import EntityQuery.Proofs.Query.Construction
import EntityQuery.Proofs.Rows.Stages
import EntityQuery.Proofs.Schema.Paths
import EntityQuery.Proofs.Value.Order
import EntityQuery.Store.Tables

/-!
# Stores agree with pipelines

A store that serves a query by an index never tests the records of a range again, and
one that looks an identity up tests them only after the range has chosen them. Both
give what the pipeline of the query gives on the whole table, as long as the values
at the indexed field compare by themselves: instants are read in other ways by the test,
lists are indexed item by item, and what does not compare counts as different only in
the test.
-/

namespace EntityQuery.Store

open Rows

/-- Comparing two values of which neither is an instant does not depend on dates. -/
theorem holds_values (dates : DateStyle) {left right : Value} (op : Comparison)
    (hleft : left.isInstant = false) (hright : right.isInstant = false) :
    Reading.values.holds dates left op right =
      match left.compare? right with
      | some ordering => op.accepts ordering
      | none => op == .neq := by
  have htakes : Reading.values.takesInstants left right = false := by
    simp only [Value.isInstant] at hleft hright
    simp [Reading.takesInstants, hleft, hright]
  cases hcompare : left.compare? right <;>
    simp [Reading.holds, Reading.compare?, Reading.instants?, htakes, hcompare]

namespace IndexRange

/-- A value that is no list is in a range as a whole. -/
theorem hits_of_not_list (range : IndexRange) {value : Value} (h : value.isList = false) :
    range.hits value = range.contains value := by
  cases value with
  | list items => cases h
  | _ => rfl

/-- A range has a value in it exactly when the value compares with the bound and the test of
the comparison would pass it. -/
theorem contains_eq_compares_and_holds (dates : DateStyle) {range : IndexRange} {value : Value}
    (hbound : range.bound.isNull = false) (hboundInstant : range.bound.isInstant = false)
    (hvalueInstant : value.isInstant = false) :
    range.contains value = ((value.compare? range.bound).isSome &&
      Reading.values.holds dates value range.op range.bound) := by
  rw [holds_values dates range.op hvalueInstant hboundInstant, contains]
  cases hnull : value.isNull with
  | false => cases value.compare? range.bound <;> rfl
  | true =>
    obtain rfl : value = .null := by
      cases value with
      | null => rfl
      | _ => cases hnull
    rw [Value.compare?_null_left hbound]
    rfl

/-- Only a test for a difference passes a value that does not compare, so with any other
operator a range has a value in it exactly when the test would pass it. -/
theorem contains_eq_holds (dates : DateStyle) {range : IndexRange} {value : Value}
    (hbound : range.bound.isNull = false) (hop : range.op ≠ .neq)
    (hboundInstant : range.bound.isInstant = false) (hvalueInstant : value.isInstant = false) :
    range.contains value = Reading.values.holds dates value range.op range.bound := by
  have hneq : (range.op == Comparison.neq) = false := by simpa using hop
  rw [contains_eq_compares_and_holds dates hbound hboundInstant hvalueInstant,
    holds_values dates range.op hvalueInstant hboundInstant, hneq]
  cases value.compare? range.bound <;> rfl

/-- A value that compares equal with an identity is in the range of that identity. -/
theorem hits_of_holds_eq (dates : DateStyle) {identity value : Value}
    (hnull : identity.isNull = false) (hidentity : identity.isInstant = false)
    (hvalue : value.isInstant = false)
    (h : Reading.values.holds dates value .eq identity = true) :
    (⟨.eq, identity⟩ : IndexRange).hits value = true := by
  have hlist : value.isList = false := by
    cases value with
    | list items =>
      rw [holds_values dates .eq hvalue hidentity, Value.compare?_list_left] at h
      cases h
    | _ => rfl
  rw [hits_of_not_list _ hlist,
    contains_eq_holds dates hnull Comparison.noConfusion hidentity hvalue, h]

end IndexRange

/-- The filter of a query that may ask for an identity besides. -/
def withIdentity (identity? : Option Value) (predicate : Predicate) : Predicate :=
  match identity? with
  | some identity => predicate.and (.simple identityField .eq identity)
  | none => predicate

/-- A query with a filter is run with that filter and the identity that it asks for. -/
theorem effectivePredicate_eq {query : Query} {predicate : Predicate}
    (h : query.predicate = some predicate) :
    query.effectivePredicate = some (withIdentity query.identity predicate) := by
  rw [Query.effectivePredicate, Query.identityPredicate, h]
  cases query.identity <;> rfl

/-- A range of an index of a table has the records whose value at the field it hits. -/
theorem answer_range {store : Store} {entityType : String} {records : List Record}
    (htable : store.table entityType = .ok records) (field : String) (range : IndexRange) :
    store.answer (.range entityType field range) =
      .ok (records.filter fun record => range.hits (record.read [field])) := by
  rw [answer, htable]
  rfl

namespace AccessPlan

/-- What the values under an index must be like for the index to agree with the test:
a range asks for no difference, its field is spelled without blanks, its bound and the
values are no instants and the values no lists; a looked-up identity and the values are
no instants. Going through the whole table asks for nothing. -/
def Agrees (records : List Record) : AccessPlan → Prop
  | indexRange field range =>
    range.op ≠ .neq ∧ Text.trim field = field ∧ range.bound.isInstant = false ∧
      ∀ record ∈ records, (record.read [field]).isInstant = false ∧
        (record.read [field]).isList = false
  | lookup identity _ =>
    identity.isInstant = false ∧
      ∀ record ∈ records, (record.read [identityField]).isInstant = false
  | scan _ => True

/-- A range of an index serves the comparison of one field with a value. -/
theorem rangeOf?_eq_some {predicate : Predicate} {plan : AccessPlan}
    (h : rangeOf? predicate = some plan) :
    ∃ path op value, predicate = .simple path op value ∧ value.isNull = false ∧
      path.toList.contains '.' = false ∧ plan = indexRange path ⟨op, value⟩ := by
  unfold rangeOf? at h
  split at h
  case h_1 path op value =>
    by_cases hnone : (value.isNull || path.toList.contains '.') = true
    · rw [if_pos hnone] at h
      cases h
    · simp only [hnone, Bool.false_eq_true, if_false, Option.some.injEq] at h
      obtain ⟨hnull, hdot⟩ := Bool.or_eq_false_iff.mp (Bool.eq_false_iff.mpr hnone)
      exact ⟨path, op, value, rfl, hnull, hdot, h.symm⟩
  case h_2 => cases h

/-- A query looks its identity up, goes through a range of an index, or through the
whole table. -/
theorem ofQuery_cases (query : Query) :
    (∃ identity, query.identity = some identity ∧
        ofQuery query = lookup identity query.predicate.isSome) ∨
      (∃ path op value, query.identity = none ∧
        query.predicate = some (.simple path op value) ∧ value.isNull = false ∧
        path.toList.contains '.' = false ∧ ofQuery query = indexRange path ⟨op, value⟩) ∨
      ∃ filtered, ofQuery query = scan filtered := by
  unfold ofQuery
  cases query.identity with
  | some identity => exact .inl ⟨identity, rfl, rfl⟩
  | none =>
    cases query.predicate with
    | none => exact .inr (.inr ⟨false, rfl⟩)
    | some predicate =>
      cases hplan : rangeOf? predicate with
      | none => exact .inr (.inr ⟨true, by simp [hplan]⟩)
      | some plan =>
        obtain ⟨path, op, value, rfl, hnull, hdot, rfl⟩ := rangeOf?_eq_some hplan
        exact .inr (.inl ⟨path, op, value, rfl, rfl, hnull, hdot, by simp [hplan]⟩)

/-- The pipeline of a query for one identity admits nothing outside the range of that
identity, so it gives the same on that range as on the whole table. -/
theorem run_lookup {schema : Schema} {dates : DateStyle} {query : Query} {pipeline : Pipeline}
    {identity : Value} {filtered : Bool} {records : List Record}
    (h : Pipeline.ofQuery schema dates query = .ok pipeline)
    (hidentity : query.identity = some identity) (hnull : identity.isNull = false)
    (hagrees : (lookup identity filtered).Agrees records) :
    pipeline.run (records.filter fun record =>
      (⟨.eq, identity⟩ : IndexRange).hits (record.read [identityField])) =
        pipeline.run records := by
  obtain ⟨hidentityInstant, hrecords⟩ := hagrees
  rw [Pipeline.run, Pipeline.run, List.filter_filter]
  refine congrArg pipeline.finish (List.filter_congr fun record hrecord => ?_)
  cases hadmits : pipeline.admits record with
  | false => rw [Bool.false_and]
  | true =>
    have hholds := Pipeline.holds_of_admits h hidentity hadmits
    rw [IndexRange.hits_of_holds_eq dates hnull hidentityInstant (hrecords record hrecord) hholds,
      Bool.and_self]

/-- A query for the comparison of one own field admits the records whose value at that field
compares as asked. -/
theorem admits_simple {schema : Schema} {dates : DateStyle} {query : Query}
    {pipeline : Pipeline} {path : String} {op : Comparison} {value : Value}
    (h : Pipeline.ofQuery schema dates query = .ok pipeline) (hidentity : query.identity = none)
    (hpredicate : query.predicate = some (.simple path op value))
    (hdot : path.toList.contains '.' = false) (htrim : Text.trim path = path) (record : Record) :
    pipeline.admits record = Reading.values.holds dates (record.read [path]) op value := by
  have hfilter : query.effectivePredicate = some (.simple path op value) := by
    simp only [Query.effectivePredicate, Query.identityPredicate, hpredicate, hidentity,
      Option.map_none, Predicate.conjoin?_none_right]
  obtain ⟨test, htest, hadmits⟩ := Pipeline.exists_test_of_effectivePredicate h hfilter
  obtain ⟨segments, hsegments, rfl⟩ := Test.ofPredicate_simple htest
  obtain rfl := Schema.pathSegments_of_no_dot hdot hsegments
  rw [hadmits record, htrim]
  rfl

/-- A range of an index has the records that the test of its comparison lets through. -/
theorem finish_indexRange {schema : Schema} {dates : DateStyle} {query : Query}
    {pipeline : Pipeline} {path : String} {op : Comparison} {value : Value}
    {records : List Record} (h : Pipeline.ofQuery schema dates query = .ok pipeline)
    (hidentity : query.identity = none)
    (hpredicate : query.predicate = some (.simple path op value))
    (hnull : value.isNull = false) (hdot : path.toList.contains '.' = false)
    (hagrees : (indexRange path ⟨op, value⟩).Agrees records) :
    pipeline.finish (records.filter fun record =>
      (⟨op, value⟩ : IndexRange).hits (record.read [path])) = pipeline.run records := by
  obtain ⟨hop, htrim, hbound, hrecords⟩ := hagrees
  rw [Pipeline.run]
  refine congrArg pipeline.finish (List.filter_congr fun record hrecord => ?_)
  obtain ⟨hinstant, hlist⟩ := hrecords record hrecord
  rw [IndexRange.hits_of_not_list _ hlist,
    IndexRange.contains_eq_holds dates hnull hop hbound hinstant,
    admits_simple h hidentity hpredicate hdot htrim]

/-- Whichever plan a query takes, what it asks of a table comes out as the pipeline of
the query gives it on the whole table. -/
theorem complete_ofQuery {schema : Schema} {dates : DateStyle} {query : Query}
    {pipeline : Pipeline} {store : Store} {records : List Record}
    (h : Pipeline.ofQuery schema dates query = .ok pipeline)
    (hreal : ∀ identity, query.identity = some identity → identity.isNull = false)
    (htable : store.table query.entityType = .ok records)
    (hagrees : (ofQuery query).Agrees records) :
    (store.answer (requestOf query)).map ((ofQuery query).complete pipeline) =
      .ok (pipeline.run records) := by
  have hrange := answer_range htable
  obtain ⟨identity, hidentity, hplan⟩ | ⟨path, op, value, hidentity, hpredicate, hnull, hdot,
    hplan⟩ | ⟨filtered, hplan⟩ := ofQuery_cases query
  · rw [hplan] at hagrees
    simp only [requestOf, hplan, request, hrange, Except.map, complete]
    rw [run_lookup h hidentity (hreal identity hidentity) hagrees]
  · rw [hplan] at hagrees
    simp only [requestOf, hplan, request, hrange, Except.map, complete]
    rw [finish_indexRange h hidentity hpredicate hnull hdot hagrees]
  · simp only [requestOf, hplan, request, answer, htable, Except.map, complete]

end AccessPlan

/-- A comparison with a value is served by an index if the path of its field has no dots. -/
theorem ofQuery_of_predicate {query : Query} {path : String} {op : Comparison} {value : Value}
    (hidentity : query.identity = none)
    (hpredicate : query.predicate = some (.simple path op value)) (hvalue : value.isNull = false) :
    AccessPlan.ofQuery query =
      if path.toList.contains '.' then .scan true else .indexRange path ⟨op, value⟩ := by
  simp only [AccessPlan.ofQuery, hidentity, hpredicate, AccessPlan.rangeOf?, Predicate.simple,
    hvalue, Bool.false_or]
  split <;> rfl

/-- A query that is served by a range of an index admits the records whose value at that field
compares as the range asks. -/
theorem AccessPlan.admits_indexRange {schema : Schema} {dates : DateStyle} {query : Query}
    {pipeline : Pipeline} {field : String} {range : IndexRange}
    (h : Pipeline.ofQuery schema dates query = .ok pipeline)
    (hplan : AccessPlan.ofQuery query = .indexRange field range)
    (htrim : Text.trim field = field) (record : Record) :
    pipeline.admits record =
      Reading.values.holds dates (record.read [field]) range.op range.bound := by
  obtain ⟨_, _, hother⟩ | ⟨path, op, value, hidentity, hpredicate, _, hdot, hsame⟩ |
    ⟨_, hother⟩ := ofQuery_cases query
  · cases hplan.symm.trans hother
  · obtain ⟨rfl, rfl⟩ := AccessPlan.indexRange.inj (hplan.symm.trans hsame)
    exact admits_simple h hidentity hpredicate hdot htrim record
  · cases hplan.symm.trans hother

/-- A query that is served by a range of an index orders, cuts and shapes what the range hits. -/
theorem run_indexRange (schema : Schema) (dates : DateStyle) {query : Query} {store : Store}
    {records : List Record} {field : String} {range : IndexRange}
    (htable : store.table query.entityType = .ok records)
    (hplan : AccessPlan.ofQuery query = .indexRange field range) :
    store.run schema dates query = (Pipeline.ofQuery schema dates query).map fun pipeline =>
      pipeline.finish (records.filter fun record => range.hits (record.read [field])) := by
  rw [run]
  cases Pipeline.ofQuery schema dates query with
  | error fault => rfl
  | ok pipeline =>
    simp only [requestOf, hplan, AccessPlan.request, answer_range htable, ok_bind,
      AccessPlan.complete]
    rfl

/-- A query that was built gives the same from a store as its pipeline gives on the whole
table: the same records in the same order, or the same fault. -/
theorem run_eq_pipeline_run {taken : List Step} {schema : Schema} {settings : BuildSettings}
    {query : Query} (hbuild : (Draft.ofSteps taken).build schema settings = .ok query)
    (dates : DateStyle) {store : Store} {records : List Record}
    (htable : store.table query.entityType = .ok records)
    (hagrees : (AccessPlan.ofQuery query).Agrees records) :
    store.run schema dates query =
      (Pipeline.ofQuery schema dates query).map fun pipeline => pipeline.run records := by
  have hreal : ∀ identity, query.identity = some identity → identity.isNull = false :=
    fun identity => Draft.identity_of_build hbuild
  rw [run]
  cases h : Pipeline.ofQuery schema dates query with
  | error fault => rfl
  | ok pipeline =>
    have hcomplete := AccessPlan.complete_ofQuery h hreal htable hagrees
    simp only [Except.map]
    rw [← hcomplete]
    cases store.answer (requestOf query) <;> rfl

/-- The steps of a query for the names of the employees from the age of thirty on. -/
def seniorSteps : List Step :=
  [.ofType "employee", .select "name", .filter (.simple "age" .geq (.int 30))]

/-- A table of two employees, of whom one has no age. -/
def staff : List Record :=
  [[("age", .int 41), ("id", .string "e1"), ("name", .string "Ivan")],
    [("age", .null), ("id", .string "e2"), ("name", .string "Olga")]]

/-- Their ages are no instants and no lists. -/
theorem age_of_mem_staff {record : Record} (h : record ∈ staff) :
    (record.read ["age"]).isInstant = false ∧ (record.read ["age"]).isList = false := by
  simp only [staff, List.mem_cons, List.not_mem_nil, or_false] at h
  rcases h with rfl | rfl
  · decide +kernel
  · decide +kernel

/-- A store with that table. -/
def payroll : Store := ⟨[("employee", staff)]⟩

theorem run_seniorSteps :
    ∃ query, (Draft.ofSteps seniorSteps).build Sample.schema = .ok query ∧
      payroll.table query.entityType = .ok staff ∧
      (AccessPlan.ofQuery query).Agrees staff ∧
      payroll.run Sample.schema .standard query =
        (Pipeline.ofQuery Sample.schema .standard query).map fun pipeline =>
          pipeline.run staff := by
  obtain ⟨query, hbuild⟩ : ∃ query,
      (Draft.ofSteps seniorSteps).build Sample.schema = .ok query :=
    exists_eq_ok_of_isOk (by decide +kernel)
  obtain ⟨htype, hidentity, hpredicate, _⟩ := Draft.options_of_build hbuild
  have hdraftType : (Draft.ofSteps seniorSteps).entityType = some "employee" := by
    decide +kernel
  have hemployee : query.entityType = "employee" := by
    rw [hdraftType] at htype
    exact (Option.some.inj htype).symm
  have htable : payroll.table query.entityType = .ok staff := by
    rw [hemployee]
    rfl
  have hplan : AccessPlan.ofQuery query = .indexRange "age" ⟨.geq, .int 30⟩ := by
    simp only [AccessPlan.ofQuery, hidentity, hpredicate]
    rfl
  have hagrees : (AccessPlan.ofQuery query).Agrees staff := by
    rw [hplan]
    exact ⟨Comparison.noConfusion, by decide +kernel, rfl, fun record => age_of_mem_staff⟩
  exact ⟨query, hbuild, htable, hagrees, run_eq_pipeline_run hbuild .standard htable hagrees⟩

end EntityQuery.Store
