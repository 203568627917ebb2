import EntityQuery.Proofs.Rows.Conjunction

/-!
# The stages of a query

A query has a pipeline exactly when its filter has a test and its order has keys. The
test of a query for one identity includes the comparison with that identity, so every
record that passes has it.
-/

namespace EntityQuery.Rows

namespace Pipeline

/-- What a successful lookup of a query found. -/
theorem exists_stages_of_ofQuery {schema : Schema} {dates : DateStyle} {query : Query}
    {pipeline : Pipeline} (h : ofQuery schema dates query = .ok pipeline) :
    Test.ofPredicate? schema query.entityType query.effectivePredicate = .ok pipeline.test ∧
      Order.ofClause? schema query.entityType query.order = .ok pipeline.order ∧
      pipeline.dates = dates := by
  rw [ofQuery] at h
  obtain ⟨test, htest, h⟩ := bind_eq_ok_iff.mp h
  obtain ⟨order, horder, h⟩ := bind_eq_ok_iff.mp h
  obtain rfl := pure_eq_ok_iff.mp h
  exact ⟨htest, horder, rfl⟩

/-- The records that a pipeline admits are those that pass the test of its filter. -/
theorem exists_test_of_effectivePredicate {schema : Schema} {dates : DateStyle} {query : Query}
    {pipeline : Pipeline} {predicate : Predicate} (h : ofQuery schema dates query = .ok pipeline)
    (hfilter : query.effectivePredicate = some predicate) :
    ∃ test, Test.ofPredicate schema predicate query.entityType = .ok test ∧
      ∀ record, pipeline.admits record = test.passes dates record := by
  obtain ⟨htest, _, hdates⟩ := exists_stages_of_ofQuery h
  rw [hfilter] at htest
  obtain ⟨test, hpredicate, hsome⟩ := map_eq_ok_iff.mp htest
  refine ⟨test, hpredicate, fun record => ?_⟩
  simp only [admits, ← hsome, hdates]

end Pipeline

/-- The path of the identity is its one name. -/
theorem pathSegments_identityField :
    Schema.pathSegments identityField = .ok [identityField] := by decide +kernel

/-- A checked path has the segments of its text. -/
theorem checkedPath_eq_ok {schema : Schema} {type path : String} {segments : List String}
    (h : checkedPath schema type path = .ok segments) :
    Schema.pathSegments path = .ok segments := by
  obtain ⟨_, _, hsegments⟩ := bind_eq_ok_iff.mp h
  exact hsegments

/-- The test of a field against a value compares what is read along the path. -/
theorem Test.ofPredicate_simple {schema : Schema} {type path : String} {op : Comparison}
    {value : Value} {test : Test}
    (h : Test.ofPredicate schema (.simple path op value) type = .ok test) :
    ∃ segments, Schema.pathSegments path = .ok segments ∧
      test = .compare (.path segments) op (.fixed value) .values := by
  rw [Predicate.simple, Test.ofPredicate, Test.ofComparison] at h
  obtain ⟨left, hleft, h⟩ := bind_eq_ok_iff.mp h
  obtain ⟨right, hright, h⟩ := bind_eq_ok_iff.mp h
  obtain ⟨segments, hsegments, rfl⟩ := map_eq_ok_iff.mp hleft
  obtain rfl := Except.ok.inj hright
  exact ⟨segments, checkedPath_eq_ok hsegments, (pure_eq_ok_iff.mp h).symm⟩

/-- Every record that a query for one identity admits compares equal with it. -/
theorem Pipeline.holds_of_admits {schema : Schema} {dates : DateStyle} {query : Query}
    {pipeline : Pipeline} {identity : Value} (h : ofQuery schema dates query = .ok pipeline)
    (hidentity : query.identity = some identity) {record : Record}
    (hadmits : pipeline.admits record = true) :
    Reading.values.holds dates (record.read [identityField]) .eq identity = true := by
  have hcompare : ∀ {test : Test}, Test.ofPredicate schema
      (.simple identityField .eq identity) query.entityType = .ok test →
      test.passes dates record = true →
      Reading.values.holds dates (record.read [identityField]) .eq identity = true := by
    intro test htest hpasses
    obtain ⟨segments, hsegments, rfl⟩ := Test.ofPredicate_simple htest
    obtain rfl := Except.ok.inj (pathSegments_identityField.symm.trans hsegments)
    exact hpasses
  cases hpredicate : query.predicate with
  | none =>
    have hfilter : query.effectivePredicate = some (.simple identityField .eq identity) := by
      simp only [Query.effectivePredicate, Query.identityPredicate, hpredicate, hidentity,
        Option.map_some, Predicate.conjoin?]
    obtain ⟨test, htest, hpasses⟩ := exists_test_of_effectivePredicate h hfilter
    exact hcompare htest (by rw [← hpasses, hadmits])
  | some predicate =>
    have hfilter : query.effectivePredicate =
        some (predicate.and (.simple identityField .eq identity)) := by
      simp only [Query.effectivePredicate, Query.identityPredicate, hpredicate, hidentity,
        Option.map_some, Predicate.conjoin?]
    obtain ⟨test, htest, hpasses⟩ := exists_test_of_effectivePredicate h hfilter
    obtain ⟨filterTest, identityTest, _, hidentityTest, hjoined⟩ := Test.ofPredicate_join htest
    refine hcompare hidentityTest ?_
    have hboth := (hpasses record).symm.trans hadmits
    rw [hjoined] at hboth
    exact (Bool.and_eq_true_iff.mp hboth).2

end EntityQuery.Rows
