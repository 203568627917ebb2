import EntityQuery.Proofs.Store.Agreement

/-!
# Ranges of lists

An index has an entry for every item of a list, a record by its identity, and a store returns a
record if one of its entries is in the range. A test compares the list itself, which compares with
nothing. So a query that compares a field of many values by an index returns records that its
pipeline never admits, and the two agree only where the wanted page begins behind all of them.
-/

namespace EntityQuery

/-- A predicate compares a field with a value, on either side. -/
def Predicate.Compares (field : String) (op : Comparison) (value : Value)
    (predicate : Predicate) : Prop :=
  predicate = .simple field op value ∨ predicate = .compare (.literal value) op (.field field)

namespace Rows

variable {schema : Schema} {dates : DateStyle} {query : Query} {pipeline : Pipeline}
  {field : String} {op : Comparison} {value : Value}

/-- Between a list and a value that is no instant nothing holds but a difference. -/
theorem holds_of_isList (dates : DateStyle) {left right : Value}
    (h : left.isList = true ∧ right.isInstant = false ∨
      left.isInstant = false ∧ right.isList = true) (hop : op ≠ .neq) :
    Reading.values.holds dates left op right = false := by
  have hneq : (op == Comparison.neq) = false := by simpa using hop
  rcases h with ⟨hleft, hright⟩ | ⟨hleft, hright⟩
  · obtain ⟨items, rfl⟩ := Value.exists_list_of_isList hleft
    rw [Store.holds_values dates op rfl hright, Value.compare?_list_left, hneq]
  · obtain ⟨items, rfl⟩ := Value.exists_list_of_isList hright
    rw [Store.holds_values dates op hleft rfl, Value.compare?_list_right, hneq]

/-- No comparison of a field with a value lets a record through that has a list there. -/
theorem not_passes_of_isList (dates : DateStyle) {type : String} {predicate : Predicate}
    {test : Test}
    (hpredicate : predicate.Compares field op value)
    (htest : Test.ofPredicate schema predicate type = .ok test)
    (hdot : field.toList.contains '.' = false) (htrim : Text.trim field = field)
    (hinstant : value.isInstant = false) (hop : op ≠ .neq) {record : Record}
    (hlist : (record.read [field]).isList = true) : test.passes dates record = false := by
  rcases hpredicate with rfl | rfl
  · obtain ⟨segments, hsegments, rfl⟩ := Test.ofPredicate_simple htest
    obtain rfl := Schema.pathSegments_of_no_dot hdot hsegments
    rw [htrim]
    exact holds_of_isList dates (.inl ⟨hlist, hinstant⟩) hop
  · obtain ⟨left, hleft, htest⟩ := bind_eq_ok_iff.mp htest
    obtain ⟨right, hright, htest⟩ := bind_eq_ok_iff.mp htest
    obtain rfl := Except.ok.inj hleft
    obtain ⟨segments, hsegments, rfl⟩ := map_eq_ok_iff.mp hright
    obtain rfl := pure_eq_ok_iff.mp htest
    obtain rfl := Schema.pathSegments_of_no_dot hdot (checkedPath_eq_ok hsegments)
    rw [htrim]
    exact holds_of_isList dates (.inr ⟨hinstant, hlist⟩) hop

/-- What a query with a filter admits passes the test of that filter, whether the query asks for
an identity besides or not. -/
theorem Pipeline.exists_test_of_predicate {predicate : Predicate}
    (h : ofQuery schema dates query = .ok pipeline)
    (hpredicate : query.predicate = some predicate) :
    ∃ test, Test.ofPredicate schema predicate query.entityType = .ok test ∧
      ∀ record, pipeline.admits record = true → test.passes dates record = true := by
  obtain ⟨joined, hjoined, hadmits⟩ :=
    exists_test_of_effectivePredicate h (Store.effectivePredicate_eq hpredicate)
  cases hidentity : query.identity with
  | none =>
    rw [hidentity] at hjoined
    exact ⟨joined, hjoined, fun record hrecord => (hadmits record).symm.trans hrecord⟩
  | some identity =>
    rw [hidentity] at hjoined
    obtain ⟨test, _, htest, _, hboth⟩ := Test.ofPredicate_join hjoined
    refine ⟨test, htest, fun record hrecord => ?_⟩
    rw [hadmits, hboth] at hrecord
    exact (Bool.and_eq_true_iff.mp hrecord).1

/-- Nothing is left of an empty list, and of any list if its page begins behind it or is empty. -/
theorem Pipeline.finish_eq_nil_iff {records : List Record} :
    pipeline.finish records = [] ↔
      records.length ≤ pipeline.skip.getD 0 ∨ pipeline.top = some 0 := by
  have hlength : (pipeline.order.sort records).length = records.length :=
    (stableSort_perm _ _).length_eq
  rw [Pipeline.finish, List.map_eq_nil_iff, ← hlength]
  unfold paginate
  cases pipeline.top with
  | none => simp
  | some n => simp [or_comm]

/-- The page of a pipeline is that of its query. -/
theorem Pipeline.page_of_ofQuery (h : ofQuery schema dates query = .ok pipeline) :
    pipeline.skip = query.skip ∧ pipeline.top = query.top := by
  rw [ofQuery] at h
  obtain ⟨_, _, h⟩ := bind_eq_ok_iff.mp h
  obtain ⟨_, _, h⟩ := bind_eq_ok_iff.mp h
  obtain rfl := pure_eq_ok_iff.mp h
  exact ⟨rfl, rfl⟩

/-- The pipeline of a query that compares a field with a value returns nothing from records that
have lists there. -/
theorem Pipeline.run_of_isList {predicate : Predicate}
    (h : ofQuery schema dates query = .ok pipeline) (hpredicate : query.predicate = some predicate)
    (hcompares : predicate.Compares field op value)
    (hdot : field.toList.contains '.' = false) (htrim : Text.trim field = field)
    (hinstant : value.isInstant = false) (hop : op ≠ .neq) {records : List Record}
    (hlists : ∀ record ∈ records, (record.read [field]).isList = true) :
    pipeline.run records = [] := by
  obtain ⟨test, htest, hadmits⟩ := exists_test_of_predicate h hpredicate
  have hnone : records.filter pipeline.admits = [] := by
    rw [List.filter_eq_nil_iff]
    intro record hrecord hadmitted
    have hfails := not_passes_of_isList dates hcompares htest hdot htrim hinstant hop
      (hlists record hrecord)
    exact Bool.false_ne_true (hfails.symm.trans (hadmits record hadmitted))
  rw [run, hnone]
  exact finish_eq_nil_iff.mpr (.inl (Nat.zero_le _))

end Rows

namespace Store

open Rows

/-- One of the items of a list, a record by its identity, compares with a bound as an operator
asks. -/
def someItemCompares (op : Comparison) (bound : Value) (value : Value) : Bool :=
  (value.asList?.getD []).any fun item =>
    match (IndexRange.itemKey item).compare? bound with
    | some ordering => op.accepts ordering
    | none => false

/-- A range has a list in it exactly when it has an item that compares with the bound as asked. -/
theorem IndexRange.hits_list {range : IndexRange} (hbound : range.bound.isNull = false)
    {value : Value} (hlist : value.isList = true) :
    range.hits value = someItemCompares range.op range.bound value := by
  obtain ⟨items, rfl⟩ := Value.exists_list_of_isList hlist
  have hitem : ∀ item, range.contains (itemKey item) =
      match (itemKey item).compare? range.bound with
      | some ordering => range.op.accepts ordering
      | none => false := by
    intro item
    cases hkey : itemKey item with
    | null => rw [contains_null, Value.compare?_null_left hbound]
    | _ => rfl
  rw [hits, someItemCompares, ← funext hitem]
  rfl

variable {schema : Schema} {dates : DateStyle} {query : Query} {store : Store}
  {records : List Record} {predicate : Predicate} {field : String} {op : Comparison}
  {value : Value}

/-- A query that no range of an index serves puts records of its table through the pipeline. -/
theorem exists_run_of_no_range (htable : store.table query.entityType = .ok records)
    (hplan : ∀ field range, AccessPlan.ofQuery query ≠ .indexRange field range) :
    ∃ found ⊆ records, store.run schema dates query =
      (Pipeline.ofQuery schema dates query).map fun pipeline => pipeline.run found := by
  obtain ⟨identity, _, hlookup⟩ | ⟨path, op, value, _, _, _, _, hrange⟩ | ⟨filtered, hscan⟩ :=
    AccessPlan.ofQuery_cases query
  · refine ⟨records.filter fun record =>
      (⟨.eq, identity⟩ : IndexRange).hits (record.read [identityField]),
      List.filter_sublist.subset, ?_⟩
    simp only [run, requestOf, hlookup, AccessPlan.request, answer_range htable, ok_bind,
      AccessPlan.complete]
    rfl
  · exact absurd hrange (hplan _ _)
  · refine ⟨records, List.Subset.refl records, ?_⟩
    simp only [run, requestOf, hscan, AccessPlan.request, answer, htable, ok_bind,
      AccessPlan.complete]
    rfl

/-- No range serves a query for an identity, or one whose value is on the left. -/
theorem ofQuery_ne_indexRange (hpredicate : query.predicate = some predicate)
    (h : query.identity ≠ none ∨ predicate = .compare (.literal value) op (.field field))
    (path : String) (range : IndexRange) : AccessPlan.ofQuery query ≠ .indexRange path range := by
  intro hplan
  obtain ⟨_, _, hother⟩ | ⟨_, _, _, hidentity, hsimple, _⟩ | ⟨_, hother⟩ :=
    AccessPlan.ofQuery_cases query
  · cases hplan.symm.trans hother
  · rcases h with hsome | rfl
    · exact hsome hidentity
    · cases Option.some.inj (hpredicate.symm.trans hsimple)
  · cases hplan.symm.trans hother

/-- A field of many values is compared item by item by an index, and not at all by a test. For a
comparison with a value other than null and instants, not for a difference, and a table whose
records have lists at the field, the pipeline returns nothing. A range of the index, which serves
the query if the field is on the left and no identity is asked for, returns the records with an
item that compares as asked, so both agree exactly if the page begins behind all of these.
Otherwise the store returns what the pipeline returns. -/
theorem run_of_lists (schema : Schema) (dates : DateStyle)
    (htable : store.table query.entityType = .ok records)
    (hpredicate : query.predicate = some predicate) (hcompares : predicate.Compares field op value)
    (hnull : value.isNull = false) (hinstant : value.isInstant = false) (hop : op ≠ .neq)
    (hdot : field.toList.contains '.' = false) (htrim : Text.trim field = field)
    (hlists : ∀ record ∈ records, (record.read [field]).isList = true) :
    let memory := (Pipeline.ofQuery schema dates query).map fun pipeline => pipeline.run records
    let found := records.filter fun record => someItemCompares op value (record.read [field])
    memory = (Pipeline.ofQuery schema dates query).map (fun _ => []) ∧
      (query.identity = none → predicate = .simple field op value →
        store.run schema dates query =
            (Pipeline.ofQuery schema dates query).map (fun pipeline => pipeline.finish found) ∧
          (store.run schema dates query = memory ↔
            ∀ pipeline, Pipeline.ofQuery schema dates query = .ok pipeline →
              found.length ≤ query.skip.getD 0 ∨ query.top = some 0)) ∧
      (query.identity ≠ none ∨ predicate = .compare (.literal value) op (.field field) →
        store.run schema dates query = memory) := by
  intro memory found
  have hnothing : ∀ part ⊆ records, ((Pipeline.ofQuery schema dates query).map fun pipeline =>
      pipeline.run part) = (Pipeline.ofQuery schema dates query).map fun _ => [] := by
    intro part hpart
    cases h : Pipeline.ofQuery schema dates query with
    | error fault => rfl
    | ok pipeline =>
      exact congrArg Except.ok (Pipeline.run_of_isList h hpredicate hcompares hdot htrim hinstant
        hop fun record hrecord => hlists record (hpart hrecord))
  have hmemory : memory = (Pipeline.ofQuery schema dates query).map fun _ => [] :=
    hnothing records (List.Subset.refl records)
  rw [hmemory]
  refine ⟨rfl, ?served, ?others⟩
  case served =>
    rintro hidentity rfl
    have hplan : AccessPlan.ofQuery query = .indexRange field ⟨op, value⟩ := by
      rw [ofQuery_of_predicate hidentity hpredicate hnull, hdot]
      rfl
    have hfound : (records.filter fun record =>
        (⟨op, value⟩ : IndexRange).hits (record.read [field])) = found :=
      List.filter_congr fun record hrecord =>
        IndexRange.hits_list hnull (hlists record hrecord)
    have hrun : store.run schema dates query =
        (Pipeline.ofQuery schema dates query).map fun pipeline => pipeline.finish found := by
      rw [run_indexRange schema dates htable hplan, hfound]
    refine ⟨hrun, ?_⟩
    rw [hrun]
    cases h : Pipeline.ofQuery schema dates query with
    | error fault => exact ⟨fun _ _ => nofun, fun _ => rfl⟩
    | ok pipeline =>
      have hempty : pipeline.finish found = [] ↔
          found.length ≤ pipeline.skip.getD 0 ∨ pipeline.top = some 0 :=
        Pipeline.finish_eq_nil_iff
      obtain ⟨hskip, htop⟩ := Pipeline.page_of_ofQuery h
      rw [hskip, htop] at hempty
      simpa [Except.map] using hempty
  case others =>
    intro hother
    obtain ⟨part, hpart, hrun⟩ := exists_run_of_no_range htable
      (ofQuery_ne_indexRange hpredicate hother)
    rw [hrun, hnothing part hpart]

/-- A table of two employees, of whom one has orders: a record and the identity of another. -/
def buyers : List Record :=
  [[("id", .string "e1"), ("orders", .list [.record [("id", .int 3)], .int 7])],
    [("id", .string "e2"), ("orders", .list [])]]

/-- Both have a list of orders. -/
theorem orders_of_mem_buyers {record : Record} (h : record ∈ buyers) :
    (record.read ["orders"]).isList = true := by
  simp only [buyers, List.mem_cons, List.not_mem_nil, or_false] at h
  rcases h with rfl | rfl
  · rfl
  · rfl

/-- A store with that table. -/
def shop : Store := ⟨[("employee", buyers)]⟩

/-- The steps of a query for the employees with an order. -/
def orderSteps : List Step := [.ofType "employee", .filter (.simple "orders" .eq (.int 3))]

/-- The query is built; it compares the orders of the employees and nothing else. -/
theorem exists_order_query :
    ∃ query, (Draft.ofSteps orderSteps).build Sample.schema = .ok query ∧
      shop.table query.entityType = .ok buyers ∧ query.identity = none ∧
      query.predicate = some (.simple "orders" .eq (.int 3)) := by
  obtain ⟨query, hbuild⟩ : ∃ query, (Draft.ofSteps orderSteps).build Sample.schema = .ok query :=
    exists_eq_ok_of_isOk rfl
  obtain ⟨htype, hidentity, hpredicate, _⟩ := Draft.options_of_build hbuild
  have hemployee : "employee" = query.entityType := Option.some.inj htype
  refine ⟨query, hbuild, ?_, hidentity, hpredicate⟩
  rw [← hemployee]
  rfl

theorem run_of_lists_buyers :
    ∃ query, (Draft.ofSteps orderSteps).build Sample.schema = .ok query ∧
      shop.table query.entityType = .ok buyers ∧
      query.predicate = some (.simple "orders" .eq (.int 3)) ∧
      (∀ record ∈ buyers, (record.read ["orders"]).isList = true) ∧
      ((Pipeline.ofQuery Sample.schema .standard query).map fun pipeline =>
          pipeline.run buyers) =
        (Pipeline.ofQuery Sample.schema .standard query).map (fun _ => []) ∧
      shop.run Sample.schema .standard query =
        (Pipeline.ofQuery Sample.schema .standard query).map fun pipeline =>
          pipeline.finish (buyers.filter fun record =>
            someItemCompares .eq (.int 3) (record.read ["orders"])) := by
  obtain ⟨query, hbuild, htable, hidentity, hpredicate⟩ := exists_order_query
  obtain ⟨hmemory, hserved, _⟩ := run_of_lists Sample.schema .standard htable hpredicate (.inl rfl)
    rfl rfl Comparison.noConfusion rfl rfl fun record => orders_of_mem_buyers
  exact ⟨query, hbuild, htable, hpredicate, fun record => orders_of_mem_buyers, hmemory,
    (hserved hidentity rfl).1⟩

/-- One employee has the order, and a test finds none. -/
theorem run_orderSteps_ne :
    ∃ query, (Draft.ofSteps orderSteps).build Sample.schema = .ok query ∧
      shop.table query.entityType = .ok buyers ∧ query.identity = none ∧
      query.predicate = some (.simple "orders" .eq (.int 3)) ∧
      (∀ record ∈ buyers, (record.read ["orders"]).isList = true) ∧
      shop.run Sample.schema .standard query ≠
        (Pipeline.ofQuery Sample.schema .standard query).map fun pipeline =>
          pipeline.run buyers := by
  obtain ⟨query, hbuild, htable, hidentity, hpredicate⟩ := exists_order_query
  have hindexed : ((Draft.ofSteps orderSteps).build Sample.schema >>=
      fun query => (shop.run Sample.schema .standard query).map List.length) = .ok 1 := rfl
  have hpresent : ((Draft.ofSteps orderSteps).build Sample.schema >>=
      fun query => ((Pipeline.ofQuery Sample.schema .standard query).map fun pipeline =>
        pipeline.run buyers).map List.length) = .ok 0 := rfl
  rw [hbuild, ok_bind] at hindexed hpresent
  refine ⟨query, hbuild, htable, hidentity, hpredicate, fun record => orders_of_mem_buyers,
    fun hsame => ?_⟩
  rw [hsame, hpresent] at hindexed
  cases hindexed

end Store

end EntityQuery
