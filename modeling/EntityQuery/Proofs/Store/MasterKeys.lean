import EntityQuery.Proofs.Query.Filters
import EntityQuery.Proofs.Remote.MasterKeys
import EntityQuery.Proofs.Remote.Meaning
import EntityQuery.Proofs.Rows.Chains
import EntityQuery.Proofs.Store.Agreement

/-!
# Stores and the keys of masters

A store serves the comparison of an own relationship by an index of the identities of related
records, and goes through the table for the comparison of the identity below it. Both choose the
same records, and answer alike unless every field is wanted and no relationship is followed: then
only the path of the identity makes the related record be fetched, with nothing but its identity.
-/

namespace EntityQuery

namespace Store

open Rows

/-- The records of a table that a plan chooses: those in a range, those that are admitted, or
those that are looked up and admitted. -/
def AccessPlan.chosen (plan : AccessPlan) (admits : Record → Bool) (records : List Record) :
    List Record :=
  match plan with
  | indexRange field range => records.filter fun record => range.hits (record.read [field])
  | scan _ => records.filter admits
  | lookup identity _ =>
    (records.filter fun record =>
      (⟨.eq, identity⟩ : IndexRange).hits (record.read [identityField])).filter admits

/-- The records that a query chooses from a store, in order and cut to the wanted page. -/
def chosen (store : Store) (schema : Schema) (query : Query) (admits : Record → Bool) :
    Except Fault (List Record) := do
  let order ← Order.ofClause? schema query.entityType query.order
  let records ← store.table query.entityType
  return paginate query.skip query.top
    (order.sort ((AccessPlan.ofQuery query).chosen admits records))

/-- Running a query shapes the records that it chooses. -/
theorem run_eq_map_chosen (store : Store) (dates : DateStyle) {schema : Schema} {query : Query}
    {test : Test} {predicate : Predicate} (hfilter : query.effectivePredicate = some predicate)
    (htest : Test.ofPredicate schema predicate query.entityType = .ok test) :
    store.run schema dates query =
      (store.chosen schema query (test.passes dates)).map
        (·.map (shape query.outputTree)) := by
  have htest? : Test.ofPredicate? schema query.entityType query.effectivePredicate =
      .ok (some test) := by
    rw [hfilter, Test.ofPredicate?, htest]
    rfl
  rw [run, Pipeline.ofQuery, htest?, ok_bind, chosen]
  cases Order.ofClause? schema query.entityType query.order with
  | error fault => rfl
  | ok order =>
    simp only [ok_bind, pure_bind, requestOf]
    cases htable : store.table query.entityType with
    | error fault =>
      cases hplan : AccessPlan.ofQuery query <;>
        simp only [AccessPlan.request, answer, htable] <;> rfl
    | ok records =>
      cases hplan : AccessPlan.ofQuery query <;>
        simp only [AccessPlan.request, answer, htable] <;> rfl

variable {schema : Schema} {type : String}

/-- In a type with a key, whatever can be tested can be tested with an identity besides, and
verdicts that agree go on agreeing. -/
theorem exists_tests_withIdentity {key : Field} (hkey : schema.key type = .ok key)
    {predicate other : Predicate} {test otherTest : Test}
    (htest : Test.ofPredicate schema predicate type = .ok test)
    (hother : Test.ofPredicate schema other type = .ok otherTest) (identity? : Option Value) :
    ∃ joined otherJoined,
      Test.ofPredicate schema (withIdentity identity? predicate) type = .ok joined ∧
        Test.ofPredicate schema (withIdentity identity? other) type = .ok otherJoined ∧
        ∀ dates record, otherTest.passes dates record = test.passes dates record →
          otherJoined.passes dates record = joined.passes dates record := by
  cases identity? with
  | none => exact ⟨test, otherTest, htest, hother, fun _ _ h => h⟩
  | some identity =>
    have hend : schema.resolveEnd type identityField = .ok ([key], key) := by
      refine Schema.resolveEnd_eq_ok_iff.mpr ⟨[identityField], pathSegments_identityField, ?_, rfl⟩
      rw [Schema.walk, Schema.resolve, if_pos rfl, hkey]
      rfl
    have hidentity : (Predicate.simple identityField .eq identity).HasTest schema type :=
      ⟨_, ofPredicate_simple_of_resolveEnd hend pathSegments_identityField⟩
    obtain ⟨joined, hjoined⟩ := Predicate.HasTest.join ⟨test, htest⟩ hidentity .and
    obtain ⟨otherJoined, hotherJoined⟩ := Predicate.HasTest.join ⟨otherTest, hother⟩ hidentity .and
    obtain ⟨left, right, hleft, hright, hpasses⟩ := Test.ofPredicate_join hjoined
    obtain ⟨otherLeft, otherRight, hotherLeft, hotherRight, hotherPasses⟩ :=
      Test.ofPredicate_join hotherJoined
    obtain rfl := Except.ok.inj (htest.symm.trans hleft)
    obtain rfl := Except.ok.inj (hother.symm.trans hotherLeft)
    obtain rfl := Except.ok.inj (hright.symm.trans hotherRight)
    refine ⟨joined, otherJoined, hjoined, hotherJoined, fun dates record hsame => ?_⟩
    rw [hpasses, hotherPasses, hsame]

/-- Queries that differ in their filters and in what these need choose the same records if their
plans let the same records through. -/
theorem chosen_congr {store : Store} {first second : Query} {predicate? : Option Predicate}
    {extendTree : SelectTree}
    (hsecond : second = { first with predicate := predicate?, extendTree := extendTree })
    {admits otherAdmits : Record → Bool}
    (h : ∀ records, store.table first.entityType = .ok records →
      (AccessPlan.ofQuery second).chosen otherAdmits records =
        (AccessPlan.ofQuery first).chosen admits records) :
    store.chosen schema second otherAdmits = store.chosen schema first admits := by
  have htype : second.entityType = first.entityType := by rw [hsecond]
  have horder : second.order = first.order := by rw [hsecond]
  have hskip : second.skip = first.skip := by rw [hsecond]
  have htop : second.top = first.top := by rw [hsecond]
  rw [chosen, chosen, htype, horder, hskip, htop]
  cases Order.ofClause? schema first.entityType first.order with
  | error fault => rfl
  | ok order =>
    cases htable : store.table first.entityType with
    | error fault => rfl
    | ok records =>
      rw [ok_bind, ok_bind, ok_bind, ok_bind, h records htable]

/-- There is a dot in the path of an identity. -/
theorem contains_dot_identityPath (path : String) :
    (identityPath path).toList.contains '.' = true := by
  simp [identityPath, String.toList_append]

section

variable {context : Remote.Context} {path : String} {chain : List Field} {field : Field}
  {op : Comparison} {value : Value} {draft : Draft} {settings : BuildSettings}
  {first second : Query}

/-- What an index has of a relationship in a range are the records whose identity passes the
test. -/
theorem hits_eq_passes (dates : DateStyle) (hvalue : value.isNull = false) (hop : op ≠ .neq)
    (hinstant : value.isInstant = false) {record : Record} (hlinks : record.HasLinks [path])
    (hrecord : (record.read [path]).isInstant = false) :
    (⟨op, value⟩ : IndexRange).hits (record.read [path]) =
      (Test.compare (.path [path]) op (.fixed value) .values).passes dates record := by
  have hscalar := (read_append_identityField (List.cons_ne_nil _ _) hlinks).2
  have hlist : (record.read [path]).isList = false := by
    cases hread : record.read [path] with
    | list items =>
      rw [hread] at hscalar
      cases hscalar
    | _ => rfl
  rw [IndexRange.hits_of_not_list _ hlist,
    IndexRange.contains_eq_holds dates hvalue hop hinstant hrecord]
  rfl

/-- A query that compares an own relationship and one that compares the identity below it choose
the same records, although the first is served by an index and the second goes through the
table. -/
theorem run_identityPath (hend : schema.resolveEnd type path = .ok (chain, field))
    (hkind : field.kind = .belongsTo) {targetKey : Field}
    (htarget : schema.key field.target = .ok targetKey) (hvalue : value.isNull = false)
    (hdot : path.toList.contains '.' = false) (htrim : Text.trim path = path) (hop : op ≠ .neq)
    (hinstant : value.isInstant = false) (htype : draft.entityType = some type)
    (hfirst : (draft.filteredBy (.simple path op value)).build schema settings = .ok first)
    (hsecond : (draft.filteredBy (.simple (identityPath path) op value)).build schema settings =
      .ok second)
    {store : Store} (dates : DateStyle)
    (hrecords : ∀ records, store.table type = .ok records → ∀ record ∈ records,
      record.HasLinks [path] ∧ (record.read [path]).isInstant = false) :
    ∃ chosen : Except Fault (List Record),
      store.run schema dates first = chosen.map (·.map (shape first.outputTree)) ∧
        store.run schema dates second = chosen.map (·.map (shape second.outputTree)) := by
  have hsame := Draft.eq_of_build_filteredBy hfirst hsecond
  have hsecondType : second.entityType = first.entityType := by rw [hsame]
  have hsecondIdentity : second.identity = first.identity := by rw [hsame]
  obtain ⟨hqueried, _, hpredicate, _⟩ := Draft.options_of_build hfirst
  obtain ⟨_, _, hotherPredicate, _⟩ := Draft.options_of_build hsecond
  obtain rfl : first.entityType = type := Option.some.inj (hqueried.symm.trans htype)
  obtain ⟨_, _, _, trace⟩ := Draft.exists_trace_of_build hfirst
  obtain ⟨key, hkey, _⟩ := bind_eq_ok_iff.mp trace.named
  obtain ⟨segments, hsegments, hwalk, hlast⟩ := Schema.resolveEnd_eq_ok_iff.mp hend
  have hone : segments = [path] := by rw [Schema.pathSegments_of_no_dot hdot hsegments, htrim]
  subst hone
  have htest : Test.ofPredicate schema (.simple path op value) first.entityType = _ :=
    ofPredicate_simple_of_resolveEnd hend hsegments
  have hkeyTest : Test.ofPredicate schema (.simple (identityPath path) op value)
      first.entityType = _ :=
    ofPredicate_simple_of_resolveEnd (Schema.resolveEnd_identityPath hend hkind htarget)
      (Schema.pathSegments_identityPath hsegments)
  obtain ⟨joined, keyJoined, hjoined, hkeyJoined, hverdicts⟩ :=
    exists_tests_withIdentity hkey htest hkeyTest first.identity
  have hpasses : ∀ record : Record, record.HasLinks [path] →
      keyJoined.passes dates record = joined.passes dates record := fun record hlinks =>
    hverdicts dates record (passes_identityPath (List.cons_ne_nil _ _) hlinks dates)
  have hfirstRun := run_eq_map_chosen store dates (effectivePredicate_eq hpredicate) hjoined
  have hsecondRun := run_eq_map_chosen store dates (effectivePredicate_eq hotherPredicate)
    (by rwa [hsecondIdentity, hsecondType])
  refine ⟨_, hfirstRun, hsecondRun.trans (congrArg _ (chosen_congr hsame fun records htable => ?_))⟩
  have hlinks := hrecords records htable
  cases hidentity : first.identity with
  | some identity =>
    have hplan : AccessPlan.ofQuery first = .lookup identity first.predicate.isSome := by
      rw [AccessPlan.ofQuery, hidentity]
    have hotherPlan : AccessPlan.ofQuery second = .lookup identity second.predicate.isSome := by
      rw [AccessPlan.ofQuery, hsecondIdentity, hidentity]
    rw [hplan, hotherPlan]
    refine List.filter_congr fun record hrecord => ?_
    exact hpasses record (hlinks record (List.mem_filter.mp hrecord).1).1
  | none =>
    have hplan := ofQuery_of_predicate hidentity hpredicate hvalue
    have hotherPlan := ofQuery_of_predicate (hsecondIdentity.trans hidentity) hotherPredicate hvalue
    rw [hdot] at hplan
    rw [contains_dot_identityPath] at hotherPlan
    rw [hidentity] at hjoined
    obtain rfl := Except.ok.inj (htest.symm.trans hjoined)
    rw [hplan, hotherPlan]
    refine List.filter_congr fun record hrecord => ?_
    obtain ⟨hlink, hread⟩ := hlinks record hrecord
    rw [hpasses record hlink]
    exact (hits_eq_passes dates hvalue hop hinstant hlink hread).symm

/-- A relationship to one record stands for the key of that record where it is compared with a
value: the comparison of the key below it is put into the same words, and has the same verdict on
every record in which the relationships along the path are missing, null, or records whose
identity is missing or a scalar. A store chooses the same records for an own relationship and
for the key below it, unless a difference is asked for or an instant is compared, although it
serves the first by an index and goes through the table for the second. The answers are the same
if fields were chosen or relationships are followed. -/
theorem relationship_stands_for_key
    (hend : context.schema.resolveEnd type path = .ok (chain, field))
    (hkind : field.kind = .belongsTo)
    (hregistered : (context.schema.lineage field.target).missing = none)
    (hvalue : value.isNull = false) :
    context.filterText type (.simple (identityPath path) op value) =
        context.filterText type (.simple path op value) ∧
      (∃ test keyTest,
        Test.ofPredicate context.schema (.simple path op value) type = .ok test ∧
          Test.ofPredicate context.schema (.simple (identityPath path) op value) type =
            .ok keyTest ∧
          ∀ segments, Schema.pathSegments path = .ok segments → ∀ record : Record,
            record.HasLinks segments → ∀ dates,
              keyTest.passes dates record = test.passes dates record) ∧
      (path.toList.contains '.' = false → Text.trim path = path → op ≠ .neq →
        value.isInstant = false →
        ∀ (draft : Draft) (settings : BuildSettings) (first second : Query),
          draft.entityType = some type →
          (draft.filteredBy (.simple path op value)).build context.schema settings = .ok first →
          (draft.filteredBy (.simple (identityPath path) op value)).build context.schema
            settings = .ok second →
          (draft.identity = none → AccessPlan.ofQuery first = .indexRange path ⟨op, value⟩ ∧
            AccessPlan.ofQuery second = .scan true) ∧
          ∀ (store : Store) dates,
            (∀ records, store.table type = .ok records → ∀ record ∈ records,
              record.HasLinks [path] ∧ (record.read [path]).isInstant = false) →
            (∃ chosen : Except Fault (List Record),
              store.run context.schema dates first =
                  chosen.map (·.map (shape first.outputTree)) ∧
                store.run context.schema dates second =
                  chosen.map (·.map (shape second.outputTree))) ∧
            (settings.expandDepth ≠ 0 ∨ draft.selectMode ≠ .all →
              store.run context.schema dates second = store.run context.schema dates first)) := by
  obtain ⟨key, hkey⟩ := Schema.exists_key_of_missing hregistered
  obtain ⟨segments, hsegments, hwalk, hlast⟩ := Schema.resolveEnd_eq_ok_iff.mp hend
  refine ⟨Remote.Context.filterText_identityPath hend hkind hkey op hvalue, ⟨_, _,
    ofPredicate_simple_of_resolveEnd hend hsegments,
    ofPredicate_simple_of_resolveEnd (Schema.resolveEnd_identityPath hend hkind hkey)
      (Schema.pathSegments_identityPath hsegments), ?_⟩, ?_⟩
  · rintro others hothers record hlinks dates
    obtain rfl := Except.ok.inj (hsegments.symm.trans hothers)
    exact passes_identityPath (Schema.pathSegments_ne_nil hsegments) hlinks dates
  · intro hdot htrim hop hinstant draft settings first second htype hfirst hsecond
    obtain ⟨hqueried, hidentity, hpredicate, _⟩ := Draft.options_of_build hfirst
    obtain ⟨_, hotherIdentity, hotherPredicate, _⟩ := Draft.options_of_build hsecond
    refine ⟨fun hnone => ⟨?_, ?_⟩, fun store dates hrecords => ?_⟩
    · rw [ofQuery_of_predicate (hidentity.trans hnone) hpredicate hvalue, hdot]
      rfl
    · rw [ofQuery_of_predicate (hotherIdentity.trans hnone) hotherPredicate hvalue,
        contains_dot_identityPath]
      rfl
    · obtain ⟨chosen, hfirstRun, hsecondRun⟩ := run_identityPath hend hkind hkey hvalue hdot htrim
        hop hinstant htype hfirst hsecond dates hrecords
      refine ⟨⟨chosen, hfirstRun, hsecondRun⟩, fun hshape => ?_⟩
      have hone : segments = [path] := by
        rw [Schema.pathSegments_of_no_dot hdot hsegments, htrim]
      subst hone
      obtain rfl : first.entityType = type := Option.some.inj (hqueried.symm.trans htype)
      obtain ⟨found, hfound, hchain⟩ := bind_eq_ok_iff.mp hwalk
      obtain rfl := pure_eq_ok_iff.mp hchain
      obtain rfl : found = field := Option.some.inj hlast
      have hrelationship : found.isRelationship = true := by
        rw [Field.isRelationship, hkind]
        rfl
      rw [hfirstRun, hsecondRun, Draft.outputTree_eq_of_build_filteredBy hfirst hsecond hsegments
        (Schema.pathSegments_identityPath hsegments) hfound hrelationship hshape]

end

/-- A table of an employee with a manager and of one without. -/
def team : List Record :=
  [[("id", .string "e1"), ("manager", .record [("id", .string "e2"), ("name", .string "Olga")])],
    [("id", .string "e2"), ("manager", .null)]]

/-- The managers of the team are records with an identity or missing, and their identities are
no instants. -/
theorem hasLinks_of_mem_team {record : Record} (h : record ∈ team) :
    record.HasLinks ["manager"] ∧ (record.read ["manager"]).isInstant = false := by
  simp only [team, List.mem_cons, List.not_mem_nil, or_false] at h
  rcases h with rfl | rfl
  · exact ⟨⟨rfl, trivial⟩, rfl⟩
  · exact ⟨trivial, rfl⟩

/-- A store with that table. -/
def office : Store := ⟨[("employee", team)]⟩

/-- The draft of a query for the employees with a choice of fields or without. -/
def employeesDraft (fields : List String) : Draft :=
  { entityType := some "employee", select := fields }

/-- The manager of an employee stands for the key of the manager. -/
theorem relationship_stands_for_key_manager :
    Remote.Context.sample.filterText "employee" (.simple "manager" .eq (.string "e2")) =
        .ok "Manager/id eq e2" ∧
      Remote.Context.sample.filterText "employee" (.simple "manager.id" .eq (.string "e2")) =
        .ok "Manager/id eq e2" ∧
      ∃ first second,
        ((employeesDraft ["name"]).filteredBy (.simple "manager" .eq (.string "e2"))).build
            Sample.schema = .ok first ∧
          ((employeesDraft ["name"]).filteredBy (.simple "manager.id" .eq (.string "e2"))).build
            Sample.schema = .ok second ∧
          AccessPlan.ofQuery first = .indexRange "manager" ⟨.eq, .string "e2"⟩ ∧
          AccessPlan.ofQuery second = .scan true ∧
          office.run Sample.schema .standard second = office.run Sample.schema .standard first := by
  have hend : Sample.schema.resolveEnd "employee" "manager" =
      .ok ([.related "employee" { name := "manager", kind := .belongsTo, target := "employee" }],
        .related "employee" { name := "manager", kind := .belongsTo, target := "employee" }) := by
    decide +kernel
  have hkey : identityPath "manager" = "manager.id" := by decide +kernel
  obtain ⟨hwords, _, hlocal⟩ := @relationship_stands_for_key "employee" Remote.Context.sample
    "manager" _ _ .eq (.string "e2") hend rfl (by decide +kernel) rfl
  rw [hkey] at hwords hlocal
  have htext : Remote.Context.sample.filterText "employee"
      (.simple "manager" .eq (.string "e2")) = .ok "Manager/id eq e2" := by
    decide +kernel
  obtain ⟨first, hfirst⟩ : ∃ first, ((employeesDraft ["name"]).filteredBy
      (.simple "manager" .eq (.string "e2"))).build Sample.schema = .ok first :=
    exists_eq_ok_of_isOk (by decide +kernel)
  obtain ⟨second, hsecond⟩ : ∃ second, ((employeesDraft ["name"]).filteredBy
      (.simple "manager.id" .eq (.string "e2"))).build Sample.schema = .ok second :=
    exists_eq_ok_of_isOk (by decide +kernel)
  obtain ⟨hplans, hruns⟩ := hlocal (by decide) (by decide +kernel) Comparison.noConfusion rfl
    (employeesDraft ["name"]) {} first second rfl hfirst hsecond
  obtain ⟨hindex, hscan⟩ := hplans rfl
  have hrecords : ∀ records, office.table "employee" = .ok records → ∀ record ∈ records,
      record.HasLinks ["manager"] ∧ (record.read ["manager"]).isInstant = false := by
    intro records htable record hrecord
    obtain rfl : team = records := Except.ok.inj htable
    exact hasLinks_of_mem_team hrecord
  exact ⟨htext, hwords.trans htext, first, second, hfirst, hsecond, hindex, hscan,
    (hruns office .standard hrecords).2 (.inr SelectMode.noConfusion)⟩

/-- The names of the fields with which the manager of a record is given. -/
def managerFields (record : Record) : Option (List String) :=
  ((record.get? "manager").bind Value.asRecord?).map (·.map Prod.fst)

/-- If every field is wanted and no relationship is followed, the manager is answered as it
stands where the manager is compared, and with nothing but its key where that is compared. -/
theorem run_manager_ne :
    (∀ record ∈ team, record.HasLinks ["manager"] ∧
        (record.read ["manager"]).isInstant = false) ∧
      ∃ first second,
        ((employeesDraft []).filteredBy (.simple "manager" .eq (.string "e2"))).build
            Sample.schema ⟨0⟩ = .ok first ∧
          ((employeesDraft []).filteredBy (.simple "manager.id" .eq (.string "e2"))).build
            Sample.schema ⟨0⟩ = .ok second ∧
          (office.run Sample.schema .standard first).map (·.map managerFields) =
            .ok [some ["id", "name"]] ∧
          (office.run Sample.schema .standard second).map (·.map managerFields) =
            .ok [some ["id"]] ∧
          office.run Sample.schema .standard second ≠
            office.run Sample.schema .standard first := by
  have hfirstRun : (((employeesDraft []).filteredBy (.simple "manager" .eq (.string "e2"))).build
      Sample.schema ⟨0⟩ >>= fun query =>
        (office.run Sample.schema .standard query).map (·.map managerFields)) =
      .ok [some ["id", "name"]] := by
    decide +kernel
  have hsecondRun : (((employeesDraft []).filteredBy
      (.simple "manager.id" .eq (.string "e2"))).build Sample.schema ⟨0⟩ >>= fun query =>
        (office.run Sample.schema .standard query).map (·.map managerFields)) =
      .ok [some ["id"]] := by
    decide +kernel
  obtain ⟨first, hfirst, hfirstRun⟩ := bind_eq_ok_iff.mp hfirstRun
  obtain ⟨second, hsecond, hsecondRun⟩ := bind_eq_ok_iff.mp hsecondRun
  refine ⟨fun record => hasLinks_of_mem_team, first, second, hfirst, hsecond, hfirstRun,
    hsecondRun, fun hsame => ?_⟩
  rw [hsame, hfirstRun] at hsecondRun
  cases hsecondRun

end Store

end EntityQuery
