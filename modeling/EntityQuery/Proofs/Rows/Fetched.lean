import EntityQuery.Proofs.Rows.Refetching
import EntityQuery.Proofs.Rows.Sufficiency

/-!
# The rows of what was fetched

A query is answered from what was fetched for it. The shape of the answer lies within what
was fetched, so a record is answered alike before and after fetching, unless the answer shows
a relationship as it stands of which the filter or the order reads some fields: then fetching
cuts the related records down to these. A filter or an order never changes which fields are
answered, except that a query without any choice of fields also answers what they read.
-/

namespace EntityQuery

open SelectTree

namespace Draft

variable {schema : Schema} {draft : Draft} {settings : BuildSettings} {query : Query}

/-- A draft without its filter and its order. -/
def withoutConditions (draft : Draft) : Draft := { draft with predicate := none, order := none }

/-- Without its filter and its order, a draft that builds still builds. The same is asked for,
and what must be fetched is less by what lies along the paths that these read. -/
theorem exists_build_withoutConditions (h : draft.build schema settings = .ok query) :
    ∃ plain, draft.withoutConditions.build schema settings = .ok plain ∧
      plain.selectMode = query.selectMode ∧ plain.selectTree = query.selectTree ∧
      ∀ path, path ≠ [] → (query.fetchTree.covers path = true ↔
        plain.fetchTree.covers path = true ∨ AlongSome draft.referencedPaths path) := by
  obtain ⟨keyName, selectStart, extendStart, trace⟩ := exists_trace_of_build h
  have hplain : draft.withoutConditions.build schema settings =
      .ok { query with predicate := none, order := none, extendTree := extendStart } := by
    have hfault : draft.withoutConditions.fault = none := trace.fault_none
    have hqueried : draft.withoutConditions.entityType = some query.entityType := trace.queried
    rw [build_eq_buildFor hfault hqueried]
    refine bind_eq_ok_iff.mpr ⟨keyName, trace.named, bind_eq_ok_iff.mpr ⟨(), rfl, ?_⟩⟩
    refine bind_eq_ok_iff.mpr ⟨selectStart, trace.projected, ?_⟩
    refine bind_eq_ok_iff.mpr ⟨query.selectTree, trace.selected, ?_⟩
    refine bind_eq_ok_iff.mpr ⟨extendStart, trace.reached, ?_⟩
    refine bind_eq_ok_iff.mpr ⟨extendStart, rfl, pure_eq_ok_iff.mpr ?_⟩
    rw [trace.options]
    rfl
  refine ⟨_, hplain, rfl, rfl, fun path hpath => ?_⟩
  have hkept := tidy_keptByBuilding fun _ => True
  have hextendStart := everywhere_reachTree hkept (fun _ _ _ _ _ _ _ => trivial) trace.reached
    (hkept.everywhere_root _ _ _)
  rw [covers_fetchTree_iff h hpath, covers_fetchTree_iff hplain hpath,
    covers_addMissingPaths trace.extended (tidy_of_build h).1 hextendStart hpath]

/-- The shape of the answer lies within what must be fetched. -/
theorem within_outputTree_fetchTree (h : draft.build schema settings = .ok query) :
    Within query.outputTree query.fetchTree := by
  obtain ⟨hselect, hextend⟩ := tidy_of_build h
  have hmerged : Within query.selectTree query.fetchTree :=
    .merged hselect.inOrder hextend.inOrder
  exact Query.outputTree_of_both (P := fun tree => Within tree query.fetchTree) hmerged
    (.refl (tidy_fetchTree h))

/-- The shape of the answer is tidy. -/
theorem tidy_outputTree (h : draft.build schema settings = .ok query) :
    Everywhere Tidy query.outputTree :=
  Query.outputTree_of_both (tidy_of_build h).1 (tidy_fetchTree h)

end Draft

namespace Rows

/-- Passing over and limiting records goes by their positions. -/
theorem paginate_map (skip top : Option Nat) (change : Record → Record) (records : List Record) :
    paginate skip top (records.map change) = (paginate skip top records).map change := by
  unfold paginate
  cases top <;> simp

/-- The records of a page are among all records. -/
theorem mem_of_mem_paginate {skip top : Option Nat} {records : List Record} {record : Record}
    (h : record ∈ paginate skip top records) : record ∈ records := by
  unfold paginate at h
  cases top with
  | none => exact List.mem_of_mem_drop h
  | some n => exact List.mem_of_mem_drop (List.mem_of_mem_take h)

namespace Pipeline

/-- Changing records in a way that none of the stages notices leaves the rows as they are. -/
theorem run_map {pipeline : Pipeline} {change : Record → Record} {records : List Record}
    (hadmits : ∀ record ∈ records, pipeline.admits (change record) = pipeline.admits record)
    (hcompare : ∀ a b, pipeline.order.compare (change a) (change b) = pipeline.order.compare a b)
    (hshape : ∀ record ∈ records,
      shape pipeline.tree (change record) = shape pipeline.tree record) :
    pipeline.run (records.map change) = pipeline.run records := by
  have hfilter : (records.map change).filter pipeline.admits =
      (records.filter pipeline.admits).map change := by
    rw [List.filter_map]
    exact congrArg _ (List.filter_congr hadmits)
  have hsort : pipeline.order.sort ((records.filter pipeline.admits).map change) =
      (pipeline.order.sort (records.filter pipeline.admits)).map change :=
    stableSort_map _ hcompare _
  rw [run, run, finish, finish, hfilter, hsort, paginate_map, List.map_map]
  refine List.map_congr_left fun record hrecord => hshape record ?_
  have hsorted := mem_of_mem_paginate hrecord
  exact (List.mem_filter.mp ((stableSort_perm _ _).mem_iff.mp hsorted)).1

/-- The last stage of the pipeline of a query shapes the answer. -/
theorem tree_of_ofQuery {schema : Schema} {dates : DateStyle} {query : Query}
    {pipeline : Pipeline} (h : ofQuery schema dates query = .ok pipeline) :
    pipeline.tree = query.outputTree := by
  rw [ofQuery] at h
  obtain ⟨test, _, h⟩ := bind_eq_ok_iff.mp h
  obtain ⟨order, _, h⟩ := bind_eq_ok_iff.mp h
  rw [← pure_eq_ok_iff.mp h]

/-- A record is answered from what was fetched of it as it is answered from the whole record
exactly if what must be fetched leaves whole what the answer keeps as it stands. It always does
if no choice of fields was made, or if the answer follows the relationships that it wants and
that the filter or the order follows. Then the rows of a query are those of the fetched records,
as long as its filter and its order are, too. A filter and an order change the fields of the
answer only if no choice of fields was made, and then add to them what they read. -/
theorem answer_of_fetched {draft : Draft} {schema : Schema} {settings : BuildSettings}
    {query : Query} (hbuild : draft.build schema settings = .ok query) :
    (∀ record, shape query.outputTree (shape query.fetchTree record) =
        shape query.outputTree record ↔ LeavesWhole query.fetchTree query.outputTree record) ∧
      (query.selectMode = .all ∨ followsWith query.outputTree query.fetchTree = true →
        ∀ record, LeavesWhole query.fetchTree query.outputTree record) ∧
      (∀ {dates : DateStyle} {pipeline : Pipeline} {records : List Record},
        schema.NoRelationshipNamed identityField → dates.ReadsNoList →
        ofQuery schema dates query = .ok pipeline →
        (∀ test, pipeline.test = some test → ∀ record ∈ records, test.SearchesNoList record) →
        (∀ record ∈ records, LeavesWhole query.fetchTree query.outputTree record) →
        pipeline.run (records.map (shape query.fetchTree)) = pipeline.run records) ∧
      ∃ plain, draft.withoutConditions.build schema settings = .ok plain ∧
        (query.selectMode ≠ .all → query.outputTree = plain.outputTree) ∧
        (query.selectMode = .all → ∀ path, path ≠ [] →
          (query.outputTree.covers path = true ↔
            plain.outputTree.covers path = true ∨ AlongSome draft.referencedPaths path)) := by
  have hwithin := Draft.within_outputTree_fetchTree hbuild
  have htidy := Draft.tidy_outputTree hbuild
  have hfetched := Draft.tidy_fetchTree hbuild
  have hiff := shape_shape_iff hwithin htidy hfetched
  refine ⟨hiff, ?_, ?_, ?_⟩
  · rintro (hall | hfollows) record
    · rw [Query.outputTree, hall]
      exact leavesWhole_self hfetched record
    · exact leavesWhole_of_followsWith htidy hfetched hfollows record
  · intro dates pipeline records hschema hdates hpipeline hsearch hwhole
    refine run_map ?_ ?_ ?_
    · exact fun record hrecord => admits_shape_fetchTree hbuild hschema hdates hpipeline
        fun test hsome => hsearch test hsome record hrecord
    · exact compare_shape_fetchTree hbuild hschema hpipeline
    · intro record hrecord
      rw [tree_of_ofQuery hpipeline]
      exact (hiff record).mpr (hwhole record hrecord)
  · obtain ⟨plain, hplain, hmode, hselect, hcovers⟩ :=
      Draft.exists_build_withoutConditions hbuild
    refine ⟨plain, hplain, ?_, ?_⟩
    · intro hchosen
      rw [Query.outputTree, Query.outputTree, hmode, hselect]
      cases hkind : query.selectMode with
      | all => exact absurd hkind hchosen
      | projection | explicit => rfl
    · intro hall path hpath
      rw [Query.outputTree, Query.outputTree, hmode, hall]
      exact hcovers path hpath

/-- The steps of a query for the names of the employees with a manager of forty or more, the
oldest employees first, with the names of these managers. -/
def managedSteps : List Step :=
  [.ofType "employee", .select "name, manager.name", .orderBy "age desc",
    .filter (.simple "manager.age" .geq (.int 40))]

/-- An employee with a manager. -/
def employee : Record :=
  [("age", .int 41), ("id", .string "e1"),
    ("manager", .record [("age", .int 50), ("id", .string "e2"), ("name", .string "Olga")]),
    ("name", .string "Ivan")]

/-- The employee and the manager. -/
def managed : List Record :=
  [employee, [("age", .int 50), ("id", .string "e2"), ("name", .string "Olga")]]

theorem answer_of_fetched_managed :
    ∃ query pipeline, (Draft.ofSteps managedSteps).build Sample.schema = .ok query ∧
      ofQuery Sample.schema .standard query = .ok pipeline ∧
      query.effectivePredicate = some (.simple "manager.age" .geq (.int 40)) ∧
      followsWith query.outputTree query.fetchTree = true ∧
      (∀ record, shape query.outputTree (shape query.fetchTree record) =
        shape query.outputTree record) ∧
      pipeline.run (managed.map (shape query.fetchTree)) = pipeline.run managed ∧
      ∃ plain, (Draft.ofSteps managedSteps).withoutConditions.build Sample.schema = .ok plain ∧
        query.outputTree = plain.outputTree := by
  obtain ⟨pipeline, hrun⟩ : ∃ pipeline, ((Draft.ofSteps managedSteps).build Sample.schema).bind
      (ofQuery Sample.schema .standard) = .ok pipeline :=
    exists_eq_ok_of_isOk (by decide +kernel)
  obtain ⟨query, hbuild, hpipeline⟩ := bind_eq_ok_iff.mp hrun
  have hfollows : ((Draft.ofSteps managedSteps).build Sample.schema).map
      (fun query => followsWith query.outputTree query.fetchTree) = .ok true := by
    decide +kernel
  rw [hbuild] at hfollows
  have hfollows := Except.ok.inj hfollows
  obtain ⟨_, hidentity, hpredicate, _, hmode⟩ := Draft.options_of_build hbuild
  have hchosen : query.selectMode ≠ .all := by
    rw [hmode]
    decide +kernel
  have hfilter : query.effectivePredicate = some (.simple "manager.age" .geq (.int 40)) := by
    have hparse : OrderClause.parse "age desc" = .ok ⟨[⟨"age", some .descending⟩]⟩ := by
      decide +kernel
    rw [Query.effectivePredicate, Query.identityPredicate, hidentity, hpredicate]
    simp [Draft.ofSteps, Draft.steps, Draft.step, Draft.attempt, Draft.addPredicate,
      Predicate.conjoin?, managedSteps, hparse, Except.map]
  have hsearch : ∀ test, pipeline.test = some test →
      ∀ record ∈ managed, test.SearchesNoList record := by
    intro test hsome record _
    obtain ⟨htest, _, _⟩ := exists_stages_of_ofQuery hpipeline
    rw [hfilter, hsome] at htest
    obtain ⟨found, hfound, heq⟩ := map_eq_ok_iff.mp htest
    obtain ⟨segments, _, rfl⟩ := Test.ofPredicate_simple hfound
    obtain rfl := Option.some.inj heq
    trivial
  obtain ⟨hiff, hwhole, hrows, plain, hplain, hsame, _⟩ := answer_of_fetched hbuild
  have hwhole := hwhole (.inr hfollows)
  exact ⟨query, pipeline, hbuild, hpipeline, hfilter, hfollows,
    fun record => (hiff record).mpr (hwhole record),
    hrows Sample.noRelationshipNamed_identityField DateStyle.readsNoList_standard hpipeline
      hsearch fun record _ => hwhole record,
    plain, hplain, hsame hchosen⟩

/-- The steps of a query for the managers of the employees whose manager has a given name. The
answer keeps the managers as they stand, and the filter makes their names be fetched. -/
def namedManagerSteps : List Step :=
  [.ofType "employee", .select "manager", .filter (.simple "manager.name" .eq (.string "Olga"))]

/-- A record is given with a manager who is given with an age. -/
def givesManagersAge (record : Record) : Bool :=
  ((record.get? "manager").bind Value.asRecord?).any (Entries.contains · "age")

/-- From what was fetched of an employee the manager is answered without an age, and from the
whole record with one. -/
theorem answer_of_fetched_ne :
    ∃ query, (Draft.ofSteps namedManagerSteps).build Sample.schema = .ok query ∧
      shape query.outputTree (shape query.fetchTree employee) ≠
        shape query.outputTree employee := by
  obtain ⟨query, hbuild⟩ : ∃ query,
      (Draft.ofSteps namedManagerSteps).build Sample.schema = .ok query :=
    exists_eq_ok_of_isOk (by decide +kernel)
  have hages : ((Draft.ofSteps namedManagerSteps).build Sample.schema).map (fun query =>
      (givesManagersAge (shape query.outputTree (shape query.fetchTree employee)),
        givesManagersAge (shape query.outputTree employee))) = .ok (false, true) := by
    decide +kernel
  rw [hbuild] at hages
  obtain ⟨hfetched, hwhole⟩ := Prod.mk.inj (Except.ok.inj hages)
  refine ⟨query, hbuild, fun hsame => ?_⟩
  rw [hsame, hwhole] at hfetched
  cases hfetched

end Pipeline

end Rows

end EntityQuery
