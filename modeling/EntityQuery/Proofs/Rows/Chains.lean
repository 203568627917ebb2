import EntityQuery.Proofs.Query.Conditions
import EntityQuery.Proofs.Rows.Conjunction

/-!
# Chains of conditions

Conditions that are joined by one connective, in whatever grouping and order, have a test
exactly when each of them has one, and a record matches the whole by the verdicts on the
conditions alone. So the filter that a query is run with is the conjunction of what its steps
asked for, however the groups in it were extended or nested.
-/

namespace EntityQuery

open Rows

namespace Predicate

variable {schema : Schema} {type : String} {style : DateStyle} {record : Record}
  {left right : Predicate}

/-- A predicate can be tested on the records of a type. -/
def HasTest (schema : Schema) (type : String) (predicate : Predicate) : Prop :=
  ∃ test, Test.ofPredicate schema predicate type = .ok test

/-- A record matches a predicate: it passes the test of the predicate. -/
def Matches (schema : Schema) (type : String) (style : DateStyle) (record : Record)
    (predicate : Predicate) : Prop :=
  ∃ test, Test.ofPredicate schema predicate type = .ok test ∧ test.passes style record = true

/-- A predicate that a record matches can be tested. -/
theorem Matches.hasTest {predicate : Predicate} (h : predicate.Matches schema type style record) :
    predicate.HasTest schema type := by
  obtain ⟨test, htest, _⟩ := h
  exact ⟨test, htest⟩

/-- A record that matches passes whichever test was found. -/
theorem matches_iff_passes {predicate : Predicate} {test : Test}
    (h : Test.ofPredicate schema predicate type = .ok test) :
    predicate.Matches schema type style record ↔ test.passes style record = true := by
  constructor
  · rintro ⟨found, hfound, hpasses⟩
    obtain rfl := Except.ok.inj (h.symm.trans hfound)
    exact hpasses
  · intro hpasses
    exact ⟨test, h, hpasses⟩

/-- Two predicates that can be tested can be tested together. -/
theorem HasTest.join (hleft : left.HasTest schema type) (hright : right.HasTest schema type)
    (connective : Connective) : (join connective left right).HasTest schema type := by
  obtain ⟨leftTest, hleft⟩ := hleft
  obtain ⟨rightTest, hright⟩ := hright
  have hlast : Test.ofMembers schema [right] type = .ok [rightTest] :=
    Test.ofMembers_singleton_eq_ok_iff.mpr ⟨rightTest, hright, rfl⟩
  have hpair : (group connective [left, right]).HasTest schema type := by
    refine ⟨_, Test.ofPredicate_group_eq_ok_iff.mpr ⟨[leftTest, rightTest], ?_, rfl⟩⟩
    exact Test.ofMembers_cons_eq_ok_iff.mpr ⟨leftTest, hleft, [rightTest], hlast, rfl⟩
  cases left with
  | group inner members =>
    by_cases hinner : inner = connective
    · simp only [Predicate.join, hinner, if_true]
      obtain ⟨tests, htests, _⟩ := Test.ofPredicate_group_eq_ok_iff.mp hleft
      refine ⟨_, Test.ofPredicate_group_eq_ok_iff.mpr ⟨tests ++ [rightTest], ?_, rfl⟩⟩
      exact Test.ofMembers_append_eq_ok_iff.mpr ⟨tests, htests, [rightTest], hlast, rfl⟩
    · simp only [Predicate.join, hinner, if_false]
      exact hpair
  | _ => exact hpair

/-- A joined predicate can be tested exactly when both parts can. -/
theorem hasTest_join_iff {connective : Connective} :
    (join connective left right).HasTest schema type ↔
      left.HasTest schema type ∧ right.HasTest schema type := by
  constructor
  · rintro ⟨test, htest⟩
    obtain ⟨leftTest, rightTest, hleft, hright, _⟩ := Test.ofPredicate_join htest
    exact ⟨⟨leftTest, hleft⟩, ⟨rightTest, hright⟩⟩
  · rintro ⟨hleft, hright⟩
    exact hleft.join hright connective

/-- A record matches both predicates together exactly when it matches each: the tests whose verdicts
are compared come from either side. -/
theorem matches_and_iff :
    (left.and right).Matches schema type style record ↔
      left.Matches schema type style record ∧ right.Matches schema type style record := by
  have hverdict : (left.and right).HasTest schema type →
      ((left.and right).Matches schema type style record ↔
        left.Matches schema type style record ∧ right.Matches schema type style record) := by
    rintro ⟨test, htest⟩
    obtain ⟨leftTest, rightTest, hleft, hright, hpasses⟩ := Test.ofPredicate_join htest
    rw [matches_iff_passes htest, matches_iff_passes hleft, matches_iff_passes hright, hpasses]
    exact Bool.and_eq_true_iff
  constructor
  · intro h
    exact (hverdict h.hasTest).mp h
  · intro h
    exact (hverdict (hasTest_join_iff.mpr ⟨h.1.hasTest, h.2.hasTest⟩)).mpr h

/-- A record matches one of two predicates that can be tested together exactly when it matches
one of them. -/
theorem matches_or_iff (h : (left.or right).HasTest schema type) :
    (left.or right).Matches schema type style record ↔
      left.Matches schema type style record ∨ right.Matches schema type style record := by
  obtain ⟨test, htest⟩ := h
  obtain ⟨leftTest, rightTest, hleft, hright, hpasses⟩ := Test.ofPredicate_join htest
  rw [matches_iff_passes htest, matches_iff_passes hleft, matches_iff_passes hright, hpasses]
  exact Bool.or_eq_true_iff

/-- A chain of conditions can be tested exactly when each of them can. -/
theorem hasTest_foldl_and_iff {conditions : List Predicate} :
    (conditions.foldl Predicate.and left).HasTest schema type ↔
      ∀ condition ∈ left :: conditions, condition.HasTest schema type := by
  induction conditions generalizing left with
  | nil => simp
  | cons condition conditions ih =>
    rw [List.foldl_cons, ih]
    simp only [List.forall_mem_cons, and_assoc, Predicate.and, hasTest_join_iff]

/-- A record matches a chain of conditions exactly when it matches each of them. -/
theorem matches_foldl_and_iff {conditions : List Predicate} :
    (conditions.foldl Predicate.and left).Matches schema type style record ↔
      ∀ condition ∈ left :: conditions, condition.Matches schema type style record := by
  induction conditions generalizing left with
  | nil => simp
  | cons condition conditions ih =>
    rw [List.foldl_cons, ih]
    simp only [List.forall_mem_cons, and_assoc, matches_and_iff]

end Predicate

/-- A grouping of conditions that are joined by one connective. -/
inductive Grouping where
  /-- A condition by itself. -/
  | one (condition : Predicate)
  /-- Two groupings, joined. -/
  | two (left right : Grouping)

namespace Grouping

variable {schema : Schema} {type : String} {style : DateStyle} {record : Record}

/-- The conditions, from left to right. -/
def conditions : Grouping → List Predicate
  | one condition => [condition]
  | two left right => left.conditions ++ right.conditions

/-- The predicate that joins the conditions. -/
def joined (connective : Connective) : Grouping → Predicate
  | one condition => condition
  | two left right => (left.joined connective).join connective (right.joined connective)

/-- Conditions can be tested together exactly when each of them can. -/
theorem hasTest_joined_iff {connective : Connective} {grouping : Grouping} :
    (grouping.joined connective).HasTest schema type ↔
      ∀ condition ∈ grouping.conditions, condition.HasTest schema type := by
  induction grouping with
  | one condition => simp [joined, conditions]
  | two left right hleft hright =>
    rw [joined, Predicate.hasTest_join_iff, hleft, hright, conditions, List.forall_mem_append]

/-- A record matches the conditions together exactly when it matches each. -/
theorem matches_joined_and_iff {grouping : Grouping} :
    (grouping.joined .and).Matches schema type style record ↔
      ∀ condition ∈ grouping.conditions, condition.Matches schema type style record := by
  induction grouping with
  | one condition => simp [joined, conditions]
  | two left right hleft hright =>
    rw [conditions, List.forall_mem_append, ← hleft, ← hright]
    exact Predicate.matches_and_iff

/-- A record matches one of the conditions, which can be tested together, exactly when it
matches their disjunction. -/
theorem matches_joined_or_iff {grouping : Grouping}
    (h : (grouping.joined .or).HasTest schema type) :
    (grouping.joined .or).Matches schema type style record ↔
      ∃ condition ∈ grouping.conditions, condition.Matches schema type style record := by
  induction grouping with
  | one condition => simp [joined, conditions]
  | two left right hleft hright =>
    obtain ⟨hfirst, hsecond⟩ := Predicate.hasTest_join_iff.mp h
    have hparts : (∃ condition ∈ (two left right).conditions,
        condition.Matches schema type style record) ↔
        (left.joined .or).Matches schema type style record ∨
          (right.joined .or).Matches schema type style record := by
      rw [hleft hfirst, hright hsecond]
      simp only [conditions, List.mem_append, or_and_right, exists_or]
    rw [hparts]
    exact Predicate.matches_or_iff h

/-- Regrouping and reordering conditions changes neither whether they can be tested together
nor the verdict. -/
theorem matches_joined_of_perm {connective : Connective} {first second : Grouping}
    (hperm : first.conditions.Perm second.conditions) :
    ((first.joined connective).HasTest schema type ↔
        (second.joined connective).HasTest schema type) ∧
      ∀ record, ((first.joined connective).Matches schema type style record ↔
        (second.joined connective).Matches schema type style record) := by
  have htest : (first.joined connective).HasTest schema type ↔
      (second.joined connective).HasTest schema type := by
    simp only [hasTest_joined_iff, hperm.mem_iff]
  refine ⟨htest, fun record => ?_⟩
  cases connective with
  | and => simp only [matches_joined_and_iff, hperm.mem_iff]
  | or =>
    constructor
    · intro h
      rw [matches_joined_or_iff (htest.mp h.hasTest)]
      simpa only [matches_joined_or_iff h.hasTest, hperm.mem_iff] using h
    · intro h
      rw [matches_joined_or_iff (htest.mpr h.hasTest)]
      simpa only [matches_joined_or_iff h.hasTest, hperm.mem_iff] using h

end Grouping

/-- The filter that a query is run with is the conjunction of the conditions that its steps
asked for, whatever the shape of these: if it can be tested, each condition can be tested, and
a record matches it exactly when the record matches every condition. In general joined
predicates have the verdict of the connective, so that neither the grouping nor the order of
joined conditions matters. -/
theorem Query.matches_effectivePredicate_iff (schema : Schema) (type : String)
    (style : DateStyle) :
    (∀ {taken : List Step} {query : Query}, (Draft.ofSteps taken).fault = none →
        query.predicate = (Draft.ofSteps taken).predicate →
        query.identity = (Draft.ofSteps taken).identity →
        (query.effectivePredicate = none → conditionsOf taken = []) ∧
          ∀ predicate, query.effectivePredicate = some predicate →
            predicate.HasTest schema type →
              (∀ condition ∈ conditionsOf taken, condition.HasTest schema type) ∧
                ∀ record, predicate.Matches schema type style record ↔
                  ∀ condition ∈ conditionsOf taken,
                    condition.Matches schema type style record) ∧
      (∀ (p q : Predicate) (record : Record),
        ((p.and q).Matches schema type style record ↔
            p.Matches schema type style record ∧ q.Matches schema type style record) ∧
          ((p.or q).HasTest schema type → ((p.or q).Matches schema type style record ↔
            p.Matches schema type style record ∨ q.Matches schema type style record))) ∧
      ∀ (connective : Connective) (first second : Grouping),
        first.conditions.Perm second.conditions →
          ((first.joined connective).HasTest schema type ↔
              (second.joined connective).HasTest schema type) ∧
            ∀ record, ((first.joined connective).Matches schema type style record ↔
              (second.joined connective).Matches schema type style record) := by
  refine ⟨?_, ?_, ?_⟩
  · intro taken query hfault hpredicate hidentity
    rw [Query.effectivePredicate_eq_conjunction? hfault hpredicate hidentity]
    cases hconditions : conditionsOf taken with
    | nil => exact ⟨fun _ => rfl, fun _ h => by cases h⟩
    | cons first others =>
      refine ⟨fun h => (by cases h), fun predicate hchain htest => ?_⟩
      obtain rfl := Option.some.inj hchain
      exact ⟨Predicate.hasTest_foldl_and_iff.mp htest,
        fun record => Predicate.matches_foldl_and_iff⟩
  · intro p q record
    exact ⟨Predicate.matches_and_iff, Predicate.matches_or_iff⟩
  · intro connective first second hperm
    exact Grouping.matches_joined_of_perm hperm

/-- Four conditions on employees, among them a group of one condition, which the later ones
extend, and a disjunction, which they do not. -/
def employeeConditions : List Predicate :=
  [.group .and [.simple "age" .gt (.int 30)],
    .group .or [.contains "name" "va", .simple "manager" .neq .null],
    .simple "age" .lt (.int 60), .simple "id" .eq (.string "e1")]

/-- The steps that ask for these conditions. -/
def employeeSteps : List Step :=
  [.byIdentity (.string "e1"), .ofType "employee",
    .filter (.group .and [.simple "age" .gt (.int 30)]),
    .filter (.group .or [.contains "name" "va", .simple "manager" .neq .null]),
    .filterBy [.path "age", .op .lt, .value (.int 60)]]

theorem Query.matches_employeeConditions_iff :
    ∃ query predicate, (Draft.ofSteps employeeSteps).build Sample.schema = .ok query ∧
      query.effectivePredicate = some predicate ∧ predicate.HasTest Sample.schema "employee" ∧
        ∀ record, predicate.Matches Sample.schema "employee" .standard record ↔
          ∀ condition ∈ employeeConditions,
            condition.Matches Sample.schema "employee" .standard record := by
  obtain ⟨query, hbuild⟩ : ∃ query,
      (Draft.ofSteps employeeSteps).build Sample.schema = .ok query :=
    exists_eq_ok_of_isOk (by decide +kernel)
  obtain ⟨_, hidentity, hpredicate, _⟩ := Draft.options_of_build hbuild
  have hfault : (Draft.ofSteps employeeSteps).fault = none := rfl
  have hconditions : conditionsOf employeeSteps = employeeConditions := rfl
  obtain ⟨predicate, heffective⟩ : ∃ predicate, query.effectivePredicate = some predicate := by
    rw [effectivePredicate_eq_conjunction? hfault hpredicate hidentity, hconditions]
    exact ⟨_, rfl⟩
  have htest : predicate.HasTest Sample.schema "employee" := by
    rw [effectivePredicate_eq_conjunction? hfault hpredicate hidentity, hconditions] at heffective
    obtain rfl := Option.some.inj heffective
    exact exists_eq_ok_of_isOk (by decide +kernel)
  have hmatches := (matches_effectivePredicate_iff Sample.schema "employee" .standard).1
    hfault hpredicate hidentity
  obtain ⟨_, hverdict⟩ := hmatches.2 predicate heffective htest
  exact ⟨query, predicate, hbuild, heffective, htest, hconditions ▸ hverdict⟩

end EntityQuery
