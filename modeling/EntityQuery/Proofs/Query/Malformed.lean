import EntityQuery.Proofs.Predicate.Validity
import EntityQuery.Proofs.Query.Conditions

/-!
# Malformed filters

Building checks the filter of a draft, not the filters that the steps gave. These have been joined
by then, and joining extends a conjunction that comes first. So a filter that does not pass its own
check makes the build fail wherever it stands, with one exception: a conjunction of too few members
that comes first and that the filters after it complete.
-/

namespace EntityQuery

namespace Predicate

/-- What another predicate is put beside when it is joined to a predicate. -/
def conjuncts : Predicate → List Predicate
  | group .and members => members
  | predicate => [predicate]

/-- Only a conjunction is taken apart. -/
theorem conjuncts_cases (predicate : Predicate) :
    (∃ members, predicate = group .and members) ∨ predicate.conjuncts = [predicate] := by
  cases predicate with
  | group connective members =>
    cases connective with
    | and => exact .inl ⟨members, rfl⟩
    | or => exact .inr rfl
  | _ => exact .inr rfl

/-- Joining puts a predicate behind the conjuncts of the one before it. -/
theorem and_eq_group (left right : Predicate) :
    left.and right = group .and (left.conjuncts ++ [right]) := by
  cases left with
  | group connective members => cases connective <;> rfl
  | _ => rfl

/-- Joining predicates one after the other puts all of them behind the conjuncts of the first. -/
theorem foldl_and_eq_group (first second : Predicate) (others : List Predicate) :
    (second :: others).foldl Predicate.and first =
      group .and (first.conjuncts ++ second :: others) := by
  induction others generalizing first second with
  | nil => exact and_eq_group first second
  | cons third others ih =>
    rw [List.foldl_cons, ih, and_eq_group, conjuncts, List.append_assoc]
    rfl

/-- The first of some predicates is a conjunction of fewer than two members, and those after it
make two of them. The members and the predicates after it are valid. -/
def CompletesGroup (predicates : List Predicate) : Prop :=
  ∃ members others, predicates = group .and members :: others ∧
    members.length < 2 ∧ 2 ≤ members.length + others.length ∧
      (∀ member ∈ members, member.validate = .ok ()) ∧ ∀ other ∈ others, other.validate = .ok ()

/-- Joined predicates are valid if all of them are, or if those after the first complete it. -/
theorem validate_foldl_and_iff {first second : Predicate} {others : List Predicate} :
    ((second :: others).foldl Predicate.and first).validate = .ok () ↔
      (∀ predicate ∈ first :: second :: others, predicate.validate = .ok ()) ∨
        CompletesGroup (first :: second :: others) := by
  have hjoined : ((second :: others).foldl Predicate.and first).validate = .ok () ↔
      2 ≤ first.conjuncts.length + (second :: others).length ∧
        (∀ member ∈ first.conjuncts, member.validate = .ok ()) ∧
          ∀ other ∈ second :: others, other.validate = .ok () := by
    rw [foldl_and_eq_group, validate_group_iff, List.length_append, List.forall_mem_append]
  rw [hjoined]
  constructor
  · rintro ⟨hlength, hmembers, hothers⟩
    obtain ⟨members, rfl⟩ | hsingle := first.conjuncts_cases
    · by_cases hfew : members.length < 2
      · exact .inr ⟨members, _, rfl, hfew, hlength, hmembers, hothers⟩
      · have hfirst : (group .and members).validate = .ok () :=
          validate_group_iff.mpr ⟨Nat.not_lt.mp hfew, hmembers⟩
        exact .inl (List.forall_mem_cons.mpr ⟨hfirst, hothers⟩)
    · have hfirst := hmembers first (hsingle ▸ List.mem_singleton_self first)
      exact .inl (List.forall_mem_cons.mpr ⟨hfirst, hothers⟩)
  · rintro (hall | ⟨members, others, hsplit, _, hlength, hmembers, hothers⟩)
    · obtain ⟨hfirst, hothers⟩ := List.forall_mem_cons.mp hall
      obtain ⟨members, rfl⟩ | hsingle := first.conjuncts_cases
      · obtain ⟨htwo, hmembers⟩ := validate_group_iff.mp hfirst
        exact ⟨Nat.le_add_right_of_le htwo, hmembers, hothers⟩
      · rw [hsingle, List.length_singleton, List.length_cons]
        exact ⟨by omega, by simpa using hfirst, hothers⟩
    · obtain ⟨rfl, rfl⟩ := List.cons.inj hsplit
      exact ⟨hlength, hmembers, hothers⟩

/-- The conjunction of some predicates passes its check if all of them are valid, or if those after
the first complete it. -/
theorem checkFilter_conjunction?_iff {predicates : List Predicate} :
    Draft.checkFilter (conjunction? predicates) = .ok () ↔
      (∀ predicate ∈ predicates, predicate.validate = .ok ()) ∨ CompletesGroup predicates := by
  match predicates with
  | [] => simp [conjunction?, Draft.checkFilter]
  | [only] =>
    have hnever : ¬CompletesGroup [only] := by
      rintro ⟨members, others, hsplit, hfew, hlength, _⟩
      obtain ⟨_, rfl⟩ := List.cons.inj hsplit
      exact Nat.not_le.mpr hfew hlength
    simp [conjunction?, Draft.checkFilter, hnever]
  | first :: second :: others => exact validate_foldl_and_iff

end Predicate

namespace Draft

variable {taken : List Step}

/-- The check of the filter of a draft fails the build. -/
theorem exists_fault_of_checkFilter {draft : Draft} (h : checkFilter draft.predicate ≠ .ok ())
    (schema : Schema) (settings : BuildSettings) :
    ∃ fault, draft.build schema settings = .error fault := by
  cases hbuild : draft.build schema settings with
  | error fault => exact ⟨fault, rfl⟩
  | ok query =>
    obtain ⟨_, _, _, trace⟩ := exists_trace_of_build hbuild
    exact absurd trace.valid h

/-- Filters that steps give are checked together when a query is built. They pass if each of them
is valid, or if the first is a conjunction of too few members that the others complete. So one
malformed filter fails the build, whatever the others are and wherever it stands, unless it is
such a conjunction at the beginning. -/
theorem malformed_filter_refused (hfault : (ofSteps taken).fault = none) :
    (checkFilter (ofSteps taken).predicate = .ok () ↔
      (∀ filter ∈ filtersOf taken, filter.validate = .ok ()) ∨
        Predicate.CompletesGroup (filtersOf taken)) ∧
    ∀ filter ∈ filtersOf taken, filter.validate ≠ .ok () →
      ¬Predicate.CompletesGroup (filtersOf taken) → ∀ schema settings,
        ∃ fault, (ofSteps taken).build schema settings = .error fault := by
  have hcheck : checkFilter (ofSteps taken).predicate = .ok () ↔
      (∀ filter ∈ filtersOf taken, filter.validate = .ok ()) ∨
        Predicate.CompletesGroup (filtersOf taken) := by
    rw [(ofSteps_of_fault_none hfault).1]
    exact Predicate.checkFilter_conjunction?_iff
  refine ⟨hcheck, fun filter hfilter hmalformed hnever => exists_fault_of_checkFilter fun hok => ?_⟩
  rcases hcheck.mp hok with hall | hcompletes
  · exact hmalformed (hall filter hfilter)
  · exact hnever hcompletes

/-- A group of one member, as it may be read from a document. -/
def loneMember : Predicate := .group .and [.simple "age" .geq (.int 30)]

/-- Steps that ask for employees by two filters. -/
def employeesBy (first second : Predicate) : List Step :=
  [.ofType "employee", .filter first, .filter second]

theorem malformed_filter_refused_behind :
    (ofSteps (employeesBy (.const true) loneMember)).fault = none ∧
      loneMember ∈ filtersOf (employeesBy (.const true) loneMember) ∧
      loneMember.validate = .error (.tooFewPredicates 1) ∧
      ∃ fault, (ofSteps (employeesBy (.const true) loneMember)).build Sample.schema {} =
        .error fault := by
  have hfault : (ofSteps (employeesBy (.const true) loneMember)).fault = none := rfl
  have hfilters : filtersOf (employeesBy (.const true) loneMember) = [.const true, loneMember] :=
    rfl
  have hmember : loneMember ∈ filtersOf (employeesBy (.const true) loneMember) := by
    simp [hfilters]
  have hmalformed : loneMember.validate = .error (.tooFewPredicates 1) := rfl
  have hnever : ¬Predicate.CompletesGroup (filtersOf (employeesBy (.const true) loneMember)) := by
    rintro ⟨members, others, hsplit, _⟩
    cases (List.cons.inj (hfilters.symm.trans hsplit)).1
  exact ⟨hfault, hmember, hmalformed, (malformed_filter_refused hfault).2 loneMember hmember
    (by simp [hmalformed]) hnever Sample.schema {}⟩

/-- The filter behind it completes a group of one member, so a query is built. -/
theorem lone_member_completed :
    (ofSteps (employeesBy loneMember (.const true))).fault = none ∧
      loneMember ∈ filtersOf (employeesBy loneMember (.const true)) ∧
      loneMember.validate = .error (.tooFewPredicates 1) ∧
      ∃ query, (ofSteps (employeesBy loneMember (.const true))).build Sample.schema {} =
        .ok query := by
  refine ⟨rfl, by simp [filtersOf, employeesBy, Step.filter?], rfl, ?_⟩
  exact exists_eq_ok_of_isOk rfl

end Draft

end EntityQuery
