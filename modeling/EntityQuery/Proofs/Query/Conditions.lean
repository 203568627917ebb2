import EntityQuery.Proofs.Query.Construction
import Mathlib.Data.List.Induction

/-!
# The conditions of a query

Steps ask for conditions one after the other, by filters and by an identity. As long as no
step goes wrong, the filter of the draft is the conjunction of the filters so far, joined in
the order of the steps, and the filter that a query is run with ends with the condition that
a record has the identity.
-/

namespace EntityQuery

namespace Predicate

/-- The conjunction of conditions, each joined to those before it. -/
def conjunction? : List Predicate → Option Predicate
  | [] => none
  | first :: others => some (others.foldl Predicate.and first)

/-- A condition behind others is joined to their conjunction. -/
theorem conjunction?_append_toList (conditions : List Predicate) (added : Option Predicate) :
    conjunction? (conditions ++ added.toList) = conjoin? (conjunction? conditions) added := by
  cases conditions with
  | nil => cases added <;> rfl
  | cons first others =>
    cases added with
    | none => rw [Option.toList_none, List.append_nil, conjoin?_none_right]
    | some last =>
      rw [Option.toList_some, List.cons_append, conjunction?, List.foldl_append]
      rfl

end Predicate

namespace Step

/-- The filter that a step adds. -/
def filter? : Step → Option Predicate
  | .filter predicate => some predicate
  | .filterBy arguments => (Draft.predicateOf arguments).toOption
  | _ => none

/-- The identity that a step asks for. -/
def identity? : Step → Option Value
  | .byIdentity identity => some identity
  | _ => none

/-- A change joins the filter of its step to that of the draft. -/
theorem predicate_change (step : Step) (draft : Draft) :
    (step.change draft).predicate = Predicate.conjoin? draft.predicate step.filter? := by
  cases step with
  | filter _ | filterBy _ => rfl
  | _ => exact (Predicate.conjoin?_none_right _).symm

/-- A change replaces the identity if its step asks for one. -/
theorem identity_change (step : Step) (draft : Draft) :
    (step.change draft).identity = step.identity?.or draft.identity := by
  cases step <;> rfl

end Step

/-- The filters that steps add, in order. -/
def filtersOf (taken : List Step) : List Predicate := taken.filterMap Step.filter?

/-- The identity that steps ask for; of several the last counts. -/
def identityOf (taken : List Step) : Option Value := (taken.filterMap Step.identity?).getLast?

/-- The conditions that steps ask for: their filters, and that a record has the identity. -/
def conditionsOf (taken : List Step) : List Predicate :=
  filtersOf taken ++
    ((identityOf taken).map fun value => Predicate.simple identityField .eq value).toList

/-- One more step adds its filter. -/
theorem filtersOf_concat (taken : List Step) (step : Step) :
    filtersOf (taken ++ [step]) = filtersOf taken ++ step.filter?.toList := by
  rw [filtersOf, List.filterMap_append, filtersOf]
  cases hfilter : step.filter? <;> simp [hfilter]

/-- One more step may ask for another identity. -/
theorem identityOf_concat (taken : List Step) (step : Step) :
    identityOf (taken ++ [step]) = step.identity?.or (identityOf taken) := by
  rw [identityOf, List.filterMap_append, List.getLast?_append, identityOf]
  cases hidentity : step.identity? <;> simp [hidentity]

namespace Draft

variable {draft : Draft} {taken : List Step}

/-- A step that leads to no fault started from none, joined its filter to that of the draft,
and replaced the identity if it asks for one. -/
theorem step_of_fault_none {step : Step} (h : (draft.step step).fault = none) :
    draft.fault = none ∧
      (draft.step step).predicate = Predicate.conjoin? draft.predicate step.filter? ∧
        (draft.step step).identity = step.identity?.or draft.identity := by
  rw [fault_step, Option.or_eq_none_iff] at h
  obtain ⟨hfault, hrefusal⟩ := h
  rw [step_eq_change hfault hrefusal]
  exact ⟨hfault, step.predicate_change draft, step.identity_change draft⟩

/-- Steps that lead to no fault collect their filters and the last identity. -/
theorem ofSteps_of_fault_none (h : (ofSteps taken).fault = none) :
    (ofSteps taken).predicate = Predicate.conjunction? (filtersOf taken) ∧
      (ofSteps taken).identity = identityOf taken := by
  induction taken using List.reverseRecOn with
  | nil => exact ⟨rfl, rfl⟩
  | append_singleton taken step ih =>
    have hlast : ofSteps (taken ++ [step]) = (ofSteps taken).step step := by
      rw [ofSteps, steps, List.foldl_append]
      rfl
    rw [hlast] at h ⊢
    obtain ⟨hfault, hpredicate, hidentity⟩ := step_of_fault_none h
    obtain ⟨hfilters, hidentities⟩ := ih hfault
    constructor
    · rw [hpredicate, hfilters, filtersOf_concat, Predicate.conjunction?_append_toList]
    · rw [hidentity, hidentities, identityOf_concat]

end Draft

/-- The filter that a query is run with is the conjunction of the conditions that its steps
asked for. -/
theorem Query.effectivePredicate_eq_conjunction? {taken : List Step} {query : Query}
    (hfault : (Draft.ofSteps taken).fault = none)
    (hpredicate : query.predicate = (Draft.ofSteps taken).predicate)
    (hidentity : query.identity = (Draft.ofSteps taken).identity) :
    query.effectivePredicate = Predicate.conjunction? (conditionsOf taken) := by
  obtain ⟨hfilters, hlast⟩ := Draft.ofSteps_of_fault_none hfault
  rw [effectivePredicate, conditionsOf, Predicate.conjunction?_append_toList, identityPredicate,
    hpredicate, hidentity, hfilters, hlast]

end EntityQuery
