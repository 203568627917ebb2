import EntityQuery.Query.Draft

/-!
# What a step does to a draft

A step is refused for its arguments alone. A draft with a fault stays as it is under a step that
checks its arguments, a refused step leaves its fault in the draft, and any other step makes its
change. What the faults and the changes keep is kept by every run of steps.
-/

namespace EntityQuery

/-- The fault of an outcome that has no result. -/
def faultOf? {α : Type} : Except Fault α → Option Fault
  | .error fault => some fault
  | .ok _ => none

namespace Step

/-- The fault of a step that is refused: an identity that is null, arguments that are no filter,
or a text that is no order. -/
def refusal? : Step → Option Fault
  | .byIdentity identity =>
    if identity.isNull then some (.invalidArguments .nullIdentity) else none
  | .filterBy arguments => faultOf? (Draft.predicateOf arguments)
  | .orderBy spec => faultOf? (OrderClause.parse spec)
  | _ => none

/-- The change of a draft by a step that is not refused. -/
def change : Step → Draft → Draft
  | .byIdentity identity, draft => { draft with identity := some identity }
  | .filter predicate, draft =>
    { draft with predicate := Predicate.conjoin? draft.predicate (some predicate) }
  | .filterBy arguments, draft =>
    { draft with
      predicate := Predicate.conjoin? draft.predicate (Draft.predicateOf arguments).toOption }
  | .orderBy spec, draft => { draft with order := (OrderClause.parse spec).toOption }
  | .select fields, draft =>
    { draft with select := (Draft.selectPaths fields).foldl SelectTree.addName draft.select }
  | step, draft => draft.step step

/-- No change takes a fault away or adds one. -/
theorem fault_change (step : Step) (draft : Draft) : (step.change draft).fault = draft.fault := by
  cases step <;> rfl

end Step

namespace Draft

variable {draft : Draft} {step : Step}

/-- A step that checks its arguments makes its change or is refused; all others are never
refused. -/
theorem step_eq_attempt_or (draft : Draft) (step : Step) :
    draft.step step = draft.attempt (step.refusal?.elim (.ok (step.change draft)) .error) ∨
      step.refusal? = none ∧ draft.step step = step.change draft := by
  cases step with
  | byIdentity identity =>
    left
    rw [Draft.step, Step.refusal?]
    cases identity.isNull <;> rfl
  | filterBy arguments =>
    left
    rw [Draft.step, Step.refusal?, Step.change]
    cases predicateOf arguments <;> rfl
  | orderBy spec =>
    left
    rw [Draft.step, Step.refusal?, Step.change]
    cases OrderClause.parse spec <;> rfl
  | filter _ | select _ => exact .inl rfl
  | ofType _ | top _ | skip _ | count | projection _ | ofDataType _ | custom _ =>
    exact .inr ⟨rfl, rfl⟩

/-- Everything a step can do: it changes nothing after a fault, it is refused and leaves its
fault, or it makes its change. -/
theorem step_cases (draft : Draft) (step : Step) :
    draft.fault ≠ none ∧ draft.step step = draft ∨
      (∃ fault, draft.fault = none ∧ step.refusal? = some fault ∧
        draft.step step = { draft with fault := some fault }) ∨
      step.refusal? = none ∧ draft.step step = step.change draft := by
  obtain hchecked | hfree := step_eq_attempt_or draft step
  · rw [hchecked]
    unfold attempt
    cases hfault : draft.fault with
    | some fault => exact .inl ⟨Option.some_ne_none fault, rfl⟩
    | none =>
      cases hrefusal : step.refusal? with
      | some fault => exact .inr (.inl ⟨fault, rfl, rfl, rfl⟩)
      | none => exact .inr (.inr ⟨rfl, rfl⟩)
  · exact .inr (.inr hfree)

/-- A step is refused for its arguments alone, and only the first fault is kept. -/
theorem fault_step (draft : Draft) (step : Step) :
    (draft.step step).fault = draft.fault.or step.refusal? := by
  obtain ⟨hfault, hstep⟩ | ⟨fault, hnone, hrefusal, hstep⟩ | ⟨hrefusal, hstep⟩ :=
    draft.step_cases step
  · obtain ⟨fault, hfault⟩ := Option.ne_none_iff_exists'.mp hfault
    rw [hstep, hfault, Option.some_or]
  · rw [hstep, hnone, hrefusal, Option.none_or]
  · rw [hstep, hrefusal, Option.or_none, step.fault_change]

/-- A step that is not refused makes its change in a draft without a fault. -/
theorem step_eq_change (hfault : draft.fault = none) (h : step.refusal? = none) :
    draft.step step = step.change draft := by
  obtain ⟨hsome, _⟩ | ⟨fault, _, hrefusal, _⟩ | ⟨_, hstep⟩ := draft.step_cases step
  · exact absurd hfault hsome
  · exact absurd (h.symm.trans hrefusal) (Option.some_ne_none fault).symm
  · exact hstep

/-- A run goes on from what its first step leads to. -/
theorem steps_cons (draft : Draft) (step : Step) (taken : List Step) :
    draft.steps (step :: taken) = (draft.step step).steps taken := rfl

/-- What a fault keeps, and the change of every step that is not refused, is kept by a run. -/
theorem steps_induction {motive : Draft → Prop} (hstart : motive draft)
    (hfault : ∀ sofar fault, motive sofar → motive { sofar with fault := some fault })
    (hchange : ∀ (step : Step) (sofar : Draft), step.refusal? = none → motive sofar →
      motive (step.change sofar))
    (taken : List Step) : motive (draft.steps taken) := by
  induction taken generalizing draft with
  | nil => exact hstart
  | cons step taken ih =>
    refine ih ?_
    obtain ⟨_, hstep⟩ | ⟨fault, _, _, hstep⟩ | ⟨hrefusal, hstep⟩ := draft.step_cases step
    · rw [hstep]
      exact hstart
    · rw [hstep]
      exact hfault draft fault hstart
    · rw [hstep]
      exact hchange step draft hrefusal hstart

end Draft

end EntityQuery
