import EntityQuery.Proofs.Query.Conditions

/-!
# Drafts as state machines

A step is refused for its arguments alone. The first refused step decides what comes out of a
draft, whatever steps follow it. Where no step is refused, every step changes one option of the
draft and looks at no other, so steps for different options can change places: a query depends
only on the steps for each of its options, in their order.
-/

namespace EntityQuery

section Kinds

variable {α β κ : Type} {kind : α → κ} {take : β → α → β}

/-- An item that can change places with items of other kinds passes all of them that stand in front
of it. -/
theorem foldl_append_cons_of_kind_ne
    (hswap : ∀ state first second, kind first ≠ kind second →
      take (take state first) second = take (take state second) first)
    {front : List α} {item : α} (hkinds : ∀ other ∈ front, kind other ≠ kind item)
    (back : List α) (state : β) :
    (front ++ item :: back).foldl take state = (front ++ back).foldl take (take state item) := by
  induction front generalizing state with
  | nil => rfl
  | cons other front ih =>
    rw [List.cons_append, List.foldl_cons, List.cons_append, List.foldl_cons,
      ih fun later hlater => hkinds later (List.mem_cons_of_mem other hlater),
      hswap state other item (hkinds other List.mem_cons_self)]

/-- Items of different kinds that can change places may be taken in any order that keeps the
order within each kind. -/
theorem foldl_eq_of_filter_eq [DecidableEq κ]
    (hswap : ∀ state first second, kind first ≠ kind second →
      take (take state first) second = take (take state second) first)
    {items others : List α}
    (h : ∀ k, items.filter (kind · = k) = others.filter (kind · = k)) (state : β) :
    items.foldl take state = others.foldl take state := by
  induction items generalizing others state with
  | nil =>
    cases others with
    | nil => rfl
    | cons other others => simpa using h (kind other)
  | cons item items ih =>
    have hfirst := h (kind item)
    rw [List.filter_cons_of_pos (by simp)] at hfirst
    obtain ⟨front, back, rfl, hkinds, _, hback⟩ := List.filter_eq_cons_iff.mp hfirst.symm
    simp only [decide_eq_true_eq] at hkinds
    rw [foldl_append_cons_of_kind_ne hswap hkinds back state, List.foldl_cons]
    refine ih (fun k => ?_) (take state item)
    have hkind := h k
    by_cases hk : kind item = k
    · subst hk
      have hnone : front.filter (kind · = kind item) = [] := by
        simpa [List.filter_eq_nil_iff] using hkinds
      rw [List.filter_append, hnone, List.nil_append, hback]
    · simpa [hk] using hkind

end Kinds

/-- The options of a query. -/
inductive QueryOption where
  /-- The queried type. -/
  | entityType
  /-- The wanted identity. -/
  | identity
  /-- The filter. -/
  | filter
  /-- The order. -/
  | order
  /-- The greatest number of records. -/
  | top
  /-- The number of records to pass over. -/
  | skip
  /-- The total count. -/
  | count
  /-- The paths that are asked for. -/
  | select
  /-- The projection. -/
  | projection
  /-- The derived type. -/
  | dataType
  /-- The parameters that are passed through. -/
  | customParams
  deriving DecidableEq

namespace Step

/-- The option that a step is for. There are two ways to give a filter. -/
def option : Step → QueryOption
  | .ofType _ => .entityType
  | .byIdentity _ => .identity
  | .filter _ | .filterBy _ => .filter
  | .orderBy _ => .order
  | .top _ => .top
  | .skip _ => .skip
  | .count => .count
  | .select _ => .select
  | .projection _ => .projection
  | .ofDataType _ => .dataType
  | .custom _ => .customParams

/-- A step changes its own option and reads no other, so two steps for different options can
change places. -/
theorem change_comm {first second : Step} (h : first.option ≠ second.option) (draft : Draft) :
    second.change (first.change draft) = first.change (second.change draft) := by
  cases first <;> cases second <;> first | rfl | exact absurd rfl h

end Step

namespace Draft

variable {draft : Draft}

/-- Of several faults the first is kept: that of the draft, or that of the first refused step. -/
theorem fault_steps (draft : Draft) (taken : List Step) :
    (draft.steps taken).fault = draft.fault.or (taken.findSome? Step.refusal?) := by
  induction taken generalizing draft with
  | nil => exact (Option.or_none).symm
  | cons step taken ih =>
    rw [steps_cons, ih, fault_step, Option.or_assoc, List.findSome?_cons]
    cases step.refusal? <;> rfl

/-- A draft with a fault gives that fault instead of a query. -/
theorem build_of_fault {schema : Schema} {settings : BuildSettings} {fault : Fault}
    (h : draft.fault = some fault) : draft.build schema settings = .error fault := by
  rw [build, h]

/-- A run without refused steps makes their changes one after the other. -/
theorem steps_eq_foldl_change {taken : List Step} (hfault : draft.fault = none)
    (h : ∀ step ∈ taken, step.refusal? = none) :
    draft.steps taken = taken.foldl (fun sofar step => step.change sofar) draft := by
  induction taken generalizing draft with
  | nil => rfl
  | cons step taken ih =>
    have hstep := h step List.mem_cons_self
    have hnext : (draft.step step).fault = none := by rw [fault_step, hfault, hstep]; rfl
    rw [steps_cons, ih hnext fun later hlater => h later (List.mem_cons_of_mem step hlater),
      step_eq_change hfault hstep, List.foldl_cons]

/-- A step is refused for its arguments alone. After the first refused step a draft gives the
fault of that step, whatever steps follow. If no step is refused, the outcome depends only on
the steps for each option in their order, however they are interleaved. -/
theorem steps_latch_and_interleave (schema : Schema) (settings : BuildSettings) :
    (∀ (draft : Draft) (step : Step), draft.fault = none →
        (draft.step step).fault = step.refusal?) ∧
      (∀ (before after : List Step) (step : Step) (fault : Fault),
        (∀ earlier ∈ before, earlier.refusal? = none) → step.refusal? = some fault →
          (ofSteps (before ++ step :: after)).build schema settings = .error fault) ∧
      ∀ first second : List Step, (∀ step ∈ first, step.refusal? = none) →
        (∀ option, first.filter (·.option = option) = second.filter (·.option = option)) →
          (ofSteps first).build schema settings = (ofSteps second).build schema settings := by
  refine ⟨fun draft step hfault => ?_, fun before after step fault hbefore hstep => ?_,
    fun first second hfirst hoptions => ?_⟩
  · rw [fault_step, hfault, Option.none_or]
  · refine build_of_fault ?_
    have hnone : before.findSome? Step.refusal? = none := List.findSome?_eq_none_iff.mpr hbefore
    rw [ofSteps, fault_steps, List.findSome?_append, hnone, List.findSome?_cons, hstep]
    rfl
  · have hsecond : ∀ step ∈ second, step.refusal? = none := by
      intro step hmem
      have hkept : step ∈ first.filter (·.option = step.option) := by
        rw [hoptions]
        exact List.mem_filter.mpr ⟨hmem, by simp⟩
      exact hfirst step (List.mem_filter.mp hkept).1
    have hsame : ofSteps first = ofSteps second := by
      rw [ofSteps, ofSteps, steps_eq_foldl_change rfl hfirst, steps_eq_foldl_change rfl hsecond]
      exact foldl_eq_of_filter_eq (fun draft one other hne => Step.change_comm hne draft) hoptions _
    rw [hsame]

/-- The steps of a query for the youngest employees of a name, option by option. -/
def orderedSteps : List Step :=
  [.ofType "order", .ofType "employee", .filter (.simple "name" .eq (.string "Ivan")),
    .filterBy [.path "age", .op .geq, .value (.int 18)], .orderBy "age", .select "name, age",
    .select "manager", .top 3, .count]

/-- The same steps in another order. -/
def mixedSteps : List Step :=
  [.select "name, age", .count, .filter (.simple "name" .eq (.string "Ivan")), .ofType "order",
    .top 3, .select "manager", .filterBy [.path "age", .op .geq, .value (.int 18)], .orderBy "age",
    .ofType "employee"]

theorem steps_latch_and_interleave_youngest :
    (∀ step ∈ orderedSteps, step.refusal? = none) ∧
      (∀ option, orderedSteps.filter (·.option = option) = mixedSteps.filter (·.option = option)) ∧
      ((ofSteps orderedSteps).build Sample.schema).toBool = true ∧
      (ofSteps orderedSteps).build Sample.schema = (ofSteps mixedSteps).build Sample.schema ∧
      (Step.orderBy " , ").refusal? = some .emptyOrder ∧
      (ofSteps (orderedSteps ++ .orderBy " , " :: [.byIdentity .null, .filterBy [], .top 1])).build
        Sample.schema = .error .emptyOrder := by
  obtain ⟨_, hrefused, hmixed⟩ := steps_latch_and_interleave Sample.schema {}
  have haccepted : ∀ step ∈ orderedSteps, step.refusal? = none := by decide +kernel
  have hoptions : ∀ option,
      orderedSteps.filter (·.option = option) = mixedSteps.filter (·.option = option) := by
    intro option
    cases option <;> rfl
  have hempty : (Step.orderBy " , ").refusal? = some .emptyOrder := by decide +kernel
  exact ⟨haccepted, hoptions, by decide +kernel, hmixed _ _ haccepted hoptions, hempty,
    hrefused _ _ _ _ haccepted hempty⟩

end Draft

end EntityQuery
