import EntityQuery.Proofs.Outcome
import EntityQuery.Proofs.Query.Steps
import EntityQuery.Query.Build
import EntityQuery.Remote.Filter

/-!
# How a query comes out of a draft

A query that was built carries the options of its draft unchanged, and its two trees
are the results of fixed chains of steps. The record below says all that a successful
build did; whatever holds of built queries is derived from it. The draft itself is a
state machine, and an identity that it took over from a step is never null.
-/

namespace EntityQuery

namespace Draft

/-- Everything that a successful build did: the names it looked up, the checks that
passed, and the trees between its steps. -/
structure BuildTrace (draft : Draft) (schema : Schema) (settings : BuildSettings) (query : Query)
    (keyName : String) (selectStart extendStart : SelectTree) : Prop where
  /-- No step had gone wrong. -/
  fault_none : draft.fault = none
  /-- The queried type was given. -/
  queried : draft.entityType = some query.entityType
  /-- The key of the queried type has a remote name. -/
  named : schema.keyNameOf query.entityType = .ok keyName
  /-- The filter is well formed. -/
  valid : checkFilter draft.predicate = .ok ()
  /-- The fields of the projection come first. -/
  projected : draft.addProjection schema query.entityType (.root query.entityType keyName) =
    .ok selectStart
  /-- The paths that were asked for follow. -/
  selected : addPaths schema query.entityType draft.select selectStart = .ok query.selectTree
  /-- The second tree begins with what is within reach. -/
  reached : draft.reachTree schema settings (.root query.entityType keyName) = .ok extendStart
  /-- The paths that the filter and the order read are added where they are missing. -/
  extended : addMissingPaths schema query.entityType query.selectTree draft.referencedPaths
    extendStart = .ok query.extendTree
  /-- All other options are those of the draft. -/
  options : query = { query with
    identity := draft.identity, projectionName := draft.projectionName,
    predicate := draft.predicate, order := draft.order, top := draft.top, skip := draft.skip,
    count := draft.count, dataType := draft.dataType, selectMode := draft.selectMode,
    customParams := draft.customParams }

/-- A draft without a fault is built for its type. -/
theorem build_eq_buildFor {draft : Draft} {schema : Schema} {settings : BuildSettings}
    {type : String} (hfault : draft.fault = none) (htype : draft.entityType = some type) :
    draft.build schema settings = draft.buildFor schema settings type := by
  simp only [build, hfault, htype]

/-- Building succeeds only by taking every one of its steps. -/
theorem exists_trace_of_build {draft : Draft} {schema : Schema} {settings : BuildSettings}
    {query : Query} (h : draft.build schema settings = .ok query) :
    ∃ keyName selectStart extendStart,
      draft.BuildTrace schema settings query keyName selectStart extendStart := by
  cases hfault : draft.fault with
  | some fault => simp [build, hfault] at h
  | none =>
    cases htype : draft.entityType with
    | none => simp [build, hfault, htype] at h
    | some type =>
      rw [build_eq_buildFor hfault htype] at h
      obtain ⟨keyName, hnamed, h⟩ := bind_eq_ok_iff.mp h
      obtain ⟨_, hvalid, h⟩ := bind_eq_ok_iff.mp h
      obtain ⟨selectStart, hprojected, h⟩ := bind_eq_ok_iff.mp h
      obtain ⟨selectTree, hselected, h⟩ := bind_eq_ok_iff.mp h
      obtain ⟨extendStart, hreached, h⟩ := bind_eq_ok_iff.mp h
      obtain ⟨extendTree, hextended, h⟩ := bind_eq_ok_iff.mp h
      obtain rfl := pure_eq_ok_iff.mp h
      exact ⟨keyName, selectStart, extendStart, hfault, htype, hnamed, hvalid, hprojected,
        hselected, hreached, hextended, rfl⟩

/-- A built query has the identity, the filter and the order of its draft, and its fields
were chosen in the same way. -/
theorem options_of_build {draft : Draft} {schema : Schema} {settings : BuildSettings}
    {query : Query} (h : draft.build schema settings = .ok query) :
    draft.entityType = some query.entityType ∧ query.identity = draft.identity ∧
      query.predicate = draft.predicate ∧ query.order = draft.order ∧
      query.selectMode = draft.selectMode := by
  obtain ⟨_, _, _, trace⟩ := exists_trace_of_build h
  refine ⟨trace.queried, ?_⟩
  rw [trace.options]
  exact ⟨rfl, rfl, rfl, rfl⟩

/-- An identity that a draft asks for is not null. -/
def WantsRealIdentity (draft : Draft) : Prop :=
  ∀ value, draft.identity = some value → value.isNull = false

/-- No change puts a null identity into a draft. -/
theorem WantsRealIdentity.change {draft : Draft} (h : draft.WantsRealIdentity) {step : Step}
    (hrefusal : step.refusal? = none) : (step.change draft).WantsRealIdentity := by
  cases step with
  | byIdentity identity =>
    intro value hvalue
    obtain rfl := Option.some.inj hvalue
    simpa [Step.refusal?] using hrefusal
  | _ => exact h

/-- No run of steps asks for a null identity. -/
theorem WantsRealIdentity.steps {draft : Draft} (h : draft.WantsRealIdentity)
    (taken : List Step) : (draft.steps taken).WantsRealIdentity :=
  steps_induction h (fun _ _ hsofar => hsofar) (fun _ _ hrefusal hsofar => hsofar.change hrefusal)
    taken

/-- The identity that a query built from steps looks up is not null. -/
theorem identity_of_build {taken : List Step} {schema : Schema} {settings : BuildSettings}
    {query : Query} (h : (ofSteps taken).build schema settings = .ok query) {value : Value}
    (hidentity : query.identity = some value) : value.isNull = false := by
  have hempty : ({} : Draft).WantsRealIdentity := fun _ hnone => by cases hnone
  have hreal : (ofSteps taken).WantsRealIdentity := hempty.steps taken
  obtain ⟨_, hsame, _⟩ := options_of_build h
  exact hreal value (hsame.symm.trans hidentity)

end Draft

namespace Sample

/-- A schema of employees with a manager and orders, and of orders with a price. -/
def schema : Schema where
  models := [
    ("employee", {
      name := "employee",
      attributes := [⟨"name", .string, none⟩, ⟨"age", .number, none⟩],
      relationships := [
        { name := "manager", kind := .belongsTo, target := "employee" },
        { name := "orders", kind := .hasMany, target := "order" }] }),
    ("order", { name := "order", attributes := [⟨"price", .number, none⟩] })]

end Sample

/-- Requests over that schema, with all settings as they are by default. -/
def Remote.Context.sample : Remote.Context := { schema := Sample.schema, settings := {} }

end EntityQuery
