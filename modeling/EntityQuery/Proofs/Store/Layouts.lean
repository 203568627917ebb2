import EntityQuery.Proofs.Query.Trees
import EntityQuery.Proofs.Store.Agreement
import EntityQuery.Proofs.Store.IndexedFields

/-!
# The indexes that plans use

The layouts of a query declare every field that it fetches, at whatever place. What a query
fetches reaches the field that its filter compares, so the index that a plan uses is declared.
But a layout has the name of the field without blanks around it, and a plan has the path of the
filter as it was spelled.
-/

namespace EntityQuery.Store

open SelectTree

/-- A layout has an index of a field; the identity always has one. -/
def Layout.Declares (layout : Layout) (name : String) : Prop :=
  name = identityField ∨ ∃ indexed ∈ layout.fields, indexed.name = name

instance (layout : Layout) (name : String) : Decidable (layout.Declares name) :=
  inferInstanceAs (Decidable (_ ∨ _))

/-- The layout of a type has an index of a field. -/
def Declared (layouts : Entries Layout) (type name : String) : Prop :=
  ∃ layout, layouts.get? type = some layout ∧ layout.Declares name

/-- Layouts that serve a node declare every field that it wants. -/
theorem Serve.declared {schema : Schema} {layouts : Entries Layout} {nodes : List SelectTree}
    (h : Serve layouts schema nodes) {node : SelectTree} (hnode : node ∈ nodes) {name : String}
    (hname : name ∈ node.select) : Declared layouts node.entityType name := by
  obtain ⟨layout, hlayout⟩ :=
    Entries.exists_get?_of_contains ((h.contains_iff _).mpr ⟨node, hnode, rfl⟩)
  have hindexes := h.indexes node.entityType
  rw [hlayout, Option.getD_some] at hindexes
  refine ⟨layout, hlayout, ?_⟩
  by_cases hidentity : name = identityField
  · exact .inl hidentity
  · have hwanted := mem_wantedOf.mpr ⟨node, hnode, rfl, hname⟩
    exact .inr (List.mem_map.mp (hindexes.mem_names_iff.mpr ⟨hidentity, hwanted⟩))

/-- The layouts of a query declare every field that it fetches, at whatever place. -/
theorem everywhere_declared_of_layoutsOf {schema : Schema} {query : Query}
    {layouts : Entries Layout} (h : layoutsOf schema query = .ok layouts) :
    Everywhere (fun node => ∀ name ∈ node.select, Declared layouts node.entityType name)
      query.fetchTree :=
  everywhere_iff_forall_nodes.mpr fun _ hnode _ => (serve_of_layoutsOf h).declared hnode

/-- A query that was built and is served by a range of an index compares that field, so what it
fetches has the field, spelled without blanks. -/
theorem mem_select_of_indexRange {draft : Draft} {schema : Schema} {settings : BuildSettings}
    {query : Query} {field : String} {range : IndexRange}
    (hbuild : draft.build schema settings = .ok query)
    (hplan : AccessPlan.ofQuery query = .indexRange field range) :
    Text.trim field ∈ query.fetchTree.select := by
  obtain ⟨_, _, hother⟩ | ⟨path, op, value, _, hpredicate, _, hdot, hsame⟩ | ⟨_, hother⟩ :=
    AccessPlan.ofQuery_cases query
  · cases hplan.symm.trans hother
  · obtain ⟨rfl, _⟩ := AccessPlan.indexRange.inj (hplan.symm.trans hsame)
    obtain ⟨_, _, hfilter, _⟩ := Draft.options_of_build hbuild
    have hread : field ∈ draft.referencedPaths := by
      refine List.mem_append_left _ ?_
      rw [← hfilter, hpredicate]
      exact List.mem_cons_self
    obtain ⟨segments, hsegments⟩ := Draft.exists_segments_of_mem_referencedPaths hbuild hread
    have hcovers := Draft.covers_fetchTree hbuild hread hsegments
    obtain rfl := Schema.pathSegments_of_no_dot hdot hsegments
    exact (covers_singleton _ _).mp hcovers
  · cases hplan.symm.trans hother

/-- The index that a plan uses is declared by the layout of the queried type, under the name of
the field without the blanks that the filter may have around it. -/
theorem declared_of_indexRange {draft : Draft} {schema : Schema} {settings : BuildSettings}
    {query : Query} {field : String} {range : IndexRange} {layouts : Entries Layout}
    (hbuild : draft.build schema settings = .ok query)
    (hplan : AccessPlan.ofQuery query = .indexRange field range)
    (hlayouts : layoutsOf schema query = .ok layouts) :
    ∃ layout, layouts.get? query.entityType = some layout ∧
      layout.Declares (Text.trim field) := by
  have hselect := mem_select_of_indexRange hbuild hplan
  have hdeclared := (everywhere_declared_of_layoutsOf hlayouts).here _ hselect
  rw [Draft.entityType_fetchTree hbuild] at hdeclared
  exact hdeclared

/-- The steps of a query for the names of the employees from the age of thirty on, where the
filter spells its path in this way. -/
def spelledSteps (path : String) : List Step :=
  [.ofType "employee", .select "name", .filter (.simple path .geq (.int 30))]

/-- A query whose filter has blanks around its path is built, goes through an index under that
path, and has an index of the bare name in its layouts. -/
theorem exists_padded_query :
    ∃ query, (Draft.ofSteps (spelledSteps " age ")).build Sample.schema = .ok query ∧
      query.entityType = "employee" ∧
      AccessPlan.ofQuery query = .indexRange " age " ⟨.geq, .int 30⟩ ∧
      layoutsOf Sample.schema query =
        .ok [("employee", ⟨[⟨"name", false⟩, ⟨"age", false⟩]⟩)] := by
  obtain ⟨query, hbuild⟩ : ∃ query,
      (Draft.ofSteps (spelledSteps " age ")).build Sample.schema = .ok query :=
    exists_eq_ok_of_isOk (by decide +kernel)
  obtain ⟨htype, hidentity, hpredicate, _⟩ := Draft.options_of_build hbuild
  have hemployee : "employee" = query.entityType := Option.some.inj htype
  have hlayouts : ((Draft.ofSteps (spelledSteps " age ")).build Sample.schema >>=
      layoutsOf Sample.schema) = .ok [("employee", ⟨[⟨"name", false⟩, ⟨"age", false⟩]⟩)] := by
    decide +kernel
  rw [hbuild, ok_bind] at hlayouts
  refine ⟨query, hbuild, hemployee.symm, ?_, hlayouts⟩
  simp only [AccessPlan.ofQuery, hidentity, hpredicate]
  rfl

theorem declared_padded_age :
    ∃ query layouts, (Draft.ofSteps (spelledSteps " age ")).build Sample.schema = .ok query ∧
      AccessPlan.ofQuery query = .indexRange " age " ⟨.geq, .int 30⟩ ∧
      layoutsOf Sample.schema query = .ok layouts ∧
      ∃ layout, layouts.get? query.entityType = some layout ∧
        layout.Declares (Text.trim " age ") := by
  obtain ⟨query, hbuild, _, hplan, hlayouts⟩ := exists_padded_query
  exact ⟨query, _, hbuild, hplan, hlayouts, declared_of_indexRange hbuild hplan hlayouts⟩

/-- No layout has an index under a path with blanks around it, and yet a plan asks for one. -/
theorem not_declared_padded_age :
    ∃ query layouts layout,
      (Draft.ofSteps (spelledSteps " age ")).build Sample.schema = .ok query ∧
      AccessPlan.ofQuery query = .indexRange " age " ⟨.geq, .int 30⟩ ∧
      layoutsOf Sample.schema query = .ok layouts ∧
      layouts.get? query.entityType = some layout ∧ ¬layout.Declares " age " := by
  obtain ⟨query, hbuild, htype, hplan, hlayouts⟩ := exists_padded_query
  refine ⟨query, _, ⟨[⟨"name", false⟩, ⟨"age", false⟩]⟩, hbuild, hplan, hlayouts, ?_, ?_⟩
  · rw [htype]
    rfl
  · decide +kernel

end EntityQuery.Store
