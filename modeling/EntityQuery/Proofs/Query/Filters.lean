import EntityQuery.Proofs.Query.Closure
import EntityQuery.Proofs.Schema.Listing

/-!
# Drafts with other filters

The filter of a draft decides nothing about a query but the filter itself and the paths that it
needs besides. A relationship of the queried type and the identity below it are within reach if
relationships are followed at all, so comparing either of them then needs nothing besides.
-/

namespace EntityQuery

open SelectTree

namespace Schema

variable {schema : Schema} {type name : String} {field : Field} {listed : List Field}

/-- The field that is found under a name is listed. -/
theorem mem_listed_of_resolve (hlisted : schema.fields type = .ok listed)
    (hname : name ≠ identityField) (h : schema.resolve type name = .ok field) :
    field ∈ listed ∧ field.name = name := by
  have hnearest := (resolve_eq_ok_iff hname).mp h
  have hlast := (getLast?_filter_listed hlisted name).trans hnearest
  exact ⟨(List.mem_filter.mp (List.mem_of_getLast? hlast)).1, name_of_nearest? hnearest⟩

/-- A relationship is within reach, and so is the identity below it if relationships are followed
at all. -/
theorem withinReach_relationship {depth : Nat} (hlisted : schema.fields type = .ok listed)
    (h : schema.resolve type name = .ok field) (hrelationship : field.isRelationship = true)
    (hdepth : depth ≠ 0) :
    schema.WithinReach depth type [name] ∧
      schema.WithinReach depth type [name, identityField] := by
  obtain ⟨hmem, rfl⟩ :=
    mem_listed_of_resolve hlisted (ne_identityField_of_resolve h hrelationship) h
  exact ⟨⟨[], type, .here type, Nat.zero_le depth, .inl ⟨listed, hlisted, field, hmem, rfl⟩⟩,
    [field], field.target, .next hlisted hmem hrelationship (.here _),
    Nat.one_le_iff_ne_zero.mpr hdepth, .inr rfl⟩

/-- What is within reach of a type was listed. -/
theorem exists_fields_of_addClosure {depth : Nat} {tree out : SelectTree}
    (h : schema.addClosure depth type tree = .ok out) :
    ∃ listed, schema.fields type = .ok listed := by
  cases depth with
  | zero | succ depth =>
    obtain ⟨listed, hlisted, _⟩ := bind_eq_ok_iff.mp h
    exact ⟨listed, hlisted⟩

end Schema

namespace Draft

variable {draft : Draft} {schema : Schema} {settings : BuildSettings} {first second : Query}
  {path other : String} {op : Comparison} {value : Value}

/-- A path that is reached already is passed over. -/
theorem addMissingPaths_of_covers {type : String} {segments paths : List String}
    {selected tree : SelectTree} (hsegments : Schema.pathSegments path = .ok segments)
    (hcovers : tree.covers segments = true) :
    addMissingPaths schema type selected (path :: paths) tree =
      addMissingPaths schema type selected paths tree := by
  rw [addMissingPaths, List.foldlM_cons, hsegments, ok_bind, hcovers, Bool.or_true, if_pos rfl,
    pure_bind]
  rfl

/-- The draft with another filter. -/
def filteredBy (draft : Draft) (predicate : Predicate) : Draft :=
  { draft with predicate := some predicate }

/-- Drafts that differ in their filters are built alike up to the paths that these need. -/
theorem exists_traces_of_build_filteredBy {predicate otherPredicate : Predicate}
    (hfirst : (draft.filteredBy predicate).build schema settings = .ok first)
    (hsecond : (draft.filteredBy otherPredicate).build schema settings = .ok second) :
    ∃ keyName selectStart extendStart,
      (draft.filteredBy predicate).BuildTrace schema settings first keyName selectStart
          extendStart ∧
        (draft.filteredBy otherPredicate).BuildTrace schema settings second keyName selectStart
          extendStart ∧
        second.entityType = first.entityType ∧ second.selectTree = first.selectTree := by
  obtain ⟨keyName, selectStart, extendStart, trace⟩ := exists_trace_of_build hfirst
  obtain ⟨otherKey, otherStart, otherReached, otherTrace⟩ := exists_trace_of_build hsecond
  have htype : second.entityType = first.entityType :=
    Option.some.inj (otherTrace.queried.symm.trans trace.queried)
  have hnamed := otherTrace.named
  rw [htype, trace.named] at hnamed
  obtain rfl := Except.ok.inj hnamed
  have hprojected := otherTrace.projected
  rw [htype] at hprojected
  obtain rfl := Except.ok.inj (trace.projected.symm.trans hprojected)
  have hreached := otherTrace.reached
  rw [htype] at hreached
  obtain rfl := Except.ok.inj (trace.reached.symm.trans hreached)
  have hselected := otherTrace.selected
  rw [htype] at hselected
  exact ⟨keyName, selectStart, extendStart, trace, otherTrace, htype,
    Except.ok.inj (hselected.symm.trans trace.selected)⟩

/-- Queries from drafts that differ in their filters differ in their filters and in what these
need. -/
theorem eq_of_build_filteredBy {predicate otherPredicate : Predicate}
    (hfirst : (draft.filteredBy predicate).build schema settings = .ok first)
    (hsecond : (draft.filteredBy otherPredicate).build schema settings = .ok second) :
    second = { first with predicate := some otherPredicate, extendTree := second.extendTree } := by
  obtain ⟨_, _, _, trace, otherTrace, htype, hselect⟩ :=
    exists_traces_of_build_filteredBy hfirst hsecond
  calc second = _ := otherTrace.options
    _ = { first with predicate := some otherPredicate, extendTree := second.extendTree } := by
      rw [trace.options, htype, hselect]
      rfl

/-- A draft that is filtered by one comparison reads its path first. -/
theorem referencedPaths_filteredBy (draft : Draft) (path : String) (op : Comparison)
    (value : Value) :
    (draft.filteredBy (.simple path op value)).referencedPaths =
      path :: (draft.order.map fun order => order.keys.map SortKey.path).getD [] := by
  simp [referencedPaths, filteredBy, Predicate.simple, Predicate.paths, Predicate.pathsBelow,
    Operand.path?, Predicate.joinPath]

/-- Where relationships are followed, neither the comparison of a relationship nor that of the
identity below it needs anything more: both paths are within reach already, so only those of the
order can be missing. -/
theorem extendTree_eq_of_build_filteredBy {name : String} {field : Field}
    (hfirst : (draft.filteredBy (.simple path op value)).build schema settings = .ok first)
    (hsecond : (draft.filteredBy (.simple other op value)).build schema settings = .ok second)
    (hpath : Schema.pathSegments path = .ok [name])
    (hother : Schema.pathSegments other = .ok [name, identityField])
    (hfield : schema.resolve first.entityType name = .ok field)
    (hrelationship : field.isRelationship = true) (hall : draft.selectMode = .all)
    (hdepth : settings.expandDepth ≠ 0) : second.extendTree = first.extendTree := by
  obtain ⟨keyName, _, start, trace, otherTrace, htype, hselect⟩ :=
    exists_traces_of_build_filteredBy hfirst hsecond
  have hclosure : draft.reachTree schema settings (.root first.entityType keyName) = .ok start :=
    trace.reached
  rw [reachTree, if_pos hall] at hclosure
  obtain ⟨listed, hlisted⟩ := Schema.exists_fields_of_addClosure hclosure
  obtain ⟨hshort, hlong⟩ := Schema.withinReach_relationship hlisted hfield hrelationship hdepth
  have hroot : Everywhere Tidy (.root first.entityType keyName) :=
    (tidy_keptByBuilding fun _ => True).everywhere_root _ _ _
  have hcovers : start.covers [name] = true :=
    (Schema.covers_addClosure hclosure hroot (List.cons_ne_nil _ _)).mpr (.inr hshort)
  have hcoversKey : start.covers [name, identityField] = true :=
    (Schema.covers_addClosure hclosure hroot (List.cons_ne_nil _ _)).mpr (.inr hlong)
  have hextended := trace.extended
  have hotherExtended := otherTrace.extended
  rw [referencedPaths_filteredBy, addMissingPaths_of_covers hpath hcovers] at hextended
  rw [referencedPaths_filteredBy, addMissingPaths_of_covers hother hcoversKey, htype, hselect]
    at hotherExtended
  exact Except.ok.inj (hotherExtended.symm.trans hextended)

/-- The answers have the same shape if relationships are followed or fields were chosen. -/
theorem outputTree_eq_of_build_filteredBy {name : String} {field : Field}
    (hfirst : (draft.filteredBy (.simple path op value)).build schema settings = .ok first)
    (hsecond : (draft.filteredBy (.simple other op value)).build schema settings = .ok second)
    (hpath : Schema.pathSegments path = .ok [name])
    (hother : Schema.pathSegments other = .ok [name, identityField])
    (hfield : schema.resolve first.entityType name = .ok field)
    (hrelationship : field.isRelationship = true)
    (hchosen : settings.expandDepth ≠ 0 ∨ draft.selectMode ≠ .all) :
    second.outputTree = first.outputTree := by
  have hsame := eq_of_build_filteredBy hfirst hsecond
  have hselect : second.selectTree = first.selectTree := by rw [hsame]
  have hmode : second.selectMode = first.selectMode := by rw [hsame]
  have hdraft : first.selectMode = draft.selectMode := (options_of_build hfirst).2.2.2.2
  rw [Query.outputTree, Query.outputTree, hmode]
  by_cases hall : draft.selectMode = .all
  · have hdepth := hchosen.resolve_right (not_not.mpr hall)
    rw [Query.fetchTree, Query.fetchTree, hselect,
      extendTree_eq_of_build_filteredBy hfirst hsecond hpath hother hfield hrelationship hall
        hdepth]
  · cases hfirstMode : first.selectMode with
    | all => exact absurd (hdraft.symm.trans hfirstMode) hall
    | projection | explicit => exact hselect

end Draft

end EntityQuery
