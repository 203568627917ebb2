import EntityQuery.Proofs.Query.Typing
import EntityQuery.Proofs.Schema.Ways

/-!
# The paths of a built query are known

A path of the filter or of the order that nothing reaches is looked up when it is added. A path
that is passed over is reached in a tree that fits the schema, so it would have been found, too.
Thus every path of a built query is known from the queried type.
-/

namespace EntityQuery

open SelectTree

namespace Schema

variable {schema : Schema}

/-- A path that can be added is known. -/
theorem knows_of_addPath {type : String} {segments : List String} {tree out : SelectTree}
    (h : schema.addPath type segments tree = .ok out) : schema.Knows type segments := by
  induction segments generalizing type tree out with
  | nil => exact trivial
  | cons name path ih =>
    by_cases hpath : path = []
    · subst hpath
      obtain ⟨⟨field, hfield⟩, _⟩ := addPath_singleton_eq_ok h
      exact ⟨field, hfield, fun _ => trivial⟩
    · obtain ⟨field, fresh, hfield, _, _, h⟩ := addPath_cons_eq_ok hpath h
      obtain ⟨child, hchild, _⟩ := expandWith_eq_ok_iff.mp h
      exact ⟨field, hfield, fun _ => ih hchild⟩

/-- A path that a fitting tree reaches is known. -/
theorem knows_of_covers {tree : SelectTree} {segments : List String}
    (htree : Everywhere (fun tree => Tidy tree ∧ Typed schema tree) tree)
    (hcovers : tree.covers segments = true) : schema.Knows tree.entityType segments := by
  induction segments generalizing tree with
  | nil => exact trivial
  | cons name path ih =>
    obtain ⟨htidy, htyped⟩ := htree.here
    by_cases hpath : path = []
    · subst hpath
      obtain ⟨field, hfield⟩ := htyped.select name ((covers_singleton tree name).mp hcovers)
      exact ⟨field, hfield, fun _ => trivial⟩
    · obtain ⟨child, hchild, hbelow⟩ := (covers_cons hpath).mp hcovers
      have hentry := Entries.mem_of_get? hchild
      obtain ⟨found, hfound⟩ := htyped.select name (htidy.expanded_selected _ hentry)
      refine ⟨found, hfound, fun hrelationship => ?_⟩
      obtain ⟨nearest, hnearest, _, hmade⟩ := htyped.expand _ hentry
      have hfoundNearest : found = nearest :=
        Option.some.inj ((nearest?_of_resolve hfound hrelationship).symm.trans hnearest)
      obtain ⟨keyName, _, hbare⟩ := freshTree_eq_ok hmade
      have htype : child.entityType = found.target := by
        rw [hfoundNearest]
        exact congrArg SelectTree.entityType hbare
      exact htype ▸ ih (htree.child hchild) hbelow

end Schema

namespace Draft

variable {schema : Schema} {settings : BuildSettings} {draft : Draft} {query : Query}

/-- Paths that could be added where they are missing are known. -/
theorem knows_of_addMissingPaths {type : String} {paths : List String}
    {selected tree out : SelectTree}
    (h : addMissingPaths schema type selected paths tree = .ok out)
    (hselected : Everywhere (fun tree => Tidy tree ∧ Typed schema tree) selected)
    (htree : Everywhere (fun tree => Tidy tree ∧ Typed schema tree) tree)
    (hselectedType : selected.entityType = type) (htype : tree.entityType = type) :
    ∀ path ∈ paths, ∃ segments, Schema.pathSegments path = .ok segments ∧
      schema.Knows type segments := by
  induction paths generalizing tree with
  | nil => simp
  | cons first paths ih =>
    obtain ⟨segments, next, hsegments, hnext, hrest⟩ := addMissingPaths_cons h
    rcases hnext with ⟨hcovers, rfl⟩ | hadded
    · refine List.forall_mem_cons.mpr ⟨⟨segments, hsegments, ?_⟩, ih hrest htree htype⟩
      rcases Bool.or_eq_true_iff.mp hcovers with hreached | hreached
      · exact hselectedType ▸ Schema.knows_of_covers hselected hreached
      · exact htype ▸ Schema.knows_of_covers htree hreached
    · obtain ⟨hnextTyped, hbare⟩ :=
        Schema.typed_addPath hadded htype (htree.imp fun _ hnode => hnode.2)
      have hnextTidy := Schema.everywhere_addPath (tidy_keptByBuilding fun _ => True)
        (fun _ _ => trivial) hadded (htree.imp fun _ hnode => hnode.1)
      exact List.forall_mem_cons.mpr
        ⟨⟨segments, hsegments, Schema.knows_of_addPath hadded⟩,
          ih hrest (hnextTidy.and hnextTyped) ((entityType_of_bare_eq hbare).trans htype)⟩

/-- Every path of the filter and of the order of a built query is known from the queried type,
in the mode of everything within reach if names are declared again alike. -/
theorem knows_of_build (h : draft.build schema settings = .ok query)
    (halike : query.selectMode = .all → schema.RedeclaresAlike) :
    ∀ path ∈ draft.referencedPaths, ∃ segments, Schema.pathSegments path = .ok segments ∧
      schema.Knows query.entityType segments := by
  obtain ⟨keyName, selectStart, extendStart, trace⟩ := exists_trace_of_build h
  obtain ⟨_, _, _, _, hmode⟩ := options_of_build h
  obtain ⟨hselect, _, hselectType, _⟩ := typed_of_build h halike
  have hroot : Everywhere (Typed schema) (.root query.entityType keyName) :=
    .node (.root trace.named none) fun _ hentry => by cases hentry
  obtain ⟨hreached, hbare⟩ := typed_reachTree (hmode ▸ halike) trace.reached hroot
  have hkept := tidy_keptByBuilding fun _ => True
  have hreachedTidy := everywhere_reachTree hkept (fun _ _ _ _ _ _ _ => trivial) trace.reached
    (hkept.everywhere_root _ _ _)
  exact knows_of_addMissingPaths trace.extended ((tidy_of_build h).1.and hselect)
    (hreachedTidy.and hreached) hselectType (entityType_of_bare_eq hbare)

end Draft

end EntityQuery
