import EntityQuery.Proofs.Query.Trees
import EntityQuery.Proofs.Schema.Listing

/-!
# Trees that fit a schema

A node of a select tree fits a schema if its type has every field that is wanted there, and if
the tree of every relationship is one of the records that the relationship leads to. Every
step of building keeps this, because it makes the tree of a relationship anew from the field
that it looked up. Wanting everything within reach goes by the listed fields instead, so it
keeps it only if a name that is declared again leads to the same records.
-/

namespace EntityQuery

open SelectTree

namespace SelectTree

/-- The tree as it was made, without what is wanted. -/
def bare (tree : SelectTree) : SelectTree :=
  .root tree.entityType tree.keyName tree.relationship

@[simp] theorem bare_root (entityType keyName : String)
    (relationship : Option RelationshipFlags) :
    (root entityType keyName relationship).bare = root entityType keyName relationship := rfl

@[simp] theorem bare_addSelect (tree : SelectTree) (name : String) :
    (tree.addSelect name).bare = tree.bare := rfl

@[simp] theorem bare_withChild (tree : SelectTree) (name : String) (child : SelectTree) :
    (tree.withChild name child).bare = tree.bare := rfl

@[simp] theorem bare_merged (first second : SelectTree) :
    (first.merged second).bare = first.bare := by
  cases first
  rfl

/-- Trees that were made alike are of one type. -/
theorem entityType_of_bare_eq {first second : SelectTree} (h : first.bare = second.bare) :
    first.entityType = second.entityType := by
  have hbare : first.bare.entityType = second.bare.entityType := by rw [h]
  exact hbare

/-- A node fits a schema: its type has what is wanted, and the tree of a relationship was made
for the relationship that the nearest model declares. -/
structure Typed (schema : Schema) (tree : SelectTree) : Prop where
  /-- The type has every wanted field. -/
  select : ∀ name ∈ tree.select, ∃ field, schema.resolve tree.entityType name = .ok field
  /-- The tree of a relationship is one of the records that it leads to. -/
  expand : ∀ entry ∈ tree.expand, ∃ field,
    schema.nearest? tree.entityType entry.1 = some field ∧ field.isRelationship = true ∧
      schema.freshTree field = .ok entry.2.bare

namespace Typed

variable {schema : Schema} {tree : SelectTree} {name : String} {field : Field}

/-- A tree of a type that has a key fits. -/
theorem root {entityType keyName : String} (hkey : schema.keyNameOf entityType = .ok keyName)
    (relationship : Option RelationshipFlags) :
    Typed schema (.root entityType keyName relationship) where
  select other hother := by
    obtain ⟨key, hkey, _⟩ := bind_eq_ok_iff.mp hkey
    obtain rfl := List.mem_singleton.mp hother
    exact ⟨key, (if_pos rfl).trans hkey⟩
  expand entry hentry := by cases hentry

/-- The tree that is made for a field fits. -/
theorem freshTree {fresh : SelectTree} (h : schema.freshTree field = .ok fresh) :
    Typed schema fresh ∧ fresh.bare = fresh ∧ fresh.expand = [] := by
  obtain ⟨keyName, hkey, rfl⟩ := Schema.freshTree_eq_ok h
  exact ⟨root hkey field.flags?, rfl, rfl⟩

/-- Wanting a field that the type has keeps a node fitting. -/
theorem addSelect (h : Typed schema tree)
    (hname : schema.resolve tree.entityType name = .ok field) :
    Typed schema (tree.addSelect name) where
  select other hother := by
    rcases mem_addName.mp hother with hold | rfl
    · exact h.select other hold
    · exact ⟨field, hname⟩
  expand := h.expand

/-- Putting the tree of a relationship in its place keeps a node fitting. -/
theorem withChild {found : Field} {child : SelectTree} (h : Typed schema tree)
    (hname : schema.resolve tree.entityType name = .ok found)
    (hnearest : schema.nearest? tree.entityType name = some field)
    (hrelationship : field.isRelationship = true)
    (hchild : schema.freshTree field = .ok child.bare) :
    Typed schema (tree.withChild name child) where
  select other hother := by
    rcases mem_addName.mp hother with hold | rfl
    · exact h.select other hold
    · exact ⟨found, hname⟩
  expand entry hentry := by
    rcases Entries.mem_insert hentry with rfl | hold
    · exact ⟨field, hnearest, hrelationship, hchild⟩
    · exact h.expand entry hold

end Typed

variable {schema : Schema}

/-- A tree that fits everywhere still does so when another field that its type has is wanted. -/
theorem everywhere_typed_addSelect {tree : SelectTree} {name : String} {field : Field}
    (h : Everywhere (Typed schema) tree)
    (hname : schema.resolve tree.entityType name = .ok field) :
    Everywhere (Typed schema) (tree.addSelect name) :=
  .node (h.here.addSelect hname) h.children

/-- Changing the tree of a relationship in a way that keeps it fitting keeps the whole tree
fitting. -/
theorem everywhere_typed_expandWith {ε : Type} {tree fresh out : SelectTree} {name : String}
    {found field : Field} {change : SelectTree → Except ε SelectTree}
    (h : Everywhere (Typed schema) tree)
    (hname : schema.resolve tree.entityType name = .ok found)
    (hnearest : schema.nearest? tree.entityType name = some field)
    (hrelationship : field.isRelationship = true) (hfresh : schema.freshTree field = .ok fresh)
    (hchange : ∀ before after, change before = .ok after → before.bare = fresh →
      Everywhere (Typed schema) before → Everywhere (Typed schema) after ∧ after.bare = before.bare)
    (hout : tree.expandWith name fresh change = .ok out) :
    Everywhere (Typed schema) out ∧ out.bare = tree.bare := by
  obtain ⟨hfreshTyped, hfreshBare, hfreshExpand⟩ := Typed.freshTree hfresh
  have hbefore : Everywhere (Typed schema) ((Entries.get? tree.expand name).getD fresh) ∧
      ((Entries.get? tree.expand name).getD fresh).bare = fresh := by
    cases hold : Entries.get? tree.expand name with
    | none =>
      refine ⟨.node hfreshTyped fun entry hentry => ?_, hfreshBare⟩
      rw [Option.getD_none, hfreshExpand] at hentry
      cases hentry
    | some old =>
      obtain ⟨other, hother, _, hmadeForOther⟩ := h.here.expand _ (Entries.mem_of_get? hold)
      obtain rfl : field = other := Option.some.inj (hnearest.symm.trans hother)
      exact ⟨h.child hold, Except.ok.inj (hmadeForOther.symm.trans hfresh)⟩
  obtain ⟨child, hchild, rfl⟩ := expandWith_eq_ok_iff.mp hout
  obtain ⟨hafter, hbare⟩ := hchange _ child hchild hbefore.2 hbefore.1
  have hmade : schema.freshTree field = .ok child.bare := by rw [hbare, hbefore.2, hfresh]
  refine ⟨.node (h.here.withChild hname hnearest hrelationship hmade) fun entry hentry => ?_, rfl⟩
  rcases Entries.mem_insert hentry with rfl | hkept
  · exact hafter
  · exact h.children entry hkept

/-- Trees of one type that fit have a union that fits. -/
theorem everywhere_typed_merged {first second : SelectTree}
    (hfirst : Everywhere (fun tree => Tidy tree ∧ Typed schema tree) first)
    (hsecond : Everywhere (fun tree => Tidy tree ∧ Typed schema tree) second)
    (htype : first.entityType = second.entityType) :
    Everywhere (Typed schema) (first.merged second) := by
  induction hfirst generalizing second with
  | @node first here children ih =>
    obtain ⟨htidy, htyped⟩ := here
    obtain ⟨hotherTidy, hother⟩ := hsecond.here
    have hsame : ∀ name left right, (name, left) ∈ first.expand → (name, right) ∈ second.expand →
        left.bare = right.bare := by
      intro name left right hleft hright
      obtain ⟨field, hnearest, _, hmade⟩ := htyped.expand _ hleft
      obtain ⟨other, hotherNearest, _, hotherMade⟩ := hother.expand _ hright
      rw [← htype] at hotherNearest
      obtain rfl := Option.some.inj (hnearest.symm.trans hotherNearest)
      exact Except.ok.inj (hmade.symm.trans hotherMade)
    refine .node ⟨?_, ?_⟩ ?_
    · intro name hname
      rw [select_merged, mem_foldl_addName] at hname
      rw [entityType_merged]
      rcases hname with hleft | hright
      · exact htyped.select name hleft
      · exact htype ▸ hother.select name hright
    · intro entry hentry
      rw [entityType_merged]
      rcases mem_expand_merged htidy.ordered hotherTidy.ordered hentry with
        ⟨left, hleft, heq | ⟨right, _, heq⟩⟩ | hright
      · rw [heq]
        exact htyped.expand _ hleft
      · rw [heq, bare_merged]
        exact htyped.expand _ hleft
      · exact htype ▸ hother.expand entry hright
    · intro entry hentry
      rcases mem_expand_merged htidy.ordered hotherTidy.ordered hentry with
        ⟨left, hleft, heq | ⟨right, hright, heq⟩⟩ | hright
      · rw [heq]
        exact (children _ hleft).imp fun _ hnode => hnode.2
      · rw [heq]
        exact ih _ hleft (hsecond.children _ hright)
          (entityType_of_bare_eq (hsame _ _ _ hleft hright))
      · exact (hsecond.children entry hright).imp fun _ hnode => hnode.2

end SelectTree

namespace Schema

variable {schema : Schema}

/-- A relationship that is found is the one that the nearest model declares. -/
theorem nearest?_of_resolve {type name : String} {field : Field}
    (h : schema.resolve type name = .ok field) (hrelationship : field.isRelationship = true) :
    schema.nearest? type name = some field :=
  (resolve_eq_ok_iff (ne_identityField_of_resolve h hrelationship)).mp h

/-- Wanting the field at a path keeps a tree fitting. -/
theorem typed_addPath {type : String} {segments : List String} {tree out : SelectTree}
    (h : schema.addPath type segments tree = .ok out) (htype : tree.entityType = type)
    (htree : Everywhere (Typed schema) tree) :
    Everywhere (Typed schema) out ∧ out.bare = tree.bare := by
  induction segments generalizing type tree out with
  | nil =>
    obtain rfl := Except.ok.inj h
    exact ⟨htree, rfl⟩
  | cons segment rest ih =>
    subst htype
    by_cases hrest : rest = []
    · subst hrest
      obtain ⟨⟨field, hfield⟩, rfl⟩ := addPath_singleton_eq_ok h
      exact ⟨everywhere_typed_addSelect htree hfield, rfl⟩
    · obtain ⟨field, fresh, hfield, hrelationship, hfresh, h⟩ := addPath_cons_eq_ok hrest h
      refine everywhere_typed_expandWith htree hfield (nearest?_of_resolve hfield hrelationship)
        hrelationship hfresh ?_ h
      intro before after hchange hbare hbefore
      obtain ⟨keyName, _, rfl⟩ := freshTree_eq_ok hfresh
      exact ih hchange (congrArg SelectTree.entityType hbare) hbefore

mutual

/-- Wanting a field of a projection keeps a tree fitting. -/
theorem typed_addProjected {type : String} :
    ∀ (projected : ProjectedField) {tree out : SelectTree},
      schema.addProjected type projected tree = .ok out → tree.entityType = type →
        Everywhere (Typed schema) tree → Everywhere (Typed schema) out ∧ out.bare = tree.bare
  | ⟨name, kind, caption, fields⟩, tree, out, h, htype, htree => by
    subst htype
    obtain ⟨field, hfield, ⟨_, rfl⟩ | ⟨_, hrelationship, fresh, hfresh, h⟩⟩ :=
      addProjected_eq_ok h
    · exact ⟨everywhere_typed_addSelect htree hfield, rfl⟩
    · refine everywhere_typed_expandWith htree hfield (nearest?_of_resolve hfield hrelationship)
        hrelationship hfresh ?_ h
      intro before after hchange hbare hbefore
      obtain ⟨keyName, _, rfl⟩ := freshTree_eq_ok hfresh
      exact typed_addProjectedAll fields hchange (congrArg SelectTree.entityType hbare) hbefore

/-- Wanting the fields of a projection keeps a tree fitting. -/
theorem typed_addProjectedAll {type : String} :
    ∀ (fields : List ProjectedField) {tree out : SelectTree},
      schema.addProjectedAll type fields tree = .ok out → tree.entityType = type →
        Everywhere (Typed schema) tree → Everywhere (Typed schema) out ∧ out.bare = tree.bare
  | [], tree, out, h, htype, htree => by
    rw [addProjectedAll] at h
    obtain rfl := Except.ok.inj h
    exact ⟨htree, rfl⟩
  | field :: fields, tree, out, h, htype, htree => by
    rw [addProjectedAll] at h
    obtain ⟨next, hnext, h⟩ := bind_eq_ok_iff.mp h
    obtain ⟨htyped, hbare⟩ := typed_addProjected field hnext htype htree
    obtain ⟨hout, hsame⟩ :=
      typed_addProjectedAll fields h ((entityType_of_bare_eq hbare).trans htype) htyped
    exact ⟨hout, hsame.trans hbare⟩

end

/-- Fields that lead to the same records in the same way have the same fresh tree. -/
theorem freshTree_congr {field other : Field} (htarget : field.target? = other.target?)
    (hflags : field.flags? = other.flags?) :
    schema.freshTree field = schema.freshTree other := by
  rw [freshTree, freshTree, Field.target, Field.target, htarget, hflags]

/-- Fields that lead on in the same way are relationships both or scalars both. -/
theorem isRelationship_congr {field other : Field} (hflags : field.flags? = other.flags?) :
    field.isRelationship = other.isRelationship := by
  have hkind : ∀ field : Field,
      field.kind = (field.flags?.map RelationshipFlags.kind).getD .scalar :=
    fun field => by cases field <;> rfl
  rw [Field.isRelationship, Field.isRelationship, hkind, hkind other, hflags]

/-- Wanting fields that the type has keeps a tree fitting. -/
theorem typed_foldl_addSelect {fields : List Field} {tree : SelectTree}
    (hfields : ∀ field ∈ fields, ∃ found, schema.resolve tree.entityType field.name = .ok found)
    (htree : Everywhere (Typed schema) tree) :
    Everywhere (Typed schema) (fields.foldl (fun tree field => tree.addSelect field.name) tree) ∧
      (fields.foldl (fun tree field => tree.addSelect field.name) tree).bare = tree.bare := by
  induction fields generalizing tree with
  | nil => exact ⟨htree, rfl⟩
  | cons field fields ih =>
    obtain ⟨found, hfound⟩ := hfields field List.mem_cons_self
    have hothers : ∀ other ∈ fields, ∃ found,
        schema.resolve (tree.addSelect field.name).entityType other.name = .ok found :=
      fun other hother => hfields other (List.mem_cons_of_mem field hother)
    exact ih hothers (everywhere_typed_addSelect htree hfound)

/-- Wanting every field keeps a tree fitting if names are declared again alike: a listed field need
not be the nearest one, but that one leads to the same records. -/
theorem typed_addClosure (halike : schema.RedeclaresAlike) {depth : Nat} {type : String}
    {tree out : SelectTree} (h : schema.addClosure depth type tree = .ok out)
    (htype : tree.entityType = type) (htree : Everywhere (Typed schema) tree) :
    Everywhere (Typed schema) out ∧ out.bare = tree.bare := by
  induction depth generalizing type tree out with
  | zero =>
    subst htype
    obtain ⟨listed, hlisted, h⟩ := bind_eq_ok_iff.mp h
    obtain rfl := pure_eq_ok_iff.mp h
    exact typed_foldl_addSelect (fun field => exists_resolve_of_listed hlisted) htree
  | succ depth ih =>
    obtain ⟨listed, hlisted, h⟩ := bind_eq_ok_iff.mp h
    refine foldlM_induction
      (motive := fun out => Everywhere (Typed schema) out ∧ out.bare = tree.bare) h ⟨htree, rfl⟩ ?_
    intro field hfield before after hstep ⟨hbefore, hbare⟩
    have hbeforeType : before.entityType = type := (entityType_of_bare_eq hbare).trans htype
    subst hbeforeType
    obtain ⟨found, hfound⟩ := exists_resolve_of_listed hlisted hfield
    cases hrelationship : field.isRelationship with
    | false =>
      simp only [hrelationship, Bool.false_eq_true, if_false, pure_eq_ok_iff] at hstep
      subst hstep
      exact ⟨everywhere_typed_addSelect hbefore hfound, hbare⟩
    | true =>
      simp only [hrelationship, if_true] at hstep
      obtain ⟨fresh, hfresh, hstep⟩ := bind_eq_ok_iff.mp hstep
      obtain ⟨nearest, hnearest, htarget, hflags⟩ := halike.exists_nearest? hlisted hfield
      have hmade : schema.freshTree nearest = .ok fresh :=
        (freshTree_congr htarget hflags).trans hfresh
      obtain ⟨hafter, hsame⟩ := everywhere_typed_expandWith hbefore hfound hnearest
        ((isRelationship_congr hflags).trans hrelationship) hmade
        (fun inner changed hchange hinnerBare hinner => by
          obtain ⟨keyName, _, rfl⟩ := freshTree_eq_ok hfresh
          exact ih hchange (congrArg SelectTree.entityType hinnerBare) hinner) hstep
      exact ⟨hafter, hsame.trans hbare⟩

end Schema

namespace Draft

variable {schema : Schema} {draft : Draft} {settings : BuildSettings} {query : Query}

/-- Wanting the fields of the projection keeps a tree fitting. -/
theorem typed_addProjection {type : String} {tree out : SelectTree}
    (h : draft.addProjection schema type tree = .ok out) (htype : tree.entityType = type)
    (htree : Everywhere (Typed schema) tree) :
    Everywhere (Typed schema) out ∧ out.bare = tree.bare := by
  unfold addProjection at h
  cases hname : draft.projectionName with
  | none =>
    simp only [hname, Except.ok.injEq] at h
    exact h ▸ ⟨htree, rfl⟩
  | some name =>
    simp only [hname] at h
    obtain ⟨projection, _, h⟩ := bind_eq_ok_iff.mp h
    exact Schema.typed_addProjectedAll projection.fields h htype htree

/-- Wanting the fields at paths keeps a tree fitting. -/
theorem typed_addPaths {type : String} {paths : List String} {tree out : SelectTree}
    (h : addPaths schema type paths tree = .ok out) (htype : tree.entityType = type)
    (htree : Everywhere (Typed schema) tree) :
    Everywhere (Typed schema) out ∧ out.bare = tree.bare := by
  refine foldlM_induction
    (motive := fun out => Everywhere (Typed schema) out ∧ out.bare = tree.bare) h ⟨htree, rfl⟩ ?_
  intro path _ before after hstep ⟨hbefore, hbare⟩
  obtain ⟨segments, _, hstep⟩ := bind_eq_ok_iff.mp hstep
  obtain ⟨hafter, hsame⟩ :=
    Schema.typed_addPath hstep ((entityType_of_bare_eq hbare).trans htype) hbefore
  exact ⟨hafter, hsame.trans hbare⟩

/-- Adding missing paths keeps a tree fitting. -/
theorem typed_addMissingPaths {type : String} {paths : List String}
    {selected tree out : SelectTree}
    (h : addMissingPaths schema type selected paths tree = .ok out)
    (htype : tree.entityType = type) (htree : Everywhere (Typed schema) tree) :
    Everywhere (Typed schema) out ∧ out.bare = tree.bare := by
  induction paths generalizing tree with
  | nil =>
    obtain rfl := pure_eq_ok_iff.mp h
    exact ⟨htree, rfl⟩
  | cons path paths ih =>
    obtain ⟨segments, next, _, ⟨_, rfl⟩ | hadded, hrest⟩ := addMissingPaths_cons h
    · exact ih hrest htype htree
    · obtain ⟨hnext, hbare⟩ := Schema.typed_addPath hadded htype htree
      obtain ⟨hout, hsame⟩ := ih hrest ((entityType_of_bare_eq hbare).trans htype) hnext
      exact ⟨hout, hsame.trans hbare⟩

/-- Wanting what is within reach keeps a tree fitting if names are declared again alike. -/
theorem typed_reachTree {root out : SelectTree}
    (halike : draft.selectMode = .all → schema.RedeclaresAlike)
    (h : draft.reachTree schema settings root = .ok out) (hroot : Everywhere (Typed schema) root) :
    Everywhere (Typed schema) out ∧ out.bare = root.bare := by
  unfold reachTree at h
  by_cases hall : draft.selectMode = .all
  · rw [if_pos hall] at h
    exact Schema.typed_addClosure (halike hall) h rfl hroot
  · rw [if_neg hall] at h
    exact Except.ok.inj h ▸ ⟨hroot, rfl⟩

/-- The trees of a built query fit the schema, in the mode of everything within reach if names
are declared again alike. -/
theorem typed_of_build (h : draft.build schema settings = .ok query)
    (halike : query.selectMode = .all → schema.RedeclaresAlike) :
    Everywhere (Typed schema) query.selectTree ∧ Everywhere (Typed schema) query.extendTree ∧
      query.selectTree.entityType = query.entityType ∧
        query.extendTree.entityType = query.entityType := by
  obtain ⟨keyName, selectStart, extendStart, trace⟩ := exists_trace_of_build h
  obtain ⟨_, _, _, _, hmode⟩ := options_of_build h
  have hroot : Everywhere (Typed schema) (.root query.entityType keyName) :=
    .node (.root trace.named none) fun _ hentry => by cases hentry
  obtain ⟨hprojected, hprojectedBare⟩ := typed_addProjection trace.projected rfl hroot
  have hprojectedType := entityType_of_bare_eq hprojectedBare
  obtain ⟨hselect, hselectBare⟩ := typed_addPaths trace.selected hprojectedType hprojected
  obtain ⟨hreached, hreachedBare⟩ := typed_reachTree (hmode ▸ halike) trace.reached hroot
  have hreachedType := entityType_of_bare_eq hreachedBare
  obtain ⟨hextend, hextendBare⟩ := typed_addMissingPaths trace.extended hreachedType hreached
  exact ⟨hselect, hextend, (entityType_of_bare_eq hselectBare).trans hprojectedType,
    (entityType_of_bare_eq hextendBare).trans hreachedType⟩

/-- So does the tree of what must be fetched. -/
theorem typed_fetchTree (h : draft.build schema settings = .ok query)
    (halike : query.selectMode = .all → schema.RedeclaresAlike) :
    Everywhere (fun tree => Tidy tree ∧ Typed schema tree) query.fetchTree := by
  obtain ⟨hselect, hextend, hselectType, hextendType⟩ := typed_of_build h halike
  obtain ⟨hselectTidy, hextendTidy⟩ := tidy_of_build h
  exact (tidy_fetchTree h).and (everywhere_typed_merged (hselectTidy.and hselect)
    (hextendTidy.and hextend) (hselectType.trans hextendType.symm))

end Draft

end EntityQuery
