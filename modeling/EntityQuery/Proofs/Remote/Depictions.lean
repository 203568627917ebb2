import EntityQuery.Proofs.Query.Fitting
import EntityQuery.Proofs.Remote.SelectionReader
import EntityQuery.Proofs.Remote.Terms

/-!
# Select and expand lists depict select trees

A select tree of a built query is sent as two lists. What is read from them is the tree in the
words of the remote service, node by node, except that nothing stands behind the name of a related
record that only its identity is wanted of. The reader knows neither the schema nor the tree.
-/

namespace EntityQuery

open Remote

open SelectTree

namespace Remote

mutual

/-- A selection depicts a tree: it has the remote names of the wanted fields in order, and
depicts the children. -/
inductive Depicts (context : Context) : SelectTree → Selection → Prop where
  /-- It does so here and below. -/
  | node {tree : SelectTree} {selection : Selection}
    (names : context.remoteNames tree.entityType tree.select = .ok selection.names)
    (related : DepictsChildren context tree.entityType tree.expand selection.related) :
    Depicts context tree selection

/-- Selections depict the children of a node of some type, in order and each under the remote name
of its relationship. Nothing else is said of a child if only its identity is wanted. -/
inductive DepictsChildren (context : Context) :
    String → List (String × SelectTree) → List (String × Selection) → Prop where
  /-- There are no children. -/
  | nil {type : String} : DepictsChildren context type [] []
  /-- Only the identity of the first child is wanted. -/
  | alone {type name : String} {child : SelectTree} {children : List (String × SelectTree)}
    {field : Field} {related : List (String × Selection)}
    (found : context.schema.resolve type name = .ok field) (only : child.WantsIdentityOnly)
    (others : DepictsChildren context type children related) :
    DepictsChildren context type ((name, child) :: children)
      ((context.remoteName field, ⟨[], []⟩) :: related)
  /-- More is wanted of the first child. -/
  | whole {type name : String} {child : SelectTree} {children : List (String × SelectTree)}
    {field : Field} {selection : Selection} {related : List (String × Selection)}
    (found : context.schema.resolve type name = .ok field) (more : ¬child.WantsIdentityOnly)
    (inner : Depicts context child selection)
    (others : DepictsChildren context type children related) :
    DepictsChildren context type ((name, child) :: children)
      ((context.remoteName field, selection) :: related)

end

/-- The names of the wanted fields of a node can be told apart in a list. -/
def PlainlyNamed (context : Context) (tree : SelectTree) : Prop :=
  ∀ name ∈ tree.select, ∀ field, context.schema.resolve tree.entityType name = .ok field →
    IsName (context.remoteName field)

namespace Context

variable {context : Context}

/-- The select list and the expand list of a tree, as they stand in a request. -/
def lists (context : Context) (tree : SelectTree) :
    Except Fault (Option String × Option String) :=
  (context.selection tree).map fun selection =>
    (nonEmpty? selection.selectText,
      nonEmpty? (selection.expandText context.settings.paramPrefix))

/-- A request holds the lists of what must be fetched. -/
theorem lists_of_request {query : Query} {request : Request}
    (h : context.request query = .ok request) :
    context.lists query.fetchTree = .ok (request.select, request.expand) := by
  obtain ⟨_, _, h⟩ := bind_eq_ok_iff.mp h
  obtain ⟨_, _, h⟩ := bind_eq_ok_iff.mp h
  obtain ⟨selection, hselection, h⟩ := bind_eq_ok_iff.mp h
  obtain rfl := pure_eq_ok_iff.mp h
  rw [lists, hselection]
  rfl

/-- A node has a selection if the names of the wanted fields are found and the children have
selections. -/
theorem selection_eq_ok {tree : SelectTree} {selection : Selection}
    (h : context.selection tree = .ok selection) :
    context.remoteNames tree.entityType tree.select = .ok selection.names ∧
      context.relatedSelections tree.entityType tree.expand = .ok selection.related := by
  obtain ⟨type, keyName, select, expand, relationship⟩ := tree
  obtain ⟨names, hnames, h⟩ := bind_eq_ok_iff.mp h
  obtain ⟨related, hrelated, h⟩ := bind_eq_ok_iff.mp h
  obtain rfl := pure_eq_ok_iff.mp h
  exact ⟨hnames, hrelated⟩

/-- Children have selections if the name of the first is found, it is trivial or has a selection,
and the others have selections. -/
theorem relatedSelections_cons_eq_ok {type name : String} {child : SelectTree}
    {children : List (String × SelectTree)} {related : List (String × Selection)}
    (h : context.relatedSelections type ((name, child) :: children) = .ok related) :
    ∃ field inner others, context.schema.resolve type name = .ok field ∧
      (child.isTrivial = true ∧ inner = ⟨[], []⟩ ∨
        child.isTrivial = false ∧ context.selection child = .ok inner) ∧
      context.relatedSelections type children = .ok others ∧
      related = (context.remoteName field, inner) :: others := by
  obtain ⟨field, hfield, h⟩ := bind_eq_ok_iff.mp h
  cases htrivial : child.isTrivial with
  | true =>
    simp only [htrivial, if_true, pure_bind] at h
    obtain ⟨others, hothers, h⟩ := bind_eq_ok_iff.mp h
    exact ⟨field, ⟨[], []⟩, others, hfield, .inl ⟨rfl, rfl⟩, hothers, (pure_eq_ok_iff.mp h).symm⟩
  | false =>
    simp only [htrivial, Bool.false_eq_true, if_false] at h
    obtain ⟨inner, hinner, h⟩ := bind_eq_ok_iff.mp h
    obtain ⟨others, hothers, h⟩ := bind_eq_ok_iff.mp h
    exact ⟨field, inner, others, hfield, .inr ⟨rfl, hinner⟩, hothers, (pure_eq_ok_iff.mp h).symm⟩

/-- The selections of tidy children depict them if each selection depicts its child. -/
theorem depictsChildren_of_relatedSelections {type : String}
    {children : List (String × SelectTree)} {related : List (String × Selection)}
    (h : context.relatedSelections type children = .ok related)
    (htidy : ∀ entry ∈ children, Tidy entry.2)
    (hdepicts : ∀ entry ∈ children, ∀ selection, context.selection entry.2 = .ok selection →
      Depicts context entry.2 selection) : DepictsChildren context type children related := by
  induction children generalizing related with
  | nil =>
    obtain rfl := Except.ok.inj h
    exact .nil
  | cons entry children ih =>
    obtain ⟨name, child⟩ := entry
    obtain ⟨field, inner, others, hfield, hinner, hothers, rfl⟩ := relatedSelections_cons_eq_ok h
    have hrest : DepictsChildren context type children others :=
      ih hothers (fun other hother => htidy other (List.mem_cons_of_mem _ hother))
        fun other hother => hdepicts other (List.mem_cons_of_mem _ hother)
    have htrivial : child.isTrivial = true ↔ child.WantsIdentityOnly :=
      (htidy _ List.mem_cons_self).isTrivial_iff
    rcases hinner with ⟨halone, rfl⟩ | ⟨hmore, hselection⟩
    · exact .alone hfield (htrivial.mp halone) hrest
    · refine .whole hfield (fun honly => ?_) (hdepicts _ List.mem_cons_self inner hselection) hrest
      rw [htrivial.mpr honly] at hmore
      cases hmore

/-- The selection of a tree that is tidy everywhere depicts it. -/
theorem depicts_of_selection {tree : SelectTree} (htree : Everywhere Tidy tree)
    {selection : Selection} (h : context.selection tree = .ok selection) :
    Depicts context tree selection := by
  induction htree generalizing selection with
  | @node tree here children ih =>
    obtain ⟨hnames, hrelated⟩ := selection_eq_ok h
    exact .node hnames (depictsChildren_of_relatedSelections hrelated
      (fun entry hentry => (children entry hentry).here) fun entry hentry _ => ih entry hentry)

/-- The selection of a related record is that of one of the children, unless only the identity is
wanted. -/
theorem exists_child_of_mem_relatedSelections {type : String}
    {children : List (String × SelectTree)} {related : List (String × Selection)}
    (h : context.relatedSelections type children = .ok related) {entry : String × Selection}
    (hentry : entry ∈ related) :
    ∃ child ∈ children, ∃ field, context.schema.resolve type child.1 = .ok field ∧
      entry.1 = context.remoteName field ∧
      (entry.2 ≠ ⟨[], []⟩ → context.selection child.2 = .ok entry.2) := by
  induction children generalizing related with
  | nil =>
    obtain rfl := Except.ok.inj h
    cases hentry
  | cons head children ih =>
    obtain ⟨name, child⟩ := head
    obtain ⟨field, inner, others, hfield, hinner, hothers, rfl⟩ := relatedSelections_cons_eq_ok h
    rcases List.mem_cons.mp hentry with rfl | hmem
    · refine ⟨_, List.mem_cons_self, field, hfield, rfl, fun hne => ?_⟩
      rcases hinner with ⟨_, halone⟩ | ⟨_, hselection⟩
      · exact absurd halone hne
      · exact hselection
    · obtain ⟨found, hfound, hrest⟩ := ih hothers hmem
      exact ⟨found, List.mem_cons_of_mem _ hfound, hrest⟩

/-- The selection of a tidy tree whose names can be told apart can be read. -/
theorem readable_of_selection {tree : SelectTree}
    (htree : Everywhere (fun tree => Tidy tree ∧ PlainlyNamed context tree) tree)
    {selection : Selection} (h : context.selection tree = .ok selection) : selection.Readable := by
  induction htree generalizing selection with
  | @node tree here children ih =>
    obtain ⟨htidy, hplain⟩ := here
    obtain ⟨hnames, hrelated⟩ := selection_eq_ok h
    refine .node ?_ ?_ ?_ ?_
    · obtain ⟨name, hname, _⟩ := exists_result_of_mapM hnames htidy.identity_mem
      exact List.ne_nil_of_mem hname
    · intro name hname
      obtain ⟨wanted, hwanted, hfound⟩ := exists_of_mem_mapM hnames hname
      obtain ⟨field, hfield, hpure⟩ := bind_eq_ok_iff.mp hfound
      obtain rfl := pure_eq_ok_iff.mp hpure
      exact hplain wanted hwanted field hfield
    · intro entry hentry
      obtain ⟨child, hchild, field, hfield, hname, _⟩ :=
        exists_child_of_mem_relatedSelections hrelated hentry
      rw [hname]
      exact hplain child.1 (htidy.expanded_selected child hchild) field hfield
    · intro entry hentry hne
      obtain ⟨child, hchild, _, _, _, hselection⟩ :=
        exists_child_of_mem_relatedSelections hrelated hentry
      exact ih child hchild (hselection hne)

/-- The names of the wanted fields can be told apart if those of the models can. -/
theorem plainlyNamed_of_requestNames
    (h : ∀ entry ∈ context.schema.models, ∀ name ∈ requestNames context.settings entry.2,
      IsName name) (tree : SelectTree) : PlainlyNamed context tree := by
  intro name _ field hfield
  rcases remoteName_of_resolve hfield with hidentity | ⟨entry, hentry, hname⟩
  · rw [hidentity]
    decide
  · exact h entry hentry _ hname

end Context

end Remote

namespace Draft

variable {draft : Draft} {settings : BuildSettings} {query : Query} {context : Context}

/-- If fields were chosen, every tree of a built query has a select list and an expand list. If
the names of the wanted fields can be told apart at every node, what is read from the two lists
depicts the tree. The lists of what must be fetched are those of the request. -/
theorem built_lists_depict (h : draft.build context.schema settings = .ok query)
    (hchosen : query.selectMode ≠ .all) (hstart : '=' ∉ context.settings.paramPrefix.toList) :
    (∀ tree ∈ query.trees, Everywhere (PlainlyNamed context) tree →
      ∃ select expand selection, context.lists tree = .ok (select, expand) ∧
        readLists select expand = some selection ∧ Depicts context tree selection) ∧
      ∀ request, context.request query = .ok request →
        context.lists query.fetchTree = .ok (request.select, request.expand) := by
  obtain ⟨hselectTidy, hextendTidy⟩ := tidy_of_build h
  obtain ⟨hselect, hextend, _, _⟩ := typed_of_build h fun hall => absurd hall hchosen
  have hfetch := typed_fetchTree h fun hall => absurd hall hchosen
  have hfits : ∀ tree ∈ query.trees,
      Everywhere (fun tree => Tidy tree ∧ Typed context.schema tree) tree :=
    Query.forall_trees (hselectTidy.and hselect) (hextendTidy.and hextend) hfetch
  refine ⟨fun tree htree hplain => ?_, fun request => Context.lists_of_request⟩
  have htidy : Everywhere Tidy tree := (hfits tree htree).imp fun _ hnode => hnode.1
  obtain ⟨selection, hselection⟩ := Context.exists_selection (hfits tree htree)
  have hreadable : selection.Readable :=
    Context.readable_of_selection (htidy.and hplain) hselection
  refine ⟨_, _, selection, map_eq_ok_iff.mpr ⟨selection, hselection, rfl⟩,
    hreadable.readLists_texts hstart, Context.depicts_of_selection htidy hselection⟩

/-- The steps of a query for the names of the employees, the identities of the managers of their
managers, and the prices of their orders. -/
def commandSteps : List Step :=
  [.ofType "employee", .select "name, manager.manager.id, orders.price"]

theorem built_lists_depict_command :
    ∃ query request selection, (ofSteps commandSteps).build Sample.schema = .ok query ∧
      query.selectMode ≠ .all ∧ Context.sample.request query = .ok request ∧
      request.select = some "id,Name,Manager,Orders" ∧
      request.expand =
        some "Manager($select=id,Manager;$expand=Manager),Orders($select=id,Price)" ∧
      readLists request.select request.expand = some selection ∧
      Depicts Context.sample query.fetchTree selection := by
  obtain ⟨query, hbuild⟩ : ∃ query,
      (ofSteps commandSteps).build Context.sample.schema = .ok query :=
    exists_eq_ok_of_isOk (by decide +kernel)
  have hchosen : query.selectMode ≠ .all := by
    rw [(options_of_build hbuild).2.2.2.2]
    decide +kernel
  have htexts : ((ofSteps commandSteps).build Context.sample.schema >>= Context.sample.request).map
      (fun request => (request.select, request.expand)) =
        .ok (some "id,Name,Manager,Orders",
          some "Manager($select=id,Manager;$expand=Manager),Orders($select=id,Price)") := by
    decide +kernel
  rw [hbuild, ok_bind] at htexts
  obtain ⟨request, hrequest, hlists⟩ := map_eq_ok_iff.mp htexts
  obtain ⟨hselect, hexpand⟩ := Prod.mk.inj hlists
  have hplain : ∀ tree, Everywhere (PlainlyNamed Context.sample) tree := by
    refine Everywhere.of_forall (Context.plainlyNamed_of_requestNames ?_)
    intro entry hentry
    simp only [Context.sample, Sample.schema, List.mem_cons, List.not_mem_nil, or_false] at hentry
    rcases hentry with rfl | rfl <;> decide +kernel
  obtain ⟨hdepict, hsent⟩ := built_lists_depict hbuild hchosen (by decide)
  obtain ⟨select, expand, selection, hfound, hread, hdepicts⟩ :=
    hdepict query.fetchTree (by simp [Query.trees]) (hplain _)
  obtain ⟨rfl, rfl⟩ := Prod.mk.inj (Except.ok.inj (hfound.symm.trans (hsent request hrequest)))
  exact ⟨query, request, selection, hbuild, hchosen, hrequest, hselect, hexpand, hread, hdepicts⟩

end Draft

end EntityQuery
