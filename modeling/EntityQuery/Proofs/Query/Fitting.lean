import EntityQuery.Proofs.Remote.Selections
import EntityQuery.Proofs.Store.Layouts

/-!
# Trees that were chosen fit

Every node of the trees of a built query is tidy. If fields were chosen, every tree of related
records is moreover one of the relationship that its type has under that name. So what is
wanted anywhere is found, and neither the selection of a request nor the layouts of a store can
fail on such a query.
-/

namespace EntityQuery

open SelectTree

namespace SelectTree

/-- The trees below a node are those of the relationships that its type has under their names.
Each is of the type that the relationship leads to, has the name of the key of that type, and
has the properties of the relationship. -/
def FollowsRelationships (schema : Schema) (tree : SelectTree) : Prop :=
  ∀ entry ∈ tree.expand, ∃ field key,
    schema.resolve tree.entityType entry.1 = .ok field ∧
      field.target? = some entry.2.entityType ∧ field.flags? = entry.2.relationship ∧
      schema.key entry.2.entityType = .ok key ∧ key.remoteName? = some entry.2.keyName

end SelectTree

namespace Schema

variable {schema : Schema}

/-- The key of a type is named as it is named in remote requests. -/
theorem exists_key_of_keyNameOf {type keyName : String} (h : schema.keyNameOf type = .ok keyName) :
    ∃ key, schema.key type = .ok key ∧ key.remoteName? = some keyName := by
  obtain ⟨key, hkey, hname⟩ := bind_eq_ok_iff.mp h
  obtain ⟨remoteName, keyType, rfl⟩ := key_eq_ok hkey
  exact ⟨_, hkey, congrArg some (pure_eq_ok_iff.mp hname)⟩

/-- A relationship has a target. -/
theorem target?_of_isRelationship {field : Field} (h : field.isRelationship = true) :
    field.target? = some field.target := by
  cases field with
  | related owner declaration => rfl
  | key entity remoteName type => cases h
  | scalar owner declaration => cases h

/-- A node that fits and does not expand the identity has the trees of its relationships. -/
theorem followsRelationships_of_typed {tree : SelectTree} (htyped : Typed schema tree)
    (hkeeps : KeepsIdentity tree) : FollowsRelationships schema tree := by
  intro entry hentry
  obtain ⟨field, hnearest, hrelationship, hmade⟩ := htyped.expand entry hentry
  have hname : entry.1 ≠ identityField := Entries.get?_eq_none_iff.mp hkeeps entry hentry
  obtain ⟨keyName, hkeyName, hbare⟩ := freshTree_eq_ok hmade
  have htype : entry.2.entityType = field.target := congrArg SelectTree.entityType hbare
  have hkey : entry.2.keyName = keyName := congrArg SelectTree.keyName hbare
  have hflags : entry.2.relationship = field.flags? := congrArg SelectTree.relationship hbare
  obtain ⟨key, hfound, hremote⟩ := exists_key_of_keyNameOf hkeyName
  refine ⟨field, key, (resolve_eq_ok_iff hname).mpr hnearest, ?_, hflags.symm, ?_, ?_⟩
  · rw [htype, target?_of_isRelationship hrelationship]
  · rw [htype, hfound]
  · rw [hkey, hremote]

end Schema

namespace Store

variable {schema : Schema}

/-- A tree that fits the schema everywhere can be added to any layouts. -/
theorem exists_addLayouts {tree : SelectTree} (h : Everywhere (Typed schema) tree)
    (layouts : Entries Layout) : ∃ out, addLayouts schema tree layouts = .ok out := by
  rw [addLayouts_eq_foldlM]
  refine exists_foldlM_eq_ok (fun node hnode before => ?_) layouts
  obtain ⟨fields, hfields⟩ : ∃ fields,
      node.select.mapM (indexedField schema node.entityType) = .ok fields := by
    refine exists_mapM_eq_ok fun name hname => ?_
    obtain ⟨field, hfield⟩ := (everywhere_iff_forall_nodes.mp h node hnode).select name hname
    exact ⟨_, indexedField_eq_ok_iff.mpr ⟨field, hfield, rfl⟩⟩
  exact ⟨_, bind_eq_ok_iff.mpr ⟨fields, hfields, rfl⟩⟩

end Store

open Remote

namespace Query

/-- The trees of a query: of what was asked for, of what is needed besides, of what must be
fetched, and of the shape of the answer. -/
def trees (query : Query) : List SelectTree :=
  [query.selectTree, query.extendTree, query.fetchTree, query.outputTree]

/-- What holds of the first three trees holds of the shape of the answer too. -/
theorem forall_trees {query : Query} {P : SelectTree → Prop} (hselect : P query.selectTree)
    (hextend : P query.extendTree) (hfetch : P query.fetchTree) : ∀ tree ∈ query.trees, P tree := by
  simpa [trees] using ⟨hselect, hextend, hfetch, outputTree_of_both hselect hfetch⟩

end Query

namespace Draft

variable {schema : Schema} {draft : Draft} {settings : BuildSettings} {query : Query}

/-- At every node of every tree of a built query the identity is wanted first, no field is
wanted twice, and every relationship that is expanded is wanted. If fields were chosen, the
trees below a node are those of the relationships of its type, and both the selection and the
layouts of what must be fetched exist. -/
theorem built_trees_fit (h : draft.build schema settings = .ok query) :
    (∀ tree ∈ query.trees, Everywhere Tidy tree) ∧
      (query.selectMode ≠ .all →
        (∀ tree ∈ query.trees, Everywhere (FollowsRelationships schema) tree) ∧
        (∀ context : Context, context.schema = schema →
          ∃ selection, context.selection query.fetchTree = .ok selection) ∧
        ∃ layouts, Store.layoutsOf schema query = .ok layouts) := by
  obtain ⟨hselectTidy, hextendTidy⟩ := tidy_of_build h
  refine ⟨Query.forall_trees hselectTidy hextendTidy (tidy_fetchTree h), fun hchosen => ?_⟩
  obtain ⟨_, _, _, _, hmode⟩ := options_of_build h
  obtain ⟨hselectKeeps, hextendKeeps, hfetchKeeps⟩ :=
    keepsIdentity_of_build (fun hall => absurd (hmode.trans hall) hchosen) h
  obtain ⟨hselect, hextend, _, _⟩ := typed_of_build h fun hall => absurd hall hchosen
  have hfetch := typed_fetchTree h fun hall => absurd hall hchosen
  have hfollows : ∀ {tree : SelectTree}, Everywhere (Typed schema) tree →
      Everywhere KeepsIdentity tree → Everywhere (FollowsRelationships schema) tree :=
    fun htyped hkeeps => (htyped.and hkeeps).imp fun _ hnode =>
      Schema.followsRelationships_of_typed hnode.1 hnode.2
  have hfetchTyped : Everywhere (Typed schema) query.fetchTree := hfetch.imp fun _ hnode => hnode.2
  refine ⟨Query.forall_trees (hfollows hselect hselectKeeps) (hfollows hextend hextendKeeps)
    (hfollows hfetchTyped hfetchKeeps), ?_, Store.exists_addLayouts hfetchTyped []⟩
  rintro context rfl
  exact Context.exists_selection hfetch

/-- The steps of a query for the names of the employees who have orders, with those of their
managers. -/
def clientSteps : List Step :=
  [.ofType "employee", .select "name, manager.name",
    .filter (.quantified "orders" .any (.simple "price" .geq (.int 10)))]

theorem built_trees_fit_clients :
    ∃ query, (ofSteps clientSteps).build Sample.schema = .ok query ∧ query.selectMode ≠ .all ∧
      (∀ tree ∈ query.trees, Everywhere Tidy tree) ∧
      (∀ tree ∈ query.trees, Everywhere (FollowsRelationships Sample.schema) tree) ∧
      (∃ selection, Context.sample.selection query.fetchTree = .ok selection) ∧
      ∃ layouts, Store.layoutsOf Sample.schema query = .ok layouts := by
  obtain ⟨query, hbuild⟩ : ∃ query, (ofSteps clientSteps).build Sample.schema = .ok query :=
    exists_eq_ok_of_isOk (by decide +kernel)
  have hchosen : query.selectMode ≠ .all := by
    rw [(options_of_build hbuild).2.2.2.2]
    decide +kernel
  obtain ⟨htidy, hfits⟩ := built_trees_fit hbuild
  obtain ⟨hfollows, hselection, hlayouts⟩ := hfits hchosen
  exact ⟨query, hbuild, hchosen, htidy, hfollows, hselection _ rfl, hlayouts⟩

end Draft

end EntityQuery
