import EntityQuery.Proofs.Query.Typing
import EntityQuery.Remote.Request

/-!
# Selections of everything within reach

A query without a choice of fields wants what its type lists. The listed fields and those that
are found by their names agree for every name that is declared once. So every node of what is
fetched is of the type that its path leads to, and the whole of it can be put into the words of
the remote service, unless a name is declared again with another meaning.
-/

namespace EntityQuery

open SelectTree

namespace Schema

variable {schema : Schema}

/-- A path of relationships leads from a type to the type of the related records. -/
inductive LeadsTo (schema : Schema) : String → List String → String → Prop where
  /-- The empty path leads nowhere else. -/
  | here (type : String) : LeadsTo schema type [] type
  /-- A path goes on from the type of the records that its first segment leads to. -/
  | next {type name target : String} {path : List String} {field : Field}
      (hfield : schema.resolve type name = .ok field) (hrelationship : field.isRelationship = true)
      (hpath : LeadsTo schema field.target path target) : LeadsTo schema type (name :: path) target

/-- In a tree that fits, every node is of the type that its path leads to. -/
theorem leadsTo_of_below? {tree node : SelectTree} {path : List String}
    (htree : Everywhere (Typed schema) tree) (hkeeps : Everywhere KeepsIdentity tree)
    (hnode : tree.below? path = some node) :
    schema.LeadsTo tree.entityType path node.entityType := by
  induction path generalizing tree with
  | nil =>
    obtain rfl := Option.some.inj hnode
    exact .here tree.entityType
  | cons name path ih =>
    obtain ⟨child, hchild, hbelow⟩ := Option.bind_eq_some_iff.mp hnode
    obtain ⟨field, hnearest, hrelationship, hmade⟩ :=
      htree.here.expand _ (Entries.mem_of_get? hchild)
    have hname : name ≠ identityField := by
      rintro rfl
      have hnone := hkeeps.here
      rw [KeepsIdentity, hchild] at hnone
      cases hnone
    have htype : child.entityType = field.target := by
      obtain ⟨keyName, _, hbare⟩ := freshTree_eq_ok hmade
      exact congrArg SelectTree.entityType hbare
    refine .next ((resolve_eq_ok_iff hname).mpr hnearest) hrelationship ?_
    exact htype ▸ ih (htree.child hchild) (hkeeps.child hchild) hbelow

/-- In a closed schema everything within reach of a type can be wanted. -/
theorem Closed.exists_addClosure (h : schema.Closed) (depth : Nat) {type : String}
    (htype : (schema.models.get? type).isSome = true) (tree : SelectTree) :
    ∃ out, schema.addClosure depth type tree = .ok out := by
  induction depth generalizing type tree with
  | zero =>
    obtain ⟨listed, hlisted⟩ := HasParents.exists_fields h.parents htype
    rw [addClosure, hlisted]
    exact ⟨_, rfl⟩
  | succ depth ih =>
    obtain ⟨listed, hlisted⟩ := HasParents.exists_fields h.parents htype
    rw [addClosure, hlisted]
    refine exists_foldlM_eq_ok ?_ tree
    intro field hfield before
    cases hrelationship : field.isRelationship with
    | false => exact ⟨_, rfl⟩
    | true =>
      obtain ⟨entry, hentry, relationship, hmem, rfl⟩ :=
        exists_relationship_of_mem_fields hlisted hfield hrelationship
      have htarget := h.targets entry hentry relationship hmem
      obtain ⟨key, hkey⟩ := HasParents.exists_key h.parents htarget
      obtain ⟨fresh, hfresh⟩ : ∃ fresh,
          schema.freshTree (.related entry.2.name relationship) = .ok fresh := by
        refine ⟨_, bind_eq_ok_iff.mpr ⟨_, bind_eq_ok_iff.mpr ⟨key, hkey, rfl⟩, rfl⟩⟩
      obtain ⟨child, hchild⟩ :=
        ih htarget ((Entries.get? before.expand relationship.name).getD fresh)
      refine ⟨before.withChild relationship.name child, ?_⟩
      simp only [if_true]
      exact bind_eq_ok_iff.mpr ⟨fresh, hfresh, expandWith_eq_ok_iff.mpr ⟨child, hchild, rfl⟩⟩

/-- In a closed schema a query for a type without any choice can be built: there is no filter to
check, and neither a projection nor a path is asked for. -/
theorem Closed.exists_build (h : schema.Closed) (settings : BuildSettings) {type : String}
    (htype : (schema.models.get? type).isSome = true) :
    ∃ query, (Draft.ofSteps [.ofType type]).build schema settings = .ok query := by
  obtain ⟨key, hkey⟩ := HasParents.exists_key h.parents htype
  have hnamed : schema.keyNameOf type = .ok (key.remoteName?.getD key.name) :=
    bind_eq_ok_iff.mpr ⟨key, hkey, rfl⟩
  obtain ⟨reached, hreached⟩ := h.exists_addClosure settings.expandDepth htype
    (.root type (key.remoteName?.getD key.name))
  rw [Draft.build_eq_buildFor rfl rfl, Draft.buildFor, hnamed, ok_bind]
  exact ⟨_, bind_eq_ok_iff.mpr ⟨(), rfl, bind_eq_ok_iff.mpr ⟨_, rfl, bind_eq_ok_iff.mpr
    ⟨_, rfl, bind_eq_ok_iff.mpr ⟨reached, hreached, rfl⟩⟩⟩⟩⟩

end Schema

namespace Remote.Context

variable {context : Context}

/-- Related records whose names are found and whose trees have selections have selections. -/
theorem exists_relatedSelections {type : String} {children : List (String × SelectTree)}
    (hnames : ∀ entry ∈ children, ∃ field, context.schema.resolve type entry.1 = .ok field)
    (htrees : ∀ entry ∈ children, ∃ selection, context.selection entry.2 = .ok selection) :
    ∃ related, context.relatedSelections type children = .ok related := by
  induction children with
  | nil => exact ⟨[], rfl⟩
  | cons entry children ih =>
    obtain ⟨name, child⟩ := entry
    obtain ⟨field, hfield⟩ := hnames _ List.mem_cons_self
    obtain ⟨selection, hselection⟩ := htrees _ List.mem_cons_self
    obtain ⟨related, hrelated⟩ := ih
      (fun other hother => hnames other (List.mem_cons_of_mem _ hother))
      (fun other hother => htrees other (List.mem_cons_of_mem _ hother))
    replace hfield : context.schema.resolve type name = .ok field := hfield
    replace hselection : context.selection child = .ok selection := hselection
    rw [relatedSelections, hfield, hrelated]
    by_cases htrivial : child.isTrivial = true
    · simp only [htrivial, if_true]
      exact ⟨_, rfl⟩
    · simp only [htrivial, Bool.false_eq_true, if_false, hselection]
      exact ⟨_, rfl⟩

/-- A tidy tree that fits the schema has a selection. -/
theorem exists_selection {tree : SelectTree}
    (h : Everywhere (fun tree => Tidy tree ∧ Typed context.schema tree) tree) :
    ∃ selection, context.selection tree = .ok selection := by
  induction h with
  | @node tree here children ih =>
    obtain ⟨htidy, htyped⟩ := here
    obtain ⟨type, keyName, select, expand, relationship⟩ := tree
    obtain ⟨names, hnames⟩ : ∃ names, context.remoteNames type select = .ok names := by
      refine exists_mapM_eq_ok fun name hname => ?_
      obtain ⟨field, hfield⟩ := htyped.select name hname
      exact ⟨_, bind_eq_ok_iff.mpr ⟨field, hfield, rfl⟩⟩
    have hfound : ∀ entry ∈ expand, ∃ field, context.schema.resolve type entry.1 = .ok field :=
      fun entry hentry => htyped.select entry.1 (htidy.expanded_selected entry hentry)
    obtain ⟨related, hrelated⟩ := exists_relatedSelections hfound ih
    rw [selection, hnames, hrelated]
    exact ⟨_, rfl⟩

end Remote.Context

open Remote

namespace Schema

/-- A schema without a field of a name has no relationship of that name. -/
theorem NoFieldNamed.noRelationshipNamed {schema : Schema} {name : String}
    (h : schema.NoFieldNamed name) : schema.NoRelationshipNamed name := by
  rintro entry hentry relationship hrelationship rfl
  exact h entry hentry (List.mem_append_right _ (List.mem_map_of_mem hrelationship))

/-- A type lists a name as often as its lineage declares it, and finds under it what it lists
last; so where a name is declared once, the one listed field is what is found. If a name that
is declared again leads to the same records, every node of what is fetched for a query, with
everything within reach or not, is of the type that its path leads to, and has a selection. -/
theorem listed_fields_are_found {schema : Schema} (hparents : schema.HasParents)
    (hidentity : schema.NoFieldNamed identityField) :
    (∀ type, (schema.models.get? type).isSome = true →
      ∃ listed, schema.fields type = .ok listed ∧
        (∀ name, name ≠ identityField →
          (listed.filter (·.name = name)).length = (schema.declaredNames type).count name ∧
            ∀ field, schema.resolve type name = .ok field ↔
              (listed.filter (·.name = name)).getLast? = some field) ∧
        (∀ field ∈ listed, field.name ≠ identityField) ∧
        (schema.DeclaresOnce type → (listed.map Field.name).Nodup ∧
          ∀ field ∈ listed, schema.resolve type field.name = .ok field)) ∧
      (schema.RedeclaresAlike →
        (∀ (draft : Draft) (settings : BuildSettings) (query : Query),
          draft.build schema settings = .ok query →
            (∀ path node, query.fetchTree.below? path = some node →
              schema.LeadsTo query.entityType path node.entityType) ∧
            ∀ context : Context, context.schema = schema →
              ∃ selection, context.selection query.fetchTree = .ok selection) ∧
        (schema.Closed → ∀ settings type, (schema.models.get? type).isSome = true →
          ∃ query, (Draft.ofSteps [.ofType type]).build schema settings = .ok query)) := by
  refine ⟨fun type htype => ?_, fun halike => ⟨fun draft settings query hbuild => ?_,
    fun hclosed settings type => hclosed.exists_build settings⟩⟩
  · obtain ⟨listed, hlisted⟩ := hparents.exists_fields htype
    refine ⟨listed, hlisted, fun name hname => ⟨length_filter_listed hlisted name, ?_⟩,
      fun field => hidentity.ne_of_mem_listed hlisted, fun honce => ⟨?_, ?_⟩⟩
    · intro field
      rw [resolve_eq_ok_iff hname, getLast?_filter_listed hlisted]
    · exact (map_name_perm_declaredNames hlisted).nodup_iff.mpr honce
    · intro field hfield
      rw [resolve_eq_ok_iff (hidentity.ne_of_mem_listed hlisted hfield)]
      exact honce.nearest?_of_mem_listed hlisted hfield
  · have htree := Draft.typed_fetchTree hbuild fun _ => halike
    have hkeeps := Draft.keepsIdentity_fetchTree hidentity.noRelationshipNamed hbuild
    refine ⟨fun path node hnode => ?_, ?_⟩
    · rw [← Draft.entityType_fetchTree hbuild]
      exact leadsTo_of_below? (htree.imp fun _ h => h.2) hkeeps hnode
    · rintro context rfl
      exact Context.exists_selection htree

/-- Employees, and managers among them, who have a level besides and lead a team. -/
def teamSchema : Schema where
  models := [
    ("employee", {
      name := "employee",
      attributes := [⟨"name", .string, none⟩],
      relationships := [{ name := "boss", kind := .belongsTo, target := "manager" }] }),
    ("manager", {
      name := "manager", parent := some "employee",
      attributes := [⟨"level", .number, none⟩],
      relationships := [{ name := "team", kind := .hasMany, target := "employee" }] })]

theorem listed_fields_are_found_managers :
    teamSchema.HasParents ∧ teamSchema.NoFieldNamed identityField ∧
      (∃ listed, teamSchema.fields "manager" = .ok listed ∧ (listed.map Field.name).Nodup ∧
        ∀ field ∈ listed, teamSchema.resolve "manager" field.name = .ok field) ∧
      ∃ query, (Draft.ofSteps [.ofType "manager"]).build teamSchema = .ok query ∧
        query.selectMode = .all ∧
        (∃ node, query.fetchTree.below? ["boss"] = some node ∧
          teamSchema.LeadsTo query.entityType ["boss"] node.entityType) ∧
        ∃ selection, ({ schema := teamSchema, settings := {} } : Context).selection
          query.fetchTree = .ok selection := by
  have hparents : teamSchema.HasParents := by
    unfold HasParents
    decide +kernel
  have hidentity : teamSchema.NoFieldNamed identityField := by
    unfold NoFieldNamed
    decide +kernel
  have hclosed : teamSchema.Closed := ⟨hparents, by decide +kernel⟩
  have halike : teamSchema.RedeclaresAlike := by decide +kernel
  obtain ⟨hfields, hfetched⟩ := listed_fields_are_found hparents hidentity
  obtain ⟨hfound, hbuilds⟩ := hfetched halike
  obtain ⟨listed, hlisted, _, _, honce⟩ := hfields "manager" (by decide +kernel)
  obtain ⟨query, hbuild⟩ := hbuilds hclosed {} "manager" (by decide +kernel)
  obtain ⟨htypes, hselections⟩ := hfound _ _ query hbuild
  obtain ⟨node, hnode⟩ : ∃ node, query.fetchTree.below? ["boss"] = some node := by
    have hboss : ((Draft.ofSteps [.ofType "manager"]).build teamSchema).map
        (fun query => (query.fetchTree.below? ["boss"]).isSome) = .ok true := by
      decide +kernel
    rw [hbuild] at hboss
    exact Option.isSome_iff_exists.mp (Except.ok.inj hboss)
  refine ⟨hparents, hidentity, ⟨listed, hlisted, honce (by decide +kernel)⟩, query, hbuild,
    (Draft.options_of_build hbuild).2.2.2.2, ⟨node, hnode, htypes _ node hnode⟩,
    hselections _ rfl⟩

/-- A document belongs to a person, but an invoice, which is a document, to a company. -/
def invoiceSchema : Schema where
  models := [
    ("company", { name := "company", attributes := [⟨"title", .string, none⟩] }),
    ("document", {
      name := "document",
      relationships := [{ name := "owner", kind := .belongsTo, target := "person" }] }),
    ("invoice", {
      name := "invoice", parent := some "document",
      relationships := [{ name := "owner", kind := .belongsTo, target := "company" }] }),
    ("person", { name := "person", attributes := [⟨"name", .string, none⟩] })]

/-- A name that is declared again is listed twice, first as what is not found under it. What is
fetched for such a type is of the wrong type there and has no selection. -/
theorem invoice_owners_disagree :
    (∃ first second, invoiceSchema.fields "invoice" = .ok [first, second] ∧
      first.name = "owner" ∧ second.name = "owner" ∧ first ≠ second ∧
        invoiceSchema.resolve "invoice" "owner" = .ok second) ∧
      ((do
        let query ← (Draft.ofSteps [.ofType "invoice"]).build invoiceSchema
        ({ schema := invoiceSchema, settings := {} } : Context).selection query.fetchTree) =
          .error (.unknownProperty "person" "title")) := by
  refine ⟨⟨.related "document" { name := "owner", kind := .belongsTo, target := "person" },
    .related "invoice" { name := "owner", kind := .belongsTo, target := "company" },
    by decide +kernel, by decide +kernel, by decide +kernel, by decide +kernel,
    by decide +kernel⟩, ?_⟩
  rfl

end Schema

end EntityQuery
