import EntityQuery.Proofs.Query.Construction
import EntityQuery.Proofs.SelectTree.Nodes
import EntityQuery.Store.Layout

/-!
# What gets an index

The layouts of a query come about node by node: a node adds what it wants to the layout of its
type, whichever nodes of that type were added before. So a layout indexes what is wanted at any
node of its type, every field once and in the order in which the fields come first, and a field
is indexed item by item exactly if it leads to many records.
-/

namespace EntityQuery.Store

open SelectTree

/-- The index of a field says whether the field of the schema leads to many records. -/
theorem indexedField_eq_ok_iff {schema : Schema} {type name : String} {indexed : IndexedField} :
    indexedField schema type name = .ok indexed ↔
      ∃ field, schema.resolve type name = .ok field ∧ ⟨name, field.kind == .hasMany⟩ = indexed := by
  rw [indexedField, bind_eq_ok_iff]
  simp only [pure_eq_ok_iff]

/-- An index has the name of its field. -/
theorem name_of_indexedField {schema : Schema} {type name : String} {indexed : IndexedField}
    (h : indexedField schema type name = .ok indexed) : indexed.name = name := by
  obtain ⟨_, _, rfl⟩ := indexedField_eq_ok_iff.mp h
  rfl

namespace Layout

/-- The names of the indexed fields. -/
def names (layout : Layout) : List String := layout.fields.map IndexedField.name

/-- Indexing a field adds its name, but not that of the identity. -/
theorem names_add (layout : Layout) (field : IndexedField) :
    (layout.add field).names =
      if field.name = identityField then layout.names else addName layout.names field.name := by
  have hany : layout.fields.any (·.name == field.name) = layout.names.contains field.name := by
    rw [names, List.contains_eq_any_beq, List.any_map]
    exact congrArg _ (funext fun _ => Bool.beq_comm)
  unfold add
  by_cases hidentity : field.name = identityField
  · rw [if_pos (.inl hidentity), if_pos hidentity]
  · rw [if_neg hidentity, addName, hany]
    by_cases hold : layout.names.contains field.name = true
    · rw [if_pos (.inr hold), if_pos hold]
    · rw [if_neg (not_or.mpr ⟨hidentity, hold⟩), if_neg hold, names, List.map_append]
      rfl

/-- An indexed field was indexed before, or is the new one. -/
theorem mem_fields_add {layout : Layout} {field indexed : IndexedField}
    (h : indexed ∈ (layout.add field).fields) : indexed ∈ layout.fields ∨ indexed = field := by
  unfold add at h
  split_ifs at h with hold
  · exact .inl h
  · simpa using h

/-- A layout indexes some names of a type: all but the identity, each once and where it comes
first, and each by what it is in the schema. -/
structure Indexes (layout : Layout) (schema : Schema) (type : String) (wanted : List String) :
    Prop where
  /-- The names in the order in which they come first. -/
  names_eq : layout.names = (wanted.filter (· ≠ identityField)).foldl addName []
  /-- Every field is indexed as the schema says. -/
  found : ∀ field ∈ layout.fields, indexedField schema type field.name = .ok field

namespace Indexes

variable {layout : Layout} {schema : Schema} {type : String} {wanted : List String}

/-- Indexing one more field. -/
theorem add (h : layout.Indexes schema type wanted) {name : String} {field : IndexedField}
    (hfield : indexedField schema type name = .ok field) :
    (layout.add field).Indexes schema type (wanted ++ [name]) where
  names_eq := by
    rw [names_add, name_of_indexedField hfield, h.names_eq, List.filter_append]
    by_cases hidentity : name = identityField
    · simp [hidentity]
    · simp [hidentity, List.foldl_append]
  found := fun indexed hindexed => by
    rcases mem_fields_add hindexed with hold | rfl
    · exact h.found indexed hold
    · rw [name_of_indexedField hfield, hfield]

/-- Indexing the fields that a node wants. -/
theorem foldl_add (h : layout.Indexes schema type wanted) {select : List String}
    {fields : List IndexedField} (hfields : select.mapM (indexedField schema type) = .ok fields) :
    (fields.foldl Layout.add layout).Indexes schema type (wanted ++ select) := by
  induction select generalizing layout wanted fields with
  | nil =>
    obtain rfl := pure_eq_ok_iff.mp hfields
    rw [List.append_nil]
    exact h
  | cons name select ih =>
    obtain ⟨field, others, hfield, hothers, rfl⟩ := mapM_cons_eq_ok_iff.mp hfields
    rw [List.append_cons]
    exact ih (h.add hfield) hothers

/-- The indexed names are those that are wanted, without the identity. -/
theorem mem_names_iff (h : layout.Indexes schema type wanted) {name : String} :
    name ∈ layout.names ↔ name ≠ identityField ∧ name ∈ wanted := by
  rw [h.names_eq]
  simp [and_comm]

/-- No field is indexed twice. -/
theorem nodup_names (h : layout.Indexes schema type wanted) : layout.names.Nodup := by
  rw [h.names_eq]
  exact nodup_foldl_addName List.nodup_nil _

end Indexes

end Layout

mutual

/-- A tree is added node by node. -/
theorem addLayouts_eq_foldlM (schema : Schema) : ∀ (tree : SelectTree) (layouts : Entries Layout),
    addLayouts schema tree layouts = tree.nodes.foldlM (addNode schema) layouts
  | ⟨entityType, keyName, select, expand, relationship⟩, layouts => by
    rw [nodes, List.foldlM_cons, addLayouts]
    exact bind_congr fun next => addChildLayouts_eq_foldlM schema expand next
termination_by structural tree => tree

/-- The children of a tree are added node by node. -/
theorem addChildLayouts_eq_foldlM (schema : Schema) :
    ∀ (children : List (String × SelectTree)) (layouts : Entries Layout),
      addChildLayouts schema children layouts =
        (childNodes children).foldlM (addNode schema) layouts
  | [], _ => rfl
  | (_, child) :: rest, layouts => by
    rw [childNodes, List.foldlM_append, addChildLayouts, addLayouts_eq_foldlM schema child]
    exact bind_congr fun next => addChildLayouts_eq_foldlM schema rest next
termination_by structural children => children

end

/-- The names that are wanted at the nodes of a type. -/
def wantedOf (type : String) (nodes : List SelectTree) : List String :=
  (nodes.filter (·.entityType = type)).flatMap SelectTree.select

theorem mem_wantedOf {type name : String} {nodes : List SelectTree} :
    name ∈ wantedOf type nodes ↔ ∃ node ∈ nodes, node.entityType = type ∧ name ∈ node.select := by
  simp [wantedOf, and_assoc]

/-- Layouts serve some nodes: the types of the nodes have one each, with an index of every field
that is wanted at a node of the type. -/
structure Serve (layouts : Entries Layout) (schema : Schema) (nodes : List SelectTree) : Prop where
  /-- Every type has one layout. -/
  ordered : layouts.Ordered
  /-- The types are those of the nodes. -/
  contains_iff : ∀ type, layouts.contains type = true ↔ ∃ node ∈ nodes, node.entityType = type
  /-- The fields are those that are wanted. -/
  indexes : ∀ type,
    ((layouts.get? type).getD {}).Indexes schema type (wantedOf type nodes)

namespace Serve

variable {schema : Schema} {layouts : Entries Layout} {nodes : List SelectTree}

/-- No layouts serve no nodes. -/
theorem empty : Serve [] schema [] where
  ordered := .nil
  contains_iff type := by simp [Entries.contains]
  indexes type := ⟨rfl, fun _ hfield => by cases hfield⟩

/-- Adding one more node. -/
theorem addNode (h : Serve layouts schema nodes) {node : SelectTree} {next : Entries Layout}
    (hnext : Store.addNode schema layouts node = .ok next) :
    Serve next schema (nodes ++ [node]) := by
  obtain ⟨fields, hfields, hinserted⟩ := bind_eq_ok_iff.mp hnext
  obtain rfl := pure_eq_ok_iff.mp hinserted
  refine ⟨h.ordered.insert _ _, fun type => ?_, fun type => ?_⟩
  · have hold := h.contains_iff type
    rw [Entries.contains_eq_isSome] at hold ⊢
    rw [Entries.get?_insert]
    by_cases htype : type = node.entityType
    · simp [htype]
    · simp [htype, Ne.symm htype, hold]
  · rw [Entries.get?_insert]
    by_cases htype : type = node.entityType
    · subst htype
      have hwanted : wantedOf node.entityType (nodes ++ [node]) =
          wantedOf node.entityType nodes ++ node.select := by
        simp [wantedOf]
      rw [if_pos rfl, Option.getD_some, hwanted]
      exact (h.indexes node.entityType).foldl_add hfields
    · have hwanted : wantedOf type (nodes ++ [node]) = wantedOf type nodes := by
        simp [wantedOf, Ne.symm htype]
      rw [if_neg htype, hwanted]
      exact h.indexes type

/-- Adding nodes one after the other. -/
theorem foldlM_addNode (h : Serve layouts schema nodes) {more : List SelectTree}
    {out : Entries Layout} (hout : more.foldlM (Store.addNode schema) layouts = .ok out) :
    Serve out schema (nodes ++ more) := by
  induction more generalizing layouts nodes with
  | nil =>
    obtain rfl := pure_eq_ok_iff.mp hout
    rw [List.append_nil]
    exact h
  | cons node more ih =>
    rw [List.foldlM_cons] at hout
    obtain ⟨next, hnext, hrest⟩ := bind_eq_ok_iff.mp hout
    rw [List.append_cons]
    exact ih (h.addNode hnext) hrest

end Serve

/-- The layouts of a query serve the nodes of what it fetches. -/
theorem serve_of_layoutsOf {schema : Schema} {query : Query} {layouts : Entries Layout}
    (h : layoutsOf schema query = .ok layouts) : Serve layouts schema query.fetchTree.nodes := by
  rw [layoutsOf, addLayouts_eq_foldlM] at h
  exact Serve.empty.foldlM_addNode h

/-- The types with a layout are those of the nodes of what a query fetches. The layout of a type
has the fields that are wanted at any of its nodes, the identity left out, and each of them
once; and a field is indexed item by item exactly if it leads to many records. -/
theorem layouts_index_wanted_fields {schema : Schema} {query : Query} {layouts : Entries Layout}
    (h : layoutsOf schema query = .ok layouts) :
    layouts.Ordered ∧ ∀ type,
      (layouts.contains type = true ↔ ∃ node ∈ query.fetchTree.nodes, node.entityType = type) ∧
      ∀ layout, layouts.get? type = some layout →
        layout.names.Nodup ∧
        (∀ name, name ∈ layout.names ↔ name ≠ identityField ∧
          ∃ node ∈ query.fetchTree.nodes, node.entityType = type ∧ name ∈ node.select) ∧
        ∀ indexed ∈ layout.fields, ∃ field, schema.resolve type indexed.name = .ok field ∧
          (indexed.multiEntry = true ↔ field.kind = .hasMany) := by
  have hserve := serve_of_layoutsOf h
  refine ⟨hserve.ordered, fun type => ⟨hserve.contains_iff type, fun layout hlayout => ?_⟩⟩
  have hindexes := hserve.indexes type
  rw [hlayout, Option.getD_some] at hindexes
  refine ⟨hindexes.nodup_names, fun name => ?_, fun indexed hindexed => ?_⟩
  · rw [hindexes.mem_names_iff, mem_wantedOf]
  · obtain ⟨field, hfield, hsame⟩ := indexedField_eq_ok_iff.mp (hindexes.found indexed hindexed)
    refine ⟨field, hfield, ?_⟩
    rw [← hsame]
    exact beq_iff_eq

/-- The steps of a query that wants fields of employees at three places. -/
def teamSteps : List Step :=
  [.ofType "employee", .select "name, manager.age, manager.manager.orders.price"]

theorem layouts_index_wanted_fields_team :
    ∃ query layouts layout, (Draft.ofSteps teamSteps).build Sample.schema = .ok query ∧
      layoutsOf Sample.schema query = .ok layouts ∧ layouts.get? "employee" = some layout ∧
      layout.names.Nodup ∧
      (∀ name, name ∈ layout.names ↔ name ≠ identityField ∧
        ∃ node ∈ query.fetchTree.nodes, node.entityType = "employee" ∧ name ∈ node.select) ∧
      ∃ indexed ∈ layout.fields, ∃ field,
        Sample.schema.resolve "employee" indexed.name = .ok field ∧
        indexed.multiEntry = true ∧ field.kind = .hasMany := by
  have hboth : ((Draft.ofSteps teamSteps).build Sample.schema >>= layoutsOf Sample.schema) =
      .ok [("employee", ⟨[⟨"name", false⟩, ⟨"manager", false⟩, ⟨"age", false⟩, ⟨"orders", true⟩]⟩),
        ("order", ⟨[⟨"price", false⟩]⟩)] := by
    decide +kernel
  obtain ⟨query, hbuild, hlayouts⟩ := bind_eq_ok_iff.mp hboth
  obtain ⟨hnodup, hnames, hkinds⟩ :=
    ((layouts_index_wanted_fields hlayouts).2 "employee").2 _ rfl
  have horders : ⟨"orders", true⟩ ∈ [(⟨"name", false⟩ : IndexedField), ⟨"manager", false⟩,
      ⟨"age", false⟩, ⟨"orders", true⟩] := by decide
  obtain ⟨field, hfield, hmany⟩ := hkinds _ horders
  exact ⟨query, _, _, hbuild, hlayouts, rfl, hnodup, hnames, _, horders, field, hfield, rfl,
    hmany.mp rfl⟩

end EntityQuery.Store
