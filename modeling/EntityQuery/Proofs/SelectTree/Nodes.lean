import EntityQuery.Proofs.Entries
import EntityQuery.Proofs.Outcome
import EntityQuery.SelectTree

/-!
# The nodes of select trees

A select tree is changed in two ways: a field is wanted, or the tree of a relationship is
put in its place. What both ways keep at one node is kept at every node of a tree, and
uniting two trees keeps it as well.
-/

namespace EntityQuery.SelectTree

/-- What holds of a tree if it holds of its children holds of every tree. -/
@[elab_as_elim]
theorem children_induction {P : SelectTree → Prop}
    (step : ∀ tree, (∀ entry ∈ tree.expand, P entry.2) → P tree) (tree : SelectTree) : P tree :=
  step tree fun entry _ => children_induction step entry.2
termination_by sizeOf tree
decreasing_by
  obtain ⟨_, _, _, expand, _⟩ := tree
  obtain ⟨name, child⟩ := entry
  have hentry : sizeOf (name, child) < sizeOf expand := List.sizeOf_lt_of_mem (by assumption)
  simp only [Prod.mk.sizeOf_spec, mk.sizeOf_spec] at hentry ⊢
  omega

/-- A property holds at every node of a tree. -/
inductive Everywhere (P : SelectTree → Prop) : SelectTree → Prop where
  /-- It holds at the node and everywhere below it. -/
  | node {tree : SelectTree} (here : P tree)
    (children : ∀ entry ∈ tree.expand, Everywhere P entry.2) : Everywhere P tree

namespace Everywhere

variable {P Q : SelectTree → Prop} {tree : SelectTree}

theorem here (h : Everywhere P tree) : P tree := by
  cases h with
  | node here children => exact here

theorem children (h : Everywhere P tree) : ∀ entry ∈ tree.expand, Everywhere P entry.2 := by
  cases h with
  | node here children => exact children

/-- What is found under a relationship has the property everywhere. -/
theorem child (h : Everywhere P tree) {name : String} {child : SelectTree}
    (hchild : Entries.get? tree.expand name = some child) : Everywhere P child :=
  h.children (name, child) (Entries.mem_of_get? hchild)

/-- So has the tree under a relationship that is made anew where there is none. -/
theorem childOr (h : Everywhere P tree) (name : String) {fresh : SelectTree}
    (hfresh : Everywhere P fresh) :
    Everywhere P ((Entries.get? tree.expand name).getD fresh) := by
  cases hold : Entries.get? tree.expand name with
  | none => exact hfresh
  | some old => exact h.child hold

/-- A property of all trees holds at every node of each. -/
theorem of_forall (h : ∀ tree, P tree) (tree : SelectTree) : Everywhere P tree :=
  children_induction (fun tree ih => .node (h tree) ih) tree

/-- A weaker property holds everywhere too. -/
theorem imp (h : Everywhere P tree) (himp : ∀ tree, P tree → Q tree) : Everywhere Q tree := by
  induction h with
  | node here children ih => exact .node (himp _ here) ih

/-- Two properties that hold everywhere hold together. -/
theorem and (hP : Everywhere P tree) (hQ : Everywhere Q tree) :
    Everywhere (fun tree => P tree ∧ Q tree) tree := by
  induction hP with
  | node here children ih =>
    exact .node ⟨here, hQ.here⟩ fun entry hentry => ih entry hentry (hQ.children entry hentry)

end Everywhere

mutual

/-- The nodes of a tree, each before the ones below it. -/
def nodes : SelectTree → List SelectTree
  | ⟨entityType, keyName, select, expand, relationship⟩ =>
    ⟨entityType, keyName, select, expand, relationship⟩ :: childNodes expand
termination_by structural tree => tree

/-- The nodes of the children of a tree. -/
def childNodes : List (String × SelectTree) → List SelectTree
  | [] => []
  | (_, child) :: rest => nodes child ++ childNodes rest
termination_by structural children => children

end

/-- A tree is the first of its nodes. -/
theorem nodes_eq (tree : SelectTree) : tree.nodes = tree :: childNodes tree.expand := by
  cases tree
  rfl

/-- The nodes of the children are those of each child. -/
theorem mem_childNodes {children : List (String × SelectTree)} {node : SelectTree} :
    node ∈ childNodes children ↔ ∃ entry ∈ children, node ∈ entry.2.nodes := by
  induction children with
  | nil => simp [childNodes]
  | cons entry rest ih =>
    obtain ⟨name, child⟩ := entry
    simp [childNodes, ih]

/-- A property holds at every node of a tree exactly when each of the nodes has it. -/
theorem everywhere_iff_forall_nodes {P : SelectTree → Prop} {tree : SelectTree} :
    Everywhere P tree ↔ ∀ node ∈ tree.nodes, P node := by
  induction tree using children_induction with
  | step tree ih =>
    rw [nodes_eq, List.forall_mem_cons]
    constructor
    · intro h
      refine ⟨h.here, fun node hnode => ?_⟩
      obtain ⟨entry, hentry, hbelow⟩ := mem_childNodes.mp hnode
      exact (ih entry hentry).mp (h.children entry hentry) node hbelow
    · rintro ⟨here, hbelow⟩
      refine .node here fun entry hentry => (ih entry hentry).mpr fun node hnode => ?_
      exact hbelow node (mem_childNodes.mpr ⟨entry, hentry, hnode⟩)

/-- Put the tree of a relationship in its place, and want the relationship. -/
def withChild (tree : SelectTree) (name : String) (child : SelectTree) : SelectTree :=
  { tree.addSelect name with expand := Entries.insert tree.expand name child }

/-- Changing the tree of a relationship puts the changed tree in its place. -/
theorem expandWith_eq_ok_iff {ε : Type} {tree fresh out : SelectTree} {name : String}
    {change : SelectTree → Except ε SelectTree} :
    tree.expandWith name fresh change = .ok out ↔
      ∃ child, change ((Entries.get? tree.expand name).getD fresh) = .ok child ∧
        tree.withChild name child = out := by
  rw [expandWith, bind_eq_ok_iff]
  simp only [pure_eq_ok_iff]
  rfl

/-- Changing the tree of a relationship leaves the type of the tree. -/
theorem entityType_expandWith {ε : Type} {tree fresh out : SelectTree} {name : String}
    {change : SelectTree → Except ε SelectTree}
    (h : tree.expandWith name fresh change = .ok out) : out.entityType = tree.entityType := by
  obtain ⟨child, _, rfl⟩ := expandWith_eq_ok_iff.mp h
  rfl

@[simp] theorem select_addSelect (tree : SelectTree) (name : String) :
    (tree.addSelect name).select = addName tree.select name := rfl

@[simp] theorem expand_addSelect (tree : SelectTree) (name : String) :
    (tree.addSelect name).expand = tree.expand := rfl

@[simp] theorem select_withChild (tree : SelectTree) (name : String) (child : SelectTree) :
    (tree.withChild name child).select = addName tree.select name := rfl

@[simp] theorem expand_withChild (tree : SelectTree) (name : String) (child : SelectTree) :
    (tree.withChild name child).expand = Entries.insert tree.expand name child := rfl

/-- Adding a name to a list changes nothing if the list has it. -/
@[simp] theorem mem_addName {names : List String} {name other : String} :
    other ∈ addName names name ↔ other ∈ names ∨ other = name := by
  by_cases h : name ∈ names
  · simp only [addName, List.contains_eq_mem, h, decide_true, if_true]
    constructor
    · exact .inl
    · rintro (hmem | rfl)
      · exact hmem
      · exact h
  · simp [addName, h]

/-- Adding a name to a list never makes it occur twice. -/
theorem nodup_addName {names : List String} (h : names.Nodup) (name : String) :
    (addName names name).Nodup := by
  by_cases hmem : name ∈ names
  · simpa [addName, hmem] using h
  · simp only [addName, List.contains_eq_mem, hmem, decide_false, Bool.false_eq_true, if_false]
    exact List.Nodup.append h (List.nodup_singleton name) (by simpa using hmem)

/-- Names are added at the end. -/
theorem prefix_addName (names : List String) (name : String) : names <+: addName names name := by
  by_cases hmem : name ∈ names
  · simp [addName, hmem]
  · simp [addName, hmem]

/-- The names of two lists are those of the first and then the new ones of the second. -/
@[simp] theorem mem_foldl_addName {names others : List String} {name : String} :
    name ∈ others.foldl addName names ↔ name ∈ names ∨ name ∈ others := by
  induction others generalizing names with
  | nil => simp
  | cons other others ih => simp [ih, or_assoc]

theorem nodup_foldl_addName {names : List String} (h : names.Nodup) (others : List String) :
    (others.foldl addName names).Nodup := by
  induction others generalizing names with
  | nil => exact h
  | cons other others ih => exact ih (nodup_addName h other)

theorem prefix_foldl_addName (names others : List String) :
    names <+: others.foldl addName names := by
  induction others generalizing names with
  | nil => exact List.prefix_rfl
  | cons other others ih => exact (prefix_addName names other).trans (ih _)

/-- A property of nodes that building a tree keeps, as long as no other relationships
than the allowed ones are expanded. It does not look below a node. -/
structure KeptByBuilding (allowed : String → Prop) (P : SelectTree → Prop) : Prop where
  /-- It holds of a tree that wants nothing but the identity. -/
  root : ∀ entityType keyName relationship, P (root entityType keyName relationship)
  /-- Wanting a field keeps it. -/
  addSelect : ∀ {tree : SelectTree}, P tree → ∀ name, P (tree.addSelect name)
  /-- Putting the tree of an allowed relationship in its place keeps it. -/
  withChild : ∀ {tree : SelectTree}, P tree → ∀ {name : String}, allowed name →
    ∀ child, P (tree.withChild name child)

namespace KeptByBuilding

variable {allowed : String → Prop} {P : SelectTree → Prop} {tree : SelectTree}

theorem everywhere_root (kept : KeptByBuilding allowed P) (entityType keyName : String)
    (relationship : Option RelationshipFlags) :
    Everywhere P (SelectTree.root entityType keyName relationship) :=
  .node (kept.root entityType keyName relationship) fun _ h => by cases h

theorem everywhere_addSelect (kept : KeptByBuilding allowed P) (h : Everywhere P tree)
    (name : String) : Everywhere P (tree.addSelect name) :=
  .node (kept.addSelect h.here name) h.children

theorem everywhere_withChild (kept : KeptByBuilding allowed P) (h : Everywhere P tree)
    {name : String} (hname : allowed name) {child : SelectTree} (hchild : Everywhere P child) :
    Everywhere P (tree.withChild name child) := by
  refine .node (kept.withChild h.here hname child) fun entry hentry => ?_
  rcases Entries.mem_insert hentry with rfl | hold
  · exact hchild
  · exact h.children entry hold

/-- Changing the tree of an allowed relationship keeps the property at every node. -/
theorem everywhere_expandWith (kept : KeptByBuilding allowed P) {ε : Type}
    {fresh out : SelectTree} {name : String} {change : SelectTree → Except ε SelectTree}
    (h : Everywhere P tree) (hname : allowed name) (hfresh : Everywhere P fresh)
    (hchange : ∀ before after, change before = .ok after → Everywhere P before →
      Everywhere P after)
    (hout : tree.expandWith name fresh change = .ok out) : Everywhere P out := by
  obtain ⟨child, hchild, rfl⟩ := expandWith_eq_ok_iff.mp hout
  exact kept.everywhere_withChild h hname (hchange _ _ hchild (h.childOr name hfresh))

end KeptByBuilding

/-- A node as it should be: the identity comes first, no field is wanted twice, the
children are in order, and every expanded relationship is wanted. -/
structure Tidy (tree : SelectTree) : Prop where
  /-- The identity comes first. -/
  identity_first : [identityField] <+: tree.select
  /-- No field is wanted twice. -/
  nodup : tree.select.Nodup
  /-- The children are in order. -/
  ordered : Entries.Ordered tree.expand
  /-- Expanded relationships are wanted. -/
  expanded_selected : ∀ entry ∈ tree.expand, entry.1 ∈ tree.select

/-- The children of every node are in order, each name once. -/
abbrev InOrder (tree : SelectTree) : Prop :=
  Everywhere (fun node => Entries.Ordered node.expand) tree

/-- A tree of tidy nodes is in order. -/
theorem Everywhere.inOrder {tree : SelectTree} (h : Everywhere Tidy tree) : tree.InOrder :=
  h.imp fun _ htidy => htidy.ordered

/-- The identity is wanted at a tidy node. -/
theorem Tidy.identity_mem {tree : SelectTree} (h : tree.Tidy) : identityField ∈ tree.select :=
  h.identity_first.subset (List.mem_singleton_self _)

/-- Nothing but the identity is wanted, once. -/
def WantsIdentityOnly (tree : SelectTree) : Prop :=
  tree.select = [identityField] ∧ tree.expand = []

/-- A tidy tree is trivial exactly when it wants nothing but the identity. -/
theorem Tidy.isTrivial_iff {tree : SelectTree} (h : tree.Tidy) :
    tree.isTrivial = true ↔ tree.WantsIdentityOnly := by
  rw [isTrivial, Bool.and_eq_true, List.isEmpty_iff, List.all_eq_true]
  constructor
  · rintro ⟨hexpand, hselect⟩
    refine ⟨?_, hexpand⟩
    obtain ⟨others, hothers⟩ := h.identity_first
    have hnodup := h.nodup
    rw [← hothers] at hselect hnodup ⊢
    cases others with
    | nil => rfl
    | cons other others =>
      have hidentityAgain : other = identityField := by
        simpa using hselect other (by simp)
      simp [hidentityAgain] at hnodup
  · rintro ⟨hselect, hexpand⟩
    exact ⟨hexpand, by simp [hselect]⟩

/-- Building keeps nodes tidy, whatever is expanded. -/
theorem tidy_keptByBuilding (allowed : String → Prop) : KeptByBuilding allowed Tidy where
  root entityType keyName relationship :=
    ⟨List.prefix_rfl, List.nodup_singleton _, .nil, fun _ h => by cases h⟩
  addSelect h name :=
    ⟨h.identity_first.trans (prefix_addName _ _), nodup_addName h.nodup name, h.ordered,
      fun entry hentry => mem_addName.mpr (.inl (h.expanded_selected entry hentry))⟩
  withChild h name _ child := by
    refine ⟨h.identity_first.trans (prefix_addName _ _), nodup_addName h.nodup name,
      h.ordered.insert name child, fun entry hentry => ?_⟩
    rcases Entries.mem_insert hentry with rfl | hold
    · exact mem_addName.mpr (.inr rfl)
    · exact mem_addName.mpr (.inl (h.expanded_selected entry hold))

/-- The identity is not expanded. -/
def KeepsIdentity (tree : SelectTree) : Prop := Entries.get? tree.expand identityField = none

/-- Building never expands the identity unless it counts as a relationship. -/
theorem keepsIdentity_keptByBuilding : KeptByBuilding (· ≠ identityField) KeepsIdentity where
  root _ _ _ := rfl
  addSelect h _ := h
  withChild h name hname child := by
    rw [KeepsIdentity, expand_withChild, Entries.get?_insert_of_ne _ _ (Ne.symm hname)]
    exact h

end EntityQuery.SelectTree
