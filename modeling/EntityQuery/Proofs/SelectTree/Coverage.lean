import EntityQuery.Proofs.SelectTree.Nodes

/-!
# The paths that a tree reaches

A tree covers a path when every segment but the last leads to the tree of a relationship
and the last one is wanted there. The two ways to change a tree add exactly the paths
that they are meant to add, and a union covers what either of its parts covers.
-/

namespace EntityQuery.SelectTree

/-- The tree that a path of relationships leads to. -/
def below? (tree : SelectTree) : List String → Option SelectTree
  | [] => some tree
  | segment :: rest => (Entries.get? tree.expand segment).bind fun child => child.below? rest

@[simp] theorem covers_nil (tree : SelectTree) : tree.covers [] = true := by
  cases tree
  rfl

@[simp] theorem covers_singleton (tree : SelectTree) (name : String) :
    tree.covers [name] = true ↔ name ∈ tree.select := by
  simp [covers]

/-- A longer path goes through the tree of its first segment. -/
theorem covers_cons {tree : SelectTree} {segment : String} {rest : List String}
    (hrest : rest ≠ []) :
    tree.covers (segment :: rest) = true ↔
      ∃ child, Entries.get? tree.expand segment = some child ∧ child.covers rest = true := by
  cases rest with
  | nil => exact absurd rfl hrest
  | cons next rest =>
    rw [covers]
    · cases Entries.get? tree.expand segment <;> simp
    · simp

/-- A path below another one is reached from where that one leads. -/
theorem covers_append {tree : SelectTree} {front back : List String} (hback : back ≠ []) :
    tree.covers (front ++ back) = true ↔
      ∃ node, tree.below? front = some node ∧ node.covers back = true := by
  induction front generalizing tree with
  | nil => simp [below?]
  | cons segment front ih =>
    rw [List.cons_append, covers_cons (by simp [hback])]
    simp only [ih, below?, Option.bind_eq_some_iff]
    constructor
    · rintro ⟨child, hchild, node, hnode, hcovers⟩
      exact ⟨node, ⟨child, hchild, hnode⟩, hcovers⟩
    · rintro ⟨node, ⟨child, hchild, hnode⟩, hcovers⟩
      exact ⟨child, hchild, node, hnode, hcovers⟩

/-- One path after another leads where both together lead. -/
theorem below?_append {tree node inner : SelectTree} {front back : List String}
    (hfront : tree.below? front = some node) (hback : node.below? back = some inner) :
    tree.below? (front ++ back) = some inner := by
  induction front generalizing tree with
  | nil =>
    obtain rfl := Option.some.inj hfront
    exact hback
  | cons segment front ih =>
    obtain ⟨child, hchild, hbelow⟩ := Option.bind_eq_some_iff.mp hfront
    exact Option.bind_eq_some_iff.mpr ⟨child, hchild, ih hbelow⟩

/-- What holds everywhere in a tree holds everywhere below a path. -/
theorem Everywhere.below? {P : SelectTree → Prop} {tree node : SelectTree} {path : List String}
    (h : Everywhere P tree) (hnode : tree.below? path = some node) : Everywhere P node := by
  induction path generalizing tree with
  | nil =>
    obtain rfl := Option.some.inj hnode
    exact h
  | cons segment rest ih =>
    obtain ⟨child, hchild, hbelow⟩ := Option.bind_eq_some_iff.mp hnode
    exact ih (h.child hchild) hbelow

/-- A tree that wants nothing but the identity reaches nothing but the identity. -/
theorem covers_root {entityType keyName : String} {relationship : Option RelationshipFlags}
    {path : List String} (hpath : path ≠ []) :
    (root entityType keyName relationship).covers path = true ↔ path = [identityField] := by
  match path with
  | [name] => simp [root]
  | name :: next :: rest =>
    rw [covers_cons (List.cons_ne_nil _ _)]
    simp [root]

/-- Wanting a field adds its path. -/
theorem covers_addSelect {tree : SelectTree} {name : String} {path : List String} :
    (tree.addSelect name).covers path = true ↔ tree.covers path = true ∨ path = [name] := by
  match path with
  | [] => simp
  | [other] => simp
  | segment :: next :: rest =>
    rw [covers_cons (List.cons_ne_nil _ _), covers_cons (List.cons_ne_nil _ _)]
    simp

/-- Below a relationship, a tree reaches what the tree put in its place does. -/
theorem covers_withChild_cons {tree child : SelectTree} {name segment : String}
    {rest : List String} (hrest : rest ≠ []) :
    (tree.withChild name child).covers (segment :: rest) = true ↔
      if segment = name then child.covers rest = true
      else tree.covers (segment :: rest) = true := by
  rw [covers_cons hrest, covers_cons hrest, expand_withChild, Entries.get?_insert]
  by_cases heq : segment = name <;> simp [heq]

/-- The tree that is changed under a relationship, made anew if there is none, reaches
what the old one did and its identity. -/
theorem covers_getD {tree fresh : SelectTree} {name : String} (htree : Everywhere Tidy tree)
    (hfresh : ∀ path, path ≠ [] → (fresh.covers path = true ↔ path = [identityField]))
    {rest : List String} (hrest : rest ≠ []) :
    ((Entries.get? tree.expand name).getD fresh).covers rest = true ↔
      tree.covers (name :: rest) = true ∨ rest = [identityField] := by
  rw [covers_cons hrest]
  cases hold : Entries.get? tree.expand name with
  | none => simpa using hfresh rest hrest
  | some old =>
    have hidentity : identityField ∈ old.select := (htree.child hold).here.identity_mem
    simp only [Option.getD_some, Option.some.injEq, exists_eq_left']
    constructor
    · exact .inl
    · rintro (hcovers | rfl)
      · exact hcovers
      · exact (covers_singleton old identityField).mpr hidentity

/-- Changing the tree of a relationship adds the relationship, the identity below it, and
what the change adds there. -/
theorem covers_expandWith {ε : Type} {tree fresh out : SelectTree} {name : String}
    {change : SelectTree → Except ε SelectTree} {added : List String → Prop}
    (htree : Everywhere Tidy tree)
    (hfresh : ∀ path, path ≠ [] → (fresh.covers path = true ↔ path = [identityField]))
    (hchange : ∀ before after, change before = .ok after →
      before = (Entries.get? tree.expand name).getD fresh → ∀ path, path ≠ [] →
      (after.covers path = true ↔ before.covers path = true ∨ added path))
    (hout : tree.expandWith name fresh change = .ok out) {path : List String}
    (hpath : path ≠ []) :
    out.covers path = true ↔ tree.covers path = true ∨ path = [name] ∨
      ∃ rest, rest ≠ [] ∧ path = name :: rest ∧ (rest = [identityField] ∨ added rest) := by
  obtain ⟨child, hchild, rfl⟩ := expandWith_eq_ok_iff.mp hout
  match path with
  | [other] => simp
  | segment :: next :: rest =>
    have hrest : next :: rest ≠ [] := List.cons_ne_nil _ _
    rw [covers_withChild_cons hrest]
    by_cases heq : segment = name
    · subst heq
      rw [if_pos rfl, hchange _ _ hchild rfl _ hrest, covers_getD htree hfresh hrest]
      simp [or_assoc]
    · simp [heq]

end EntityQuery.SelectTree
