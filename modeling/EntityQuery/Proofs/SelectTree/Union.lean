import EntityQuery.Proofs.SelectTree.Coverage

/-!
# The union of select trees

A node of a union wants what the nodes of both trees at its place want, and has under a
relationship the union of what they have there, or what the one of them has that has
anything. So the union reaches what either tree reaches, and tidy trees have a tidy union.
-/

namespace EntityQuery.SelectTree

@[simp] theorem entityType_merged (first second : SelectTree) :
    (first.merged second).entityType = first.entityType := by
  cases first
  rfl

@[simp] theorem keyName_merged (first second : SelectTree) :
    (first.merged second).keyName = first.keyName := by
  cases first
  rfl

@[simp] theorem relationship_merged (first second : SelectTree) :
    (first.merged second).relationship = first.relationship := by
  cases first
  rfl

@[simp] theorem select_merged (first second : SelectTree) :
    (first.merged second).select = second.select.foldl addName first.select := by
  cases first
  rfl

theorem expand_merged (first second : SelectTree) :
    (first.merged second).expand = Entries.ofList
      (mergedChildren first.expand second.expand ++
        second.expand.filter fun child => !Entries.contains first.expand child.1) := by
  cases first
  rfl

/-- Every child of the first tree is united with the child of its name. -/
theorem get?_mergedChildren (children others : List (String × SelectTree)) (name : String) :
    Entries.get? (mergedChildren children others) name =
      (Entries.get? children name).map fun child =>
        ((Entries.get? others name).map child.merged).getD child := by
  induction children with
  | nil => rfl
  | cons entry rest ih =>
    obtain ⟨head, child⟩ := entry
    by_cases heq : head = name
    · subst heq
      rw [mergedChildren]
      cases hother : Entries.get? others head <;> simp
    · rw [mergedChildren]
      cases Entries.get? others head <;> simp [Entries.get?, heq, ih]

/-- Uniting children keeps their names. -/
theorem map_fst_mergedChildren (children others : List (String × SelectTree)) :
    (mergedChildren children others).map Prod.fst = children.map Prod.fst := by
  induction children with
  | nil => rfl
  | cons entry rest ih =>
    obtain ⟨head, child⟩ := entry
    rw [mergedChildren]
    cases Entries.get? others head <;> simp [ih]

/-- The children of a union are in order. -/
theorem ordered_expand_merged (first second : SelectTree) :
    Entries.Ordered (first.merged second).expand := by
  rw [expand_merged]
  exact Entries.ordered_ofList _

/-- The tree of a relationship in a union is the union of the two trees, or the only one. -/
theorem get?_expand_merged {first second : SelectTree} (hfirst : Entries.Ordered first.expand)
    (hsecond : Entries.Ordered second.expand) (name : String) :
    Entries.get? (first.merged second).expand name =
      Option.merge merged (Entries.get? first.expand name) (Entries.get? second.expand name) := by
  have hnodup : ((mergedChildren first.expand second.expand ++
      second.expand.filter fun child =>
        !Entries.contains first.expand child.1).map Prod.fst).Nodup := by
    rw [List.map_append, map_fst_mergedChildren]
    refine List.Nodup.append hfirst.nodup ?_ ?_
    · exact (List.Sublist.map Prod.fst List.filter_sublist).nodup hsecond.nodup
    · intro other hold hnew
      obtain ⟨old, hmem, rfl⟩ := List.mem_map.mp hold
      obtain ⟨new, hnew, heq⟩ := List.mem_map.mp hnew
      have hcontains := (List.mem_filter.mp hnew).2
      rw [heq, Entries.contains_of_mem hmem] at hcontains
      cases hcontains
  rw [expand_merged, Entries.get?_ofList hnodup, Entries.get?_append, get?_mergedChildren,
    Entries.get?_filter_not_contains, Entries.contains_eq_isSome]
  cases Entries.get? first.expand name <;> cases Entries.get? second.expand name <;> simp

/-- A union reaches what either of its trees reaches. -/
theorem covers_merged {first second : SelectTree} {path : List String} (hpath : path ≠ [])
    (hfirst : first.InOrder) (hsecond : second.InOrder) :
    (first.merged second).covers path = true ↔
      first.covers path = true ∨ second.covers path = true := by
  induction path generalizing first second with
  | nil => exact absurd rfl hpath
  | cons segment rest ih =>
    by_cases hrest : rest = []
    · subst hrest
      simp
    · rw [covers_cons hrest, covers_cons hrest, covers_cons hrest,
        get?_expand_merged hfirst.here hsecond.here]
      cases hleft : Entries.get? first.expand segment with
      | none => simp
      | some left =>
        cases hright : Entries.get? second.expand segment with
        | none => simp
        | some right => simpa using ih hrest (hfirst.child hleft) (hsecond.child hright)

/-- A relationship that is expanded in a union is expanded in one of the trees. -/
theorem mem_expand_merged {first second : SelectTree} (hfirst : Entries.Ordered first.expand)
    (hsecond : Entries.Ordered second.expand) {entry : String × SelectTree}
    (hentry : entry ∈ (first.merged second).expand) :
    (∃ left, (entry.1, left) ∈ first.expand ∧
        (entry.2 = left ∨ ∃ right, (entry.1, right) ∈ second.expand ∧
          entry.2 = left.merged right)) ∨ entry ∈ second.expand := by
  have hget := Entries.get?_of_mem (ordered_expand_merged first second).nodup hentry
  rw [get?_expand_merged hfirst hsecond] at hget
  cases hleft : Entries.get? first.expand entry.1 with
  | none =>
    rw [hleft, Option.merge_none_left] at hget
    exact .inr (Entries.mem_of_get? hget)
  | some left =>
    left
    refine ⟨left, Entries.mem_of_get? hleft, ?_⟩
    cases hright : Entries.get? second.expand entry.1 with
    | none =>
      rw [hleft, hright, Option.merge_none_right] at hget
      exact .inl (Option.some.inj hget).symm
    | some right =>
      rw [hleft, hright, Option.merge_some_some] at hget
      exact .inr ⟨right, Entries.mem_of_get? hright, (Option.some.inj hget).symm⟩

/-- What uniting two tidy nodes keeps holds everywhere in the union of two trees. -/
theorem Everywhere.merged {P : SelectTree → Prop}
    (hordered : ∀ tree, P tree → Entries.Ordered tree.expand)
    (hmerged : ∀ first second, P first → P second → P (first.merged second))
    {first second : SelectTree} (hfirst : Everywhere P first) (hsecond : Everywhere P second) :
    Everywhere P (first.merged second) := by
  induction hfirst generalizing second with
  | node here children ih =>
    refine .node (hmerged _ _ here hsecond.here) fun entry hentry => ?_
    rcases mem_expand_merged (hordered _ here) (hordered _ hsecond.here) hentry with
      ⟨left, hleft, heq | ⟨right, hright, heq⟩⟩ | hmem
    · rw [heq]
      exact children _ hleft
    · rw [heq]
      exact ih _ hleft (hsecond.children _ hright)
    · exact hsecond.children _ hmem

/-- Tidy nodes have a tidy union. -/
theorem Tidy.merged {first second : SelectTree} (hfirst : first.Tidy) (hsecond : second.Tidy) :
    (first.merged second).Tidy where
  identity_first := by
    rw [select_merged]
    exact hfirst.identity_first.trans (prefix_foldl_addName _ _)
  nodup := by
    rw [select_merged]
    exact nodup_foldl_addName hfirst.nodup _
  ordered := ordered_expand_merged first second
  expanded_selected := fun entry hentry => by
    rw [select_merged, mem_foldl_addName]
    rcases mem_expand_merged hfirst.ordered hsecond.ordered hentry with ⟨left, hleft, _⟩ | hmem
    · exact .inl (hfirst.expanded_selected (entry.1, left) hleft)
    · exact .inr (hsecond.expanded_selected _ hmem)

/-- Trees of tidy nodes have a union of tidy nodes. -/
theorem Everywhere.tidy_merged {first second : SelectTree} (hfirst : Everywhere Tidy first)
    (hsecond : Everywhere Tidy second) : Everywhere Tidy (first.merged second) :=
  .merged (fun _ htidy => htidy.ordered) (fun _ _ hleft hright => hleft.merged hright) hfirst
    hsecond

/-- A union of nodes that do not expand the identity does not expand it either. -/
theorem KeepsIdentity.merged {first second : SelectTree} (hfirst : first.KeepsIdentity)
    (hsecond : second.KeepsIdentity) (hfirstOrdered : Entries.Ordered first.expand)
    (hsecondOrdered : Entries.Ordered second.expand) :
    (first.merged second).KeepsIdentity := by
  rw [KeepsIdentity, get?_expand_merged hfirstOrdered hsecondOrdered, hfirst,
    Option.merge_none_left]
  exact hsecond

end EntityQuery.SelectTree
