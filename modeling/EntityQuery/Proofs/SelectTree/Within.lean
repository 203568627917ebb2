import EntityQuery.Proofs.SelectTree.Union

/-!
# Trees within trees

A tree lies within another one when at every node the other wants at least as much and
follows at least as many relationships, each with the same flags. Every tree lies within
itself, and within its union with any other tree.
-/

namespace EntityQuery.SelectTree

/-- A tree wants nothing that another one does not want at the same place. -/
inductive Within : SelectTree → SelectTree → Prop where
  /-- It does not at the node, and neither do the trees of its relationships. -/
  | node {inner outer : SelectTree} (select : inner.select ⊆ outer.select)
      (expanded : ∀ {name : String}, Entries.contains inner.expand name = true →
        Entries.contains outer.expand name = true)
      (sameFlags : ∀ {name : String} {below beyond : SelectTree},
        Entries.get? inner.expand name = some below →
        Entries.get? outer.expand name = some beyond → below.relationship = beyond.relationship)
      (children : ∀ {name : String} {below beyond : SelectTree},
        Entries.get? inner.expand name = some below →
        Entries.get? outer.expand name = some beyond → Within below beyond) :
      Within inner outer

namespace Within

variable {inner outer : SelectTree}

theorem select (h : Within inner outer) : inner.select ⊆ outer.select := by
  cases h with
  | node select expanded sameFlags children => exact select

theorem contains_expand (h : Within inner outer) {name : String}
    (hname : Entries.contains inner.expand name = true) :
    Entries.contains outer.expand name = true := by
  cases h with
  | node select expanded sameFlags children => exact expanded hname

/-- The outer tree follows what the inner one does, in the same way. -/
theorem exists_child (h : Within inner outer) {name : String} {below : SelectTree}
    (hbelow : Entries.get? inner.expand name = some below) :
    ∃ beyond, Entries.get? outer.expand name = some beyond ∧
      below.relationship = beyond.relationship ∧ Within below beyond := by
  obtain ⟨beyond, hbeyond⟩ :=
    Entries.exists_get?_of_contains (h.contains_expand (Entries.contains_of_get? hbelow))
  cases h with
  | node select expanded sameFlags children =>
    exact ⟨beyond, hbeyond, sameFlags hbelow hbeyond, children hbelow hbeyond⟩

/-- A tree lies within itself. -/
theorem refl {P : SelectTree → Prop} {tree : SelectTree} (htree : Everywhere P tree) :
    Within tree tree := by
  induction htree with
  | node here children ih =>
    refine .node (List.Subset.refl _) id ?_ ?_
    · intro name below beyond hbelow hbeyond
      rw [Option.some.inj (hbelow.symm.trans hbeyond)]
    · intro name below beyond hbelow hbeyond
      obtain rfl := Option.some.inj (hbelow.symm.trans hbeyond)
      exact ih _ (Entries.mem_of_get? hbelow)

/-- A tree lies within its union with another one. -/
theorem merged {first second : SelectTree}
    (hfirst : first.InOrder) (hsecond : second.InOrder) :
    Within first (first.merged second) := by
  induction hfirst generalizing second with
  | @node first here children ih =>
    have hchildOfUnion : ∀ {name : String} {below : SelectTree},
        Entries.get? first.expand name = some below →
        Entries.get? (first.merged second).expand name =
          some (((Entries.get? second.expand name).map below.merged).getD below) := by
      intro name below hbelow
      rw [get?_expand_merged here hsecond.here, hbelow]
      cases Entries.get? second.expand name <;> rfl
    refine .node ?_ ?_ ?_ ?_
    · intro name hname
      rw [select_merged, mem_foldl_addName]
      exact .inl hname
    · intro name hname
      obtain ⟨below, hbelow⟩ := Entries.exists_get?_of_contains hname
      exact Entries.contains_of_get? (hchildOfUnion hbelow)
    · intro name below beyond hbelow hbeyond
      rw [hchildOfUnion hbelow, Option.some.injEq] at hbeyond
      subst hbeyond
      cases Entries.get? second.expand name with
      | none => rfl
      | some other => exact (relationship_merged below other).symm
    · intro name below beyond hbelow hbeyond
      rw [hchildOfUnion hbelow, Option.some.injEq] at hbeyond
      subst hbeyond
      have hmem := Entries.mem_of_get? hbelow
      cases hother : Entries.get? second.expand name with
      | none => exact refl (children _ hmem)
      | some other => exact ih _ hmem (hsecond.child hother)

end Within

end EntityQuery.SelectTree
