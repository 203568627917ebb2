import EntityQuery.Proofs.SelectTree.Union

/-!
# The laws of the union

Every node of a union is the union of the nodes that the two trees have at its place, or the one
of them that there is. With that, uniting a tree with itself changes nothing, three trees can be
united in either way, and every node of the first tree keeps its fields in front of the new ones.
-/

namespace EntityQuery.SelectTree

/-- Trees with the same properties, the same fields and the same children are the same. -/
theorem eq_of_parts {first second : SelectTree} (htype : first.entityType = second.entityType)
    (hkey : first.keyName = second.keyName) (hselect : first.select = second.select)
    (hexpand : first.expand = second.expand)
    (hrelationship : first.relationship = second.relationship) : first = second := by
  obtain ⟨_, _, _, _, _⟩ := first
  obtain ⟨_, _, _, _, _⟩ := second
  simp_all

/-- Adding names that are there changes nothing. -/
theorem foldl_addName_of_subset {names others : List String} (h : others ⊆ names) :
    others.foldl addName names = names := by
  induction others with
  | nil => rfl
  | cons name others ih =>
    obtain ⟨hname, hothers⟩ := List.cons_subset.mp h
    have hold : addName names name = names := by simp [addName, hname]
    rw [List.foldl_cons, hold, ih hothers]

/-- Adding names to names that are added themselves is adding both one after the other. -/
theorem foldl_addName_foldl_addName (first second third : List String) :
    (third.foldl addName second).foldl addName first =
      third.foldl addName (second.foldl addName first) := by
  induction third generalizing second with
  | nil => rfl
  | cons name third ih =>
    rw [List.foldl_cons, ih, List.foldl_cons]
    congr 1
    by_cases hold : name ∈ second
    · have hthere : name ∈ second.foldl addName first := mem_foldl_addName.mpr (.inr hold)
      simp [addName, hold, hthere]
    · have hnew : addName second name = second ++ [name] := by simp [addName, hold]
      rw [hnew, List.foldl_append]
      rfl

section Laws

variable {first second third : SelectTree}

/-- The node of a union at a place is the union of the nodes there, or the only one there. -/
theorem below?_merged (hfirst : first.InOrder) (hsecond : second.InOrder) (path : List String) :
    (first.merged second).below? path =
      Option.merge SelectTree.merged (first.below? path) (second.below? path) := by
  induction path generalizing first second with
  | nil => rfl
  | cons segment rest ih =>
    simp only [below?, get?_expand_merged hfirst.here hsecond.here]
    cases hleft : Entries.get? first.expand segment with
    | none => cases Entries.get? second.expand segment <;> simp
    | some left =>
      cases hright : Entries.get? second.expand segment with
      | none => simp
      | some right => simpa using ih (hfirst.child hleft) (hsecond.child hright)

/-- A tree united with itself stays as it is. -/
theorem merged_self (h : first.InOrder) : first.merged first = first := by
  induction h with
  | @node tree here children ih =>
    refine eq_of_parts (by simp) (by simp) ?_ ?_ (by simp)
    · rw [select_merged, foldl_addName_of_subset (List.Subset.refl _)]
    · refine (ordered_expand_merged _ _).ext here fun name => ?_
      rw [get?_expand_merged here here]
      cases hchild : Entries.get? tree.expand name with
      | none => rfl
      | some child => exact congrArg some (ih (name, child) (Entries.mem_of_get? hchild))

/-- Three trees can be united from the left or from the right. -/
theorem merged_assoc (hfirst : first.InOrder) (hsecond : second.InOrder)
    (hthird : third.InOrder) :
    (first.merged second).merged third = first.merged (second.merged third) := by
  induction hfirst generalizing second third with
  | @node first here children ih =>
    refine eq_of_parts (by simp) (by simp) ?_ ?_ (by simp)
    · simp only [select_merged, foldl_addName_foldl_addName]
    · refine (ordered_expand_merged _ _).ext (ordered_expand_merged _ _) fun name => ?_
      rw [get?_expand_merged (ordered_expand_merged _ _) hthird.here,
        get?_expand_merged here hsecond.here,
        get?_expand_merged here (ordered_expand_merged _ _),
        get?_expand_merged hsecond.here hthird.here]
      cases hleft : Entries.get? first.expand name with
      | none => simp
      | some left =>
        cases hmiddle : Entries.get? second.expand name with
        | none => simp
        | some middle =>
          cases hright : Entries.get? third.expand name with
          | none => simp
          | some right =>
            exact congrArg some (ih (name, left) (Entries.mem_of_get? hleft)
              (hsecond.child hmiddle) (hthird.child hright))

/-- The union of trees reaches what either of them reaches. A tree united with itself stays as it
is, and three trees can be united in either way. Every node of the first tree is still there and
has its own fields first; and a union of tidy trees is tidy. -/
theorem merged_unites (hfirst : first.InOrder) (hsecond : second.InOrder)
    (hthird : third.InOrder) :
    (∀ path, (first.merged second).covers path = true ↔
      first.covers path = true ∨ second.covers path = true) ∧
    first.merged first = first ∧
    (first.merged second).merged third = first.merged (second.merged third) ∧
    (∀ path node, first.below? path = some node → ∃ united,
      (first.merged second).below? path = some united ∧ node.select <+: united.select) ∧
    (Everywhere Tidy first → Everywhere Tidy second → Everywhere Tidy (first.merged second)) := by
  refine ⟨fun path => ?_, merged_self hfirst, merged_assoc hfirst hsecond hthird,
    fun path node hnode => ?_, Everywhere.tidy_merged⟩
  · by_cases hpath : path = []
    · simp [hpath]
    · exact covers_merged hpath hfirst hsecond
  · rw [below?_merged hfirst hsecond, hnode]
    cases second.below? path with
    | none => exact ⟨node, rfl, List.prefix_rfl⟩
    | some other =>
      refine ⟨node.merged other, rfl, ?_⟩
      rw [select_merged]
      exact prefix_foldl_addName _ _

end Laws

/-- The tree of one field of the managers of employees. -/
def managerTree (field : String) : SelectTree :=
  (root "employee" "id").withChild "manager" ((root "employee" "id").addSelect field)

/-- The tree of the prices of the orders of the managers of employees. -/
def managerOrdersTree : SelectTree :=
  (root "employee" "id").withChild "manager"
    ((root "employee" "id").withChild "orders" ((root "order" "id").addSelect "price"))

theorem tidy_managerTree (field : String) : Everywhere Tidy (managerTree field) :=
  have kept := tidy_keptByBuilding fun _ => True
  kept.everywhere_withChild (kept.everywhere_root _ _ _) trivial
    (kept.everywhere_addSelect (kept.everywhere_root _ _ _) field)

theorem tidy_managerOrdersTree : Everywhere Tidy managerOrdersTree :=
  have kept := tidy_keptByBuilding fun _ => True
  kept.everywhere_withChild (kept.everywhere_root _ _ _) trivial
    (kept.everywhere_withChild (kept.everywhere_root _ _ _) trivial
      (kept.everywhere_addSelect (kept.everywhere_root _ _ _) "price"))

theorem merged_unites_managers :
    let ages := managerTree "age"
    let names := managerTree "name"
    ages.InOrder ∧ names.InOrder ∧ managerOrdersTree.InOrder ∧
      ((ages.merged names).covers ["manager", "name"] = true ↔
        ages.covers ["manager", "name"] = true ∨ names.covers ["manager", "name"] = true) ∧
      ages.merged ages = ages ∧
      (ages.merged names).merged managerOrdersTree =
        ages.merged (names.merged managerOrdersTree) ∧
      (∃ united, (ages.merged names).below? ["manager"] = some united ∧
        ["id", "age"] <+: united.select) ∧
      Everywhere Tidy (ages.merged names) := by
  intro ages names
  have hages := (tidy_managerTree "age").inOrder
  have hnames := (tidy_managerTree "name").inOrder
  have horders := tidy_managerOrdersTree.inOrder
  obtain ⟨hcovers, hself, hassoc, hprefix, htidy⟩ := merged_unites hages hnames horders
  have hmanager : ages.below? ["manager"] = some ((root "employee" "id").addSelect "age") := rfl
  exact ⟨hages, hnames, horders, hcovers _, hself, hassoc, hprefix _ _ hmanager,
    htidy (tidy_managerTree "age") (tidy_managerTree "name")⟩

end EntityQuery.SelectTree
