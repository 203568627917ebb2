import EntityQuery.StableSort

/-!
# What stable sorting does

Sorting only looks at elements through the comparison. When changed elements compare as
the old ones did, sorting them gives the changed elements in the old order.

A comparison that is a total preorder on the elements is followed: no element stands behind one
that it precedes, and the elements that tie with one of them stand as they did before.
-/

namespace EntityQuery

variable {α β : Type} {f : α → β} {compareNew : β → β → Ordering}

theorem insertReversed_map {compareOld : α → α → Ordering}
    (h : ∀ a b, compareNew (f a) (f b) = compareOld a b) (x : α)
    (sorted : List α) :
    insertReversed compareNew (f x) (sorted.map f) =
      (insertReversed compareOld x sorted).map f := by
  induction sorted with
  | nil => rfl
  | cons y rest ih =>
    rw [List.map_cons, insertReversed, insertReversed, h, ih]
    by_cases hlt : compareOld x y = .lt <;> simp [hlt]

/-- Sorting changed elements is changing the sorted ones. -/
theorem stableSort_map (compareOld : α → α → Ordering)
    (h : ∀ a b, compareNew (f a) (f b) = compareOld a b) (elements : List α) :
    stableSort compareNew (elements.map f) = (stableSort compareOld elements).map f := by
  suffices hfold : ∀ sorted : List α,
      (elements.map f).foldl (fun sorted x => insertReversed compareNew x sorted) (sorted.map f) =
        (elements.foldl (fun sorted x => insertReversed compareOld x sorted) sorted).map f by
    rw [stableSort, stableSort, sortReversed, sortReversed, List.map_reverse, ← hfold []]
    rfl
  induction elements with
  | nil => exact fun _ => rfl
  | cons x rest ih =>
    intro sorted
    rw [List.map_cons, List.foldl_cons, List.foldl_cons, insertReversed_map h, ih]

section Preorder

variable {compare : α → α → Ordering}

/-- Inserting keeps a sequence in reverse sorted: none precedes one that follows it. -/
theorem pairwise_insertReversed [Std.TransCmp compare] (x : α) {sorted : List α}
    (h : sorted.Pairwise fun a b => compare a b ≠ .lt) :
    (insertReversed compare x sorted).Pairwise fun a b => compare a b ≠ .lt := by
  induction sorted with
  | nil => exact List.pairwise_singleton _ x
  | cons y rest ih =>
    obtain ⟨hy, hrest⟩ := List.pairwise_cons.mp h
    rw [insertReversed]
    split
    case isTrue hlt =>
      refine List.pairwise_cons.mpr ⟨?_, ih hrest⟩
      intro z hz
      rcases List.mem_cons.mp ((insertReversed_perm compare x rest).mem_iff.mp hz) with rfl | hz
      · rw [Std.OrientedCmp.gt_of_lt hlt]
        decide
      · exact hy z hz
    case isFalse hnot =>
      refine List.pairwise_cons.mpr ⟨?_, h⟩
      intro z hz hlt
      rcases List.mem_cons.mp hz with rfl | hz
      · exact hnot hlt
      · exact hnot (Std.TransCmp.lt_of_lt_of_isLE hlt
          (Std.OrientedCmp.isGE_iff_isLE.mp (Ordering.isGE_iff_ne_lt.mpr (hy z hz))))

/-- Of the elements that tie with one, an inserted one becomes the first in reverse. -/
theorem filter_insertReversed [Std.TransCmp compare] (t x : α) (sorted : List α) :
    (insertReversed compare x sorted).filter (compare · t = .eq) =
      (x :: sorted).filter (compare · t = .eq) := by
  induction sorted with
  | nil => rfl
  | cons y rest ih =>
    rw [insertReversed]
    split
    case isTrue hlt =>
      rw [List.filter_cons, ih]
      by_cases hy : compare y t = .eq
      · have hnoTie : compare x t ≠ .eq := by
          intro hx
          have htie := Std.TransCmp.eq_trans hx (Std.OrientedCmp.eq_symm hy)
          rw [hlt] at htie
          cases htie
        simp [hnoTie, hy]
      · simp [List.filter_cons, hy]
    case isFalse => rfl

/-- By a total preorder no element is sorted behind one that it precedes. -/
theorem pairwise_stableSort [Std.TransCmp compare] (elements : List α) :
    (stableSort compare elements).Pairwise fun a b => compare b a ≠ .lt := by
  suffices hfold : ∀ sorted : List α, (sorted.Pairwise fun a b => compare a b ≠ .lt) →
      (elements.foldl (fun sorted x => insertReversed compare x sorted) sorted).Pairwise
        fun a b => compare a b ≠ .lt by
    rw [stableSort, List.pairwise_reverse]
    exact hfold [] .nil
  induction elements with
  | nil => exact fun _ h => h
  | cons x rest ih => exact fun _ h => ih _ (pairwise_insertReversed x h)

/-- Sorting by a total preorder keeps the sequence of the elements that tie with one. -/
theorem filter_stableSort [Std.TransCmp compare] (t : α) (elements : List α) :
    (stableSort compare elements).filter (compare · t = .eq) =
      elements.filter (compare · t = .eq) := by
  suffices hfold : ∀ sorted : List α,
      (elements.foldl (fun sorted x => insertReversed compare x sorted) sorted).filter
          (compare · t = .eq) =
        (elements.filter (compare · t = .eq)).reverse ++ sorted.filter (compare · t = .eq) by
    rw [stableSort, List.filter_reverse, sortReversed, hfold []]
    simp
  induction elements with
  | nil => exact fun _ => rfl
  | cons x rest ih =>
    intro sorted
    rw [List.foldl_cons, ih, filter_insertReversed]
    by_cases hx : compare x t = .eq <;> simp [hx]

/-- The comparison is a total preorder on the elements of a list. -/
abbrev TransOn (compare : α → α → Ordering) (elements : List α) : Prop :=
  Std.TransCmp fun a b : {x // x ∈ elements} => compare a.val b.val

/-- Sorting the elements of a list as its elements. -/
theorem stableSort_attach (compare : α → α → Ordering) (elements : List α) :
    (stableSort (fun a b : {x // x ∈ elements} => compare a.val b.val) elements.attach).map
      Subtype.val = stableSort compare elements := by
  have hmap : stableSort compare (elements.attach.map Subtype.val) =
      (stableSort (fun a b : {x // x ∈ elements} => compare a.val b.val) elements.attach).map
        Subtype.val := stableSort_map _ (fun _ _ => rfl) elements.attach
  rw [← hmap, List.attach_map_subtype_val]

/-- By a total preorder on the elements none is sorted behind one that it precedes. -/
theorem pairwise_stableSort_of_transOn {elements : List α} (h : TransOn compare elements) :
    (stableSort compare elements).Pairwise fun a b => compare b a ≠ .lt := by
  rw [← stableSort_attach, List.pairwise_map]
  exact pairwise_stableSort elements.attach

/-- Sorting by a total preorder on the elements keeps the sequence of those that tie with one of
them. -/
theorem filter_stableSort_of_transOn {elements : List α} (h : TransOn compare elements) {t : α}
    (ht : t ∈ elements) :
    (stableSort compare elements).filter (compare · t = .eq) =
      elements.filter (compare · t = .eq) := by
  let inside (a b : {x // x ∈ elements}) : Ordering := compare a.val b.val
  have hvalues (list : List {x // x ∈ elements}) :
      (list.map Subtype.val).filter (compare · t = .eq) =
        (list.filter (inside · ⟨t, ht⟩ = .eq)).map Subtype.val :=
    List.filter_map
  rw [← stableSort_attach, hvalues, filter_stableSort, ← hvalues, List.attach_map_subtype_val]

end Preorder

end EntityQuery
