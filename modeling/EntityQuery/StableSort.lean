/-!
# Stable sorting

Elements are inserted one after the other, each behind the last element that it does
not precede. Elements that tie keep the order they came in. Nothing is asked of the
comparison: with one that contradicts itself, the result is what this procedure gives.
-/

namespace EntityQuery

variable {α : Type}

/-- Insert an element into a sequence that stands in reverse, passing over the elements
that it precedes. -/
def insertReversed (compare : α → α → Ordering) (x : α) : List α → List α
  | [] => [x]
  | y :: rest =>
    if compare x y = .lt then y :: insertReversed compare x rest else x :: y :: rest

/-- The sorted sequence in reverse. -/
def sortReversed (compare : α → α → Ordering) (elements : List α) : List α :=
  elements.foldl (fun sorted x => insertReversed compare x sorted) []

/-- Sort a sequence; elements that tie keep their order. -/
def stableSort (compare : α → α → Ordering) (elements : List α) : List α :=
  (sortReversed compare elements).reverse

/-- Inserting adds the element and nothing else. -/
theorem insertReversed_perm (compare : α → α → Ordering) (x : α) (sorted : List α) :
    (insertReversed compare x sorted).Perm (x :: sorted) := by
  induction sorted with
  | nil => exact .refl _
  | cons y rest ih =>
    simp only [insertReversed]
    split
    · exact (ih.cons y).trans (.swap x y rest)
    · exact .refl _

/-- Sorting in reverse keeps the elements. -/
theorem sortReversed_perm (compare : α → α → Ordering) (elements : List α) :
    (sortReversed compare elements).Perm elements := by
  suffices ∀ sorted : List α,
      (elements.foldl (fun sorted x => insertReversed compare x sorted) sorted).Perm
        (sorted ++ elements) by
    simpa [sortReversed] using this []
  induction elements with
  | nil => simp
  | cons x rest ih =>
    intro sorted
    have inserted := (insertReversed_perm compare x sorted).append_right rest
    exact (ih _).trans (inserted.trans List.perm_middle.symm)

/-- Sorting keeps the elements. -/
theorem stableSort_perm (compare : α → α → Ordering) (elements : List α) :
    (stableSort compare elements).Perm elements :=
  (List.reverse_perm _).trans (sortReversed_perm compare elements)

end EntityQuery
