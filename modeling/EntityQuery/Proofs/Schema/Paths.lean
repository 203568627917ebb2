import EntityQuery.Predicate.Basic
import EntityQuery.Proofs.Outcome
import EntityQuery.Schema.Lookup

/-!
# The segments of joined paths

A path below another one has the segments of both, one list behind the other. The empty
path is no path at all, but it stands for the record itself as the outer path of a
filter, so it counts as the outer path of no segments.
-/

namespace EntityQuery

/-- A text without the separator is its own only piece. -/
theorem Text.pieces_of_not_mem {separator : Char} {text : String}
    (h : separator ∉ text.toList) : pieces separator text = [text] := by
  rw [pieces, List.splitOn, List.splitOnP_eq_singleton]
  · simp
  · intro c hc
    exact beq_false_of_ne fun heq => h (heq ▸ hc)

/-- The pieces of two texts around a separator are the pieces of both. -/
theorem Text.pieces_append (separator : Char) (front back : String) :
    pieces separator (front ++ String.singleton separator ++ back) =
      pieces separator front ++ pieces separator back := by
  have htext : (front ++ String.singleton separator ++ back).toList =
      front.toList ++ separator :: back.toList := by
    simp [String.toList_append]
  rw [pieces, htext, List.splitOn_append_cons_self, List.map_append]
  rfl

namespace Schema

/-- A path has segments exactly when no trimmed piece is empty. -/
theorem pathSegments_eq_ok_iff {path : String} {segments : List String} :
    pathSegments path = .ok segments ↔
      ((Text.pieces '.' path).map Text.trim).any String.isEmpty = false ∧
        (Text.pieces '.' path).map Text.trim = segments := by
  simp only [pathSegments]
  cases h : ((Text.pieces '.' path).map Text.trim).any String.isEmpty <;> simp

/-- Every path has a first segment. -/
theorem pathSegments_ne_nil {path : String} {segments : List String}
    (h : pathSegments path = .ok segments) : segments ≠ [] := by
  obtain ⟨_, rfl⟩ := pathSegments_eq_ok_iff.mp h
  simpa using Text.pieces_ne_nil '.' path

/-- A path without dots has itself as its one segment, trimmed. -/
theorem pathSegments_of_no_dot {path : String} {segments : List String}
    (hdot : path.toList.contains '.' = false) (h : pathSegments path = .ok segments) :
    segments = [Text.trim path] := by
  obtain ⟨_, rfl⟩ := pathSegments_eq_ok_iff.mp h
  have hmem : '.' ∉ path.toList := by simpa using hdot
  rw [Text.pieces_of_not_mem hmem, List.map_singleton]

/-- The empty text is no path. -/
theorem isEmpty_eq_false_of_pathSegments {path : String} {segments : List String}
    (h : pathSegments path = .ok segments) : path.isEmpty = false := by
  by_contra hempty
  obtain rfl : path = "" := by simpa using hempty
  have hnone : pathSegments "" = .error (.emptyPath "") := by decide +kernel
  rw [hnone] at h
  cases h

/-- A path below another one has the segments of both. -/
theorem pathSegments_dotted {front back : String} {first last : List String}
    (hfront : pathSegments front = .ok first) (hback : pathSegments back = .ok last) :
    pathSegments (front ++ "." ++ back) = .ok (first ++ last) := by
  obtain ⟨hfrontFull, rfl⟩ := pathSegments_eq_ok_iff.mp hfront
  obtain ⟨hbackFull, rfl⟩ := pathSegments_eq_ok_iff.mp hback
  have hpieces : Text.pieces '.' (front ++ "." ++ back) =
      Text.pieces '.' front ++ Text.pieces '.' back := Text.pieces_append '.' front back
  rw [pathSegments_eq_ok_iff, hpieces, List.map_append, List.any_append, hfrontFull, hbackFull]
  exact ⟨rfl, rfl⟩

/-- An outer path has these segments; the empty one has none. -/
def OuterSegments (outer : String) (segments : List String) : Prop :=
  (outer = "" ∧ segments = []) ∨ pathSegments outer = .ok segments

/-- The path of the record itself has no segments. -/
theorem outerSegments_empty : OuterSegments "" [] := .inl ⟨rfl, rfl⟩

/-- A path joined to an outer path has the segments of both. -/
theorem pathSegments_joinPath {outer path : String} {front back : List String}
    (houter : OuterSegments outer front) (hpath : pathSegments path = .ok back) :
    pathSegments (Predicate.joinPath outer path) = .ok (front ++ back) := by
  rcases houter with ⟨rfl, rfl⟩ | hfront
  · simpa [Predicate.joinPath] using hpath
  · have hnonempty := isEmpty_eq_false_of_pathSegments hfront
    simp only [Predicate.joinPath, hnonempty, Bool.false_eq_true, if_false]
    exact pathSegments_dotted hfront hpath

/-- Of a path that was joined to an outer path, the segments behind those of the outer one are
its own. -/
theorem exists_segments_of_joinPath {outer path : String} {front segments : List String}
    (houter : OuterSegments outer front)
    (h : pathSegments (Predicate.joinPath outer path) = .ok segments) :
    ∃ back, pathSegments path = .ok back ∧ segments = front ++ back := by
  rcases houter with ⟨rfl, rfl⟩ | hfront
  · exact ⟨segments, by simpa [Predicate.joinPath] using h, rfl⟩
  · have hpieces : Text.pieces '.' (outer ++ "." ++ path) =
        Text.pieces '.' outer ++ Text.pieces '.' path := Text.pieces_append '.' outer path
    simp only [Predicate.joinPath, isEmpty_eq_false_of_pathSegments hfront, Bool.false_eq_true,
      if_false] at h
    obtain ⟨_, rfl⟩ := pathSegments_eq_ok_iff.mp hfront
    obtain ⟨hfull, rfl⟩ := pathSegments_eq_ok_iff.mp h
    rw [hpieces, List.map_append] at hfull ⊢
    rw [List.any_append, Bool.or_eq_false_iff] at hfull
    exact ⟨_, pathSegments_eq_ok_iff.mpr ⟨hfull.2, rfl⟩, rfl⟩

/-- The path that was joined is an outer path in turn. -/
theorem OuterSegments.joinPath {outer path : String} {front back : List String}
    (houter : OuterSegments outer front) (hpath : pathSegments path = .ok back) :
    OuterSegments (Predicate.joinPath outer path) (front ++ back) :=
  .inr (pathSegments_joinPath houter hpath)

end Schema

end EntityQuery
