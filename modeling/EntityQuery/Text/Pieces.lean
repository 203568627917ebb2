/-!
# Cutting texts at a separator

A text is cut at every occurrence of one separator character. There is always at
least one piece, no piece holds the separator, and writing the separator between
the pieces gives the text back.
-/

namespace EntityQuery.Text

/-- The pieces of a text between the occurrences of a separator. -/
def pieces (separator : Char) (text : String) : List String :=
  (text.toList.splitOn separator).map String.ofList

/-- Every text has a first piece. -/
theorem pieces_ne_nil (separator : Char) (text : String) : pieces separator text ≠ [] := by
  simp [pieces]

/-- Cutting loses nothing but the separators. -/
theorem intercalate_pieces (separator : Char) (text : String) :
    String.intercalate (String.singleton separator) (pieces separator text) = text := by
  apply String.toList_inj.mp
  rw [String.toList_intercalate, pieces, List.map_map]
  have h : String.toList ∘ String.ofList = id := by
    funext cs
    simp
  rw [h, List.map_id, String.toList_singleton, List.intercalate_splitOn]

/-- Texts without the separator are cut apart again. -/
theorem pieces_intercalate {separator : Char} {texts : List String} (hne : texts ≠ [])
    (h : ∀ text ∈ texts, separator ∉ text.toList) :
    pieces separator (String.intercalate (String.singleton separator) texts) = texts := by
  have hchars : ∀ chars ∈ texts.map String.toList, separator ∉ chars := by
    intro chars hmem
    obtain ⟨text, htext, rfl⟩ := List.mem_map.mp hmem
    exact h text htext
  rw [pieces, String.toList_intercalate, String.toList_singleton,
    List.splitOn_intercalate separator hchars (by simpa using hne), List.map_map]
  have hid : String.ofList ∘ String.toList = id := by
    funext text
    simp
  rw [hid, List.map_id]

/-- A character of joined texts is one of the separator or one of a text. -/
theorem mem_of_mem_intercalate {c : Char} {separator : String} {texts : List String}
    (h : c ∈ (String.intercalate separator texts).toList) :
    c ∈ separator.toList ∨ ∃ text ∈ texts, c ∈ text.toList := by
  induction texts with
  | nil => simp at h
  | cons first rest ih =>
    by_cases hrest : rest = []
    · rw [hrest, String.intercalate_singleton] at h
      exact .inr ⟨first, List.mem_cons_self, h⟩
    · rw [String.intercalate_cons_of_ne_nil hrest] at h
      simp only [String.toList_append, List.mem_append] at h
      rcases h with (hfirst | hseparator) | hothers
      · exact .inr ⟨first, List.mem_cons_self, hfirst⟩
      · exact .inl hseparator
      · rcases ih hothers with hseparator | ⟨text, htext, hc⟩
        · exact .inl hseparator
        · exact .inr ⟨text, List.mem_cons_of_mem first htext, hc⟩

/-- Joined texts are not empty if the first of them is not. -/
theorem isEmpty_intercalate_cons {separator text : String} (h : text ≠ "") (texts : List String) :
    (String.intercalate separator (text :: texts)).isEmpty = false := by
  rw [Bool.eq_false_iff, ne_eq, String.isEmpty_iff]
  cases texts with
  | nil => rwa [String.intercalate_singleton]
  | cons next texts =>
    rw [String.intercalate_cons_of_ne_nil (List.cons_ne_nil next texts)]
    simp [h]

end EntityQuery.Text
