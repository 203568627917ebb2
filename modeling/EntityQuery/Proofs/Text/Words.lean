import EntityQuery.Text.Blank
import EntityQuery.Text.Pieces
import Mathlib.Data.List.TakeWhile

/-!
# The words of a text

A word has a character and no blank. The words of a text are words, they have no character that
the text does not have, and a blank between two texts keeps their words apart. Trimming takes
nothing off a word but the blanks around it.
-/

namespace EntityQuery.Text

/-- A text is one word: it has a character and no blank. -/
structure IsSingleWord (text : String) : Prop where
  /-- It has a character. -/
  nonempty : text ≠ ""
  /-- It has no blank. -/
  solid : ∀ c ∈ text.toList, isBlank c = false

/-- What lies between the separators of a list is part of the list and has no separator. -/
theorem mem_of_mem_splitOnP {α : Type} {separates : α → Bool} {elements : List α} :
    ∀ piece ∈ elements.splitOnP separates, ∀ x ∈ piece, x ∈ elements ∧ separates x = false := by
  induction elements with
  | nil => simp [List.splitOnP_nil]
  | cons first rest ih =>
    have hrest : ∀ piece ∈ rest.splitOnP separates, ∀ x ∈ piece,
        x ∈ first :: rest ∧ separates x = false := fun piece hpiece x hx =>
      (ih piece hpiece x hx).imp_left (List.mem_cons_of_mem first)
    rw [List.splitOnP_cons_eq_if_modifyHead]
    split
    · exact List.forall_mem_cons.mpr ⟨nofun, hrest⟩
    · next hfirst =>
      obtain ⟨head, tail, hfirstPiece⟩ := List.exists_cons_of_ne_nil
        (List.splitOnP_ne_nil separates rest)
      rw [hfirstPiece] at hrest ⊢
      obtain ⟨hhead, htail⟩ := List.forall_mem_cons.mp hrest
      refine List.forall_mem_cons.mpr ⟨List.forall_mem_cons.mpr ⟨?_, hhead⟩, htail⟩
      exact ⟨List.mem_cons_self, Bool.not_eq_true _ ▸ hfirst⟩

/-- No piece of a text has a character that the text does not have, nor the separator. -/
theorem mem_of_mem_pieces {separator : Char} {text piece : String}
    (hpiece : piece ∈ pieces separator text) :
    ∀ c ∈ piece.toList, c ∈ text.toList ∧ c ≠ separator := by
  obtain ⟨chars, hchars, rfl⟩ := List.mem_map.mp hpiece
  rw [String.toList_ofList]
  intro c hc
  rw [List.splitOn_eq_splitOnP] at hchars
  exact (mem_of_mem_splitOnP chars hchars c hc).imp_right fun h => by simpa using h

/-- The words of a text are words and have no character that the text does not have. -/
theorem isSingleWord_of_mem_words {text word : String} (hword : word ∈ words text) :
    IsSingleWord word ∧ ∀ c ∈ word.toList, c ∈ text.toList := by
  obtain ⟨chars, hchars, rfl⟩ := List.mem_map.mp hword
  obtain ⟨hpiece, hnonempty⟩ := List.mem_filter.mp hchars
  have hmem := mem_of_mem_splitOnP chars hpiece
  rw [String.toList_ofList]
  refine ⟨⟨?_, ?_⟩, fun c hc => (hmem c hc).1⟩
  · intro hempty
    obtain rfl : chars = [] := by simpa using congrArg String.toList hempty
    exact Bool.false_ne_true hnonempty
  · rw [String.toList_ofList]
    exact fun c hc => (hmem c hc).2

/-- A word is its own only word. -/
theorem words_of_isSingleWord {word : String} (h : IsSingleWord word) : words word = [word] := by
  have hempty : word.toList.isEmpty = false := by
    rw [List.isEmpty_eq_false_iff]
    simpa using h.nonempty
  rw [words, List.splitOnP_eq_singleton h.solid]
  simp [hempty]

/-- Trimming a word with blanks around it leaves the word: it stops at the first character of the
word from the left, and at the last one from the right. -/
theorem trimChars_of_isSingleWord {word before after : String} (h : IsSingleWord word)
    (hbefore : isBlankText before = true) (hafter : isBlankText after = true) :
    trimChars (before ++ word ++ after).toList = word.toList := by
  have hkept : ∀ c ∈ word.toList, ¬isBlank c = true := fun c hc => by simp [h.solid c hc]
  have hfront : (before ++ word ++ after).toList.dropWhile isBlank =
      word.toList ++ after.toList := by
    obtain ⟨first, rest, hword⟩ := List.exists_cons_of_ne_nil (by simpa using h.nonempty :
      word.toList ≠ [])
    have hfirst := hkept first (hword ▸ List.mem_cons_self)
    rw [String.toList_append, String.toList_append, List.append_assoc,
      List.dropWhile_append_of_pos (List.all_eq_true.mp hbefore), hword, List.cons_append,
      List.dropWhile_cons_of_neg hfirst]
  have hback : (after.toList.reverse ++ word.toList.reverse).dropWhile isBlank =
      word.toList.reverse := by
    rw [List.dropWhile_append_of_pos fun c hc =>
      List.all_eq_true.mp hafter c (List.mem_reverse.mp hc), List.dropWhile_eq_self_iff]
    exact fun hlength => hkept _ (List.mem_reverse.mp (List.getElem_mem hlength))
  rw [trimChars, hfront, List.reverse_append, hback, List.reverse_reverse]

/-- The words of two texts around a blank are the words of both. -/
theorem words_append {c : Char} (hc : isBlank c = true) (front back : String) :
    words (front ++ String.singleton c ++ back) = words front ++ words back := by
  have htext : (front ++ String.singleton c ++ back).toList =
      front.toList ++ c :: back.toList := by
    simp [String.toList_append]
  rw [words, htext, List.splitOnP_append_cons _ _ hc, List.filter_append, List.map_append]
  rfl

/-- A space is blank. -/
theorem isBlank_space : isBlank ' ' = true := by decide

/-- A space in front does not change the words of a text. -/
theorem words_space_append (text : String) : words (" " ++ text) = words text := by
  have hwords := words_append isBlank_space "" text
  rwa [String.empty_append] at hwords

end EntityQuery.Text
