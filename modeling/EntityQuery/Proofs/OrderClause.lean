import EntityQuery.OrderClause
import EntityQuery.Proofs.Outcome
import EntityQuery.Proofs.Text.Words

/-!
# The text of an order clause

A clause that was read has at least one key, and every path in it is one word without commas. The
text of such a clause reads as the clause: commas separate the keys and nothing else, a blank
separates the path from the direction, and a direction is written as a word that is read.
-/

namespace EntityQuery

/-- The path of a key can be told apart in a text: it is one word, and it has no comma. -/
structure SortKey.Readable (key : SortKey) : Prop where
  /-- It is one word. -/
  path : Text.IsSingleWord key.path
  /-- It has no comma. -/
  noComma : ',' ∉ key.path.toList

/-- A clause has a key, and the paths of all keys can be told apart in a text. -/
structure OrderClause.Readable (clause : OrderClause) : Prop where
  /-- It has a key. -/
  nonempty : clause.keys ≠ []
  /-- Their paths can be told apart. -/
  keys : ∀ key ∈ clause.keys, key.Readable

/-- The word for a direction is one word. -/
theorem Direction.isSingleWord_word (direction : Direction) :
    Text.IsSingleWord direction.word where
  nonempty := by cases direction <;> decide
  solid := by
    have hsolid : (direction.word.toList.all fun c => Text.isBlank c == false) = true := by
      cases direction <;> decide
    intro c hc
    exact beq_iff_eq.mp (List.all_eq_true.mp hsolid c hc)

/-- The word for a direction has no comma. -/
theorem Direction.comma_not_mem_word (direction : Direction) :
    ',' ∉ direction.word.toList := by
  cases direction <;> decide

namespace SortKey

/-- The words of a key: its path and the word for its direction, if it has one. -/
def words (key : SortKey) : List String :=
  key.path :: (key.direction.map Direction.word).toList

/-- The text of a key has the words of the key. -/
theorem words_text {key : SortKey} (h : key.Readable) : Text.words key.text = key.words := by
  obtain ⟨path, direction⟩ := key
  cases direction with
  | none => exact Text.words_of_isSingleWord h.path
  | some direction =>
    have hwords := Text.words_append Text.isBlank_space path direction.word
    rw [Text.words_of_isSingleWord h.path,
      Text.words_of_isSingleWord direction.isSingleWord_word] at hwords
    exact hwords

/-- The text of a key has no comma. -/
theorem comma_not_mem_text {key : SortKey} (h : key.Readable) : ',' ∉ key.text.toList := by
  obtain ⟨path, direction⟩ := key
  cases direction with
  | none => exact h.noComma
  | some direction =>
    have hblank : ',' ∉ " ".toList := by decide
    simp only [text, String.toList_append, List.mem_append, not_or]
    exact ⟨⟨h.noComma, hblank⟩, direction.comma_not_mem_word⟩

end SortKey

namespace OrderClause

/-- The word for a direction is read as the direction. -/
theorem readDirection_word (path : String) (direction : Direction) :
    readDirection path direction.word = .ok direction := by
  cases direction <;> rfl

/-- A key is read from its words. -/
theorem readKey?_words (key : SortKey) : readKey? key.words = .ok (some key) := by
  obtain ⟨path, direction⟩ := key
  cases direction with
  | none => rfl
  | some direction =>
    simp only [SortKey.words, Option.map_some, Option.toList_some, readKey?, readDirection_word,
      ok_bind]
    rfl

/-- Keys are read from parts that have their words. -/
theorem readKeys_of_words {keys : List SortKey} {parts : List String}
    (h : parts.map Text.words = keys.map SortKey.words) : readKeys parts = .ok keys := by
  induction keys generalizing parts with
  | nil =>
    obtain rfl := List.map_eq_nil_iff.mp h
    rfl
  | cons key keys ih =>
    obtain ⟨part, parts, rfl, hpart, hparts⟩ := List.map_eq_cons_iff.mp h
    rw [readKeys, hpart, readKey?_words, ok_bind, ih hparts]
    rfl

/-- Texts between commas with blanks are texts between commas, of which all but the first begin
with a blank. -/
theorem intercalate_comma_blank (first : String) (rest : List String) :
    String.intercalate ", " (first :: rest) =
      String.intercalate (String.singleton ',') (first :: rest.map (" " ++ ·)) := by
  have hseparator : ", " = String.singleton ',' ++ " " := rfl
  induction rest generalizing first with
  | nil => rfl
  | cons next rest ih =>
    rw [String.intercalate_cons_cons, ih, List.map_cons, String.intercalate_cons_cons,
      String.intercalate_cons_append, hseparator]
    simp only [String.append_assoc]

/-- The text of a clause is cut at its commas into the texts of its keys. -/
theorem pieces_text {key : SortKey} {keys : List SortKey}
    (h : ∀ other ∈ key :: keys, other.Readable) :
    Text.pieces ',' (text ⟨key :: keys⟩) = key.text :: keys.map fun key => " " ++ key.text := by
  have hcut : text ⟨key :: keys⟩ = String.intercalate (String.singleton ',')
      (key.text :: keys.map fun key => " " ++ key.text) := by
    rw [text, List.map_cons, intercalate_comma_blank, List.map_map]
    rfl
  obtain ⟨hkey, hkeys⟩ := List.forall_mem_cons.mp h
  rw [hcut]
  refine Text.pieces_intercalate (List.cons_ne_nil _ _) (List.forall_mem_cons.mpr ⟨?_, ?_⟩)
  · exact SortKey.comma_not_mem_text hkey
  · intro part hpart
    obtain ⟨other, hother, rfl⟩ := List.mem_map.mp hpart
    have hblank : ',' ∉ " ".toList := by decide
    rw [String.toList_append, List.mem_append, not_or]
    exact ⟨hblank, SortKey.comma_not_mem_text (hkeys other hother)⟩

/-- A clause whose keys can be told apart is read from its text. -/
theorem parse_text {clause : OrderClause} (h : clause.Readable) :
    parse clause.text = .ok clause := by
  obtain ⟨keys⟩ := clause
  obtain ⟨key, keys, rfl⟩ := List.exists_cons_of_ne_nil h.nonempty
  have hwords : (Text.pieces ',' (text ⟨key :: keys⟩)).map Text.words =
      (key :: keys).map SortKey.words := by
    obtain ⟨hkey, hkeys⟩ := List.forall_mem_cons.mp h.keys
    rw [pieces_text h.keys, List.map_cons, List.map_cons, List.map_map, SortKey.words_text hkey]
    refine congrArg (key.words :: ·) (List.map_congr_left fun other hother => ?_)
    exact (Text.words_space_append other.text).trans (SortKey.words_text (hkeys other hother))
  rw [parse, readKeys_of_words hwords]
  rfl

/-- A key that is read from words without commas can be told apart in a text. -/
theorem readable_of_readKey? {words : List String} {key : SortKey}
    (hwords : ∀ word ∈ words, Text.IsSingleWord word ∧ ',' ∉ word.toList)
    (h : readKey? words = .ok (some key)) : key.Readable := by
  match words with
  | [] => cases Except.ok.inj h
  | [path] =>
    obtain rfl := Option.some.inj (Except.ok.inj h)
    exact ⟨(hwords path List.mem_cons_self).1, (hwords path List.mem_cons_self).2⟩
  | [path, word] =>
    obtain ⟨direction, _, h⟩ := bind_eq_ok_iff.mp h
    obtain rfl := Option.some.inj (pure_eq_ok_iff.mp h)
    exact ⟨(hwords path List.mem_cons_self).1, (hwords path List.mem_cons_self).2⟩
  | path :: word :: extra :: _ =>
    obtain ⟨_, _, hthird⟩ := bind_eq_ok_iff.mp h
    cases hthird

/-- Keys that are read from parts without commas can be told apart in a text. -/
theorem readable_of_readKeys {parts : List String} {keys : List SortKey}
    (hparts : ∀ part ∈ parts, ',' ∉ part.toList) (h : readKeys parts = .ok keys) :
    ∀ key ∈ keys, key.Readable := by
  induction parts generalizing keys with
  | nil =>
    obtain rfl := Except.ok.inj h
    exact List.forall_mem_nil _
  | cons part parts ih =>
    obtain ⟨hpart, hrest⟩ := List.forall_mem_cons.mp hparts
    obtain ⟨read, hread, h⟩ := bind_eq_ok_iff.mp h
    obtain ⟨others, hothers, h⟩ := bind_eq_ok_iff.mp h
    obtain rfl := pure_eq_ok_iff.mp h
    have hwords : ∀ word ∈ Text.words part, Text.IsSingleWord word ∧ ',' ∉ word.toList :=
      fun word hword => (Text.isSingleWord_of_mem_words hword).imp_right
        fun hmem hcomma => hpart (hmem ',' hcomma)
    intro key hkey
    rcases List.mem_append.mp hkey with hkey | hkey
    · obtain rfl := Option.mem_toList.mp hkey
      exact readable_of_readKey? hwords hread
    · exact ih hrest hothers key hkey

/-- The keys of a clause that was read can be told apart in a text. -/
theorem readable_of_parse {spec : String} {clause : OrderClause} (h : parse spec = .ok clause) :
    clause.Readable := by
  obtain ⟨keys, hkeys, h⟩ := bind_eq_ok_iff.mp h
  split at h
  · cases h
  · next hnonempty =>
    obtain rfl := pure_eq_ok_iff.mp h
    refine ⟨by simpa using hnonempty, readable_of_readKeys (fun part hpart hcomma => ?_) hkeys⟩
    exact (Text.mem_of_mem_pieces hpart ',' hcomma).2 rfl

/-- A clause is read from some text exactly if it has a key and all of its paths are words without
commas. Such a clause is read from its own text, with the same keys in the same order, the same
paths and the same directions. -/
theorem parsed_clause_reads_back (clause : OrderClause) :
    ((∃ spec, parse spec = .ok clause) ↔ clause.Readable) ∧
      ∀ spec, parse spec = .ok clause → parse clause.text = .ok clause := by
  refine ⟨⟨?_, fun h => ⟨clause.text, parse_text h⟩⟩, fun spec h => ?_⟩
  · rintro ⟨spec, h⟩
    exact readable_of_parse h
  · exact parse_text (readable_of_parse h)

/-- Three keys are read from a text with other blanks, empty parts and large letters, and again
from the text of what was read. -/
theorem parsed_clause_reads_back_ages :
    let clause : OrderClause :=
      ⟨[⟨"age", some .descending⟩, ⟨"имя", none⟩, ⟨"asc", some .ascending⟩]⟩
    parse " age\u00a0DESC ,, имя , asc\tAsc" = .ok clause ∧
      clause.text = "age desc, имя, asc asc" ∧
      parse "age desc, имя, asc asc" = .ok clause := by
  intro clause
  have h : parse " age\u00a0DESC ,, имя , asc\tAsc" = .ok clause := by rfl
  have htext : clause.text = "age desc, имя, asc asc" := by rfl
  exact ⟨h, htext, htext ▸ (parsed_clause_reads_back clause).2 _ h⟩

end OrderClause

end EntityQuery
