import EntityQuery.Remote.Request
import Mathlib.Data.List.TakeWhile
import Mathlib.Tactic.Common

/-!
# Reading select and expand lists

An expand list nests: an entry is a name and, in parentheses, a select list and perhaps an expand
list of its own. As no name holds one of the marks between, a name ends at the first mark, a select
list at the first mark other than a comma, and the reader needs to look at one character to know
what follows. So it gives back the selection that was written, whatever stands behind it.
-/

namespace EntityQuery.Remote

/-- The marks that part names and options. -/
def isMark (c : Char) : Bool := c == ',' || c == ';' || c == '(' || c == ')' || c == '='

/-- A name can be told from what stands around it. -/
structure IsName (name : String) : Prop where
  /-- It is not empty. -/
  ne_empty : name ≠ ""
  /-- No mark occurs in it. -/
  unmarked : ∀ c ∈ name.toList, isMark c = false

instance (name : String) : Decidable (IsName name) :=
  decidable_of_iff (name ≠ "" ∧ name.toList.all (!isMark ·) = true)
    ⟨fun ⟨hne, hall⟩ => ⟨hne, by simpa using hall⟩,
      fun ⟨hne, hunmarked⟩ => ⟨hne, by simpa using hunmarked⟩⟩

/-- Read a name, which ends at the first mark. -/
def readName (cs : List Char) : String × List Char :=
  (String.ofList (cs.takeWhile (!isMark ·)), cs.dropWhile (!isMark ·))

/-- Names stand between commas. -/
def isListed (c : Char) : Bool := c == ',' || !isMark c

/-- Read names between commas, up to the first other mark. -/
def readNames (cs : List Char) : List String × List Char :=
  (Text.pieces ',' (String.ofList (cs.takeWhile isListed)), cs.dropWhile isListed)

/-- Pass over the key of an option. -/
def optionValue (cs : List Char) : List Char := (cs.dropWhile (· != '=')).tail

/-- Read the options behind a name, by a reader of the expand list among them. Without options
there is nothing but the identity. -/
def readOptions (readRelated : List Char → Option (List (String × Selection) × List Char)) :
    List Char → Option (Selection × List Char)
  | '(' :: options => do
    let (names, rest) := readNames (optionValue options)
    let (related, rest) ←
      match rest with
      | ';' :: options => readRelated (optionValue options)
      | _ => some ([], rest)
    match rest with
    | ')' :: rest => some (⟨names, related⟩, rest)
    | _ => none
  | cs => some (⟨[], []⟩, cs)

/-- Read the entries of an expand list. The number bounds how many are read in a row or inside of
each other. -/
def readEntries : Nat → List Char → Option (List (String × Selection) × List Char)
  | 0, _ => none
  | bound + 1, cs => do
    let (name, rest) := readName cs
    let (selection, rest) ← readOptions (readEntries bound) rest
    match rest with
    | ',' :: rest =>
      let (others, rest) ← readEntries bound rest
      some ((name, selection) :: others, rest)
    | _ => some ([(name, selection)], rest)

/-- Read the expand list of a request. -/
def readExpand (text : String) : Option (List (String × Selection)) :=
  match readEntries (text.toList.length + 1) text.toList with
  | some (related, []) => some related
  | _ => none

/-- Read the select list and the expand list of a request. A list that is missing is empty. -/
def readLists (select expand : Option String) : Option Selection := do
  let related ← (expand.map readExpand).getD (some [])
  return ⟨(select.map (Text.pieces ',')).getD [], related⟩

/-- What stands behind an entry of an expand list: nothing, the next entry, or the end of the
options that the list is in. -/
def EndsEntry (rest : List Char) : Prop := ∀ c ∈ rest.head?, c = ',' ∨ c = ')'

/-- What stands behind an expand list: nothing, or the end of the options that it is in. -/
def EndsList (rest : List Char) : Prop := ∀ c ∈ rest.head?, c = ')'

theorem EndsList.endsEntry {rest : List Char} (h : EndsList rest) : EndsEntry rest :=
  fun c hc => .inr (h c hc)

/-- A name is read in front of a mark. -/
theorem readName_append {name : String} (h : IsName name) {rest : List Char}
    (hrest : ∀ c ∈ rest.head?, isMark c = true) :
    readName (name.toList ++ rest) = (name, rest) := by
  have hname : ∀ c ∈ name.toList, (!isMark c) = true := fun c hc => by rw [h.unmarked c hc]; rfl
  rw [readName, List.takeWhile_append_of_pos hname, List.dropWhile_append_of_pos hname]
  cases rest with
  | nil => simp
  | cons c rest =>
    have hmark := hrest c rfl
    rw [List.takeWhile_cons_of_neg (by simp [hmark]), List.dropWhile_cons_of_neg (by simp [hmark])]
    simp

/-- Names between commas can be told apart. -/
theorem pieces_intercalate_names {names : List String} (hne : names ≠ [])
    (h : ∀ name ∈ names, IsName name) :
    Text.pieces ',' (String.intercalate "," names) = names :=
  Text.pieces_intercalate hne fun name hname hmem => by cases (h name hname).unmarked ',' hmem

/-- Names between commas are read in front of another mark. -/
theorem readNames_append {names : List String} (hne : names ≠ [])
    (h : ∀ name ∈ names, IsName name) {c : Char} (hc : isListed c = false) (rest : List Char) :
    readNames ((String.intercalate "," names).toList ++ c :: rest) = (names, c :: rest) := by
  have hlisted : ∀ d ∈ (String.intercalate "," names).toList, isListed d = true := by
    intro d hd
    rcases Text.mem_of_mem_intercalate hd with hseparator | ⟨name, hname, hmem⟩
    · rw [List.mem_singleton.mp hseparator]
      rfl
    · rw [isListed, (h name hname).unmarked d hmem]
      simp
  rw [readNames, List.takeWhile_append_of_pos hlisted, List.dropWhile_append_of_pos hlisted,
    List.takeWhile_cons_of_neg (by simp [hc]), List.dropWhile_cons_of_neg (by simp [hc]),
    List.append_nil, String.ofList_toList, pieces_intercalate_names hne h]

/-- The key of an option is passed over. -/
theorem optionValue_append {key : List Char} (h : '=' ∉ key) (rest : List Char) :
    optionValue (key ++ '=' :: rest) = rest := by
  have hkey : ∀ c ∈ key, (c != '=') = true := fun c hc => bne_iff_ne.mpr fun heq => h (heq ▸ hc)
  rw [optionValue, List.dropWhile_append_of_pos hkey, List.dropWhile_cons_of_neg (by simp),
    List.tail_cons]

namespace Selection

variable {paramPrefix : String} {selection : Selection} {related : List (String × Selection)}

/-- A selection whose lists can be read: something is named in it, its names and the names of the
related records can be told apart, and the same is true of the related records unless only their
identity is wanted. -/
inductive Readable : Selection → Prop where
  /-- It is true here and below. -/
  | node {selection : Selection} (named : selection.names ≠ [])
    (names : ∀ name ∈ selection.names, IsName name)
    (related : ∀ entry ∈ selection.related, IsName entry.1)
    (children : ∀ entry ∈ selection.related, entry.2 ≠ ⟨[], []⟩ → Readable entry.2) :
    Readable selection

/-- The options of an entry stand behind its name. -/
theorem entryText_eq_append (name : String) :
    entryText paramPrefix name selection = name ++ entryText paramPrefix "" selection := by
  obtain ⟨names, related⟩ := selection
  cases names <;> cases related <;> simp [entryText, String.append_assoc]

/-- A selection with names is written in parentheses. -/
theorem entryText_of_named (h : selection.names ≠ []) :
    entryText paramPrefix "" selection =
      "(" ++ optionsText paramPrefix selection.selectText (selection.expandText paramPrefix) ++
        ")" := by
  obtain ⟨names, related⟩ := selection
  cases names with
  | nil => exact absurd rfl h
  | cons name names => simp [entryText, selectText, expandText]

/-- The options behind a name are read back in front of whatever may stand behind an entry. -/
def ReadsBack (paramPrefix : String) (selection : Selection) : Prop :=
  ∀ bound rest, (entryText paramPrefix "" selection).toList.length ≤ bound → EndsEntry rest →
    readOptions (readEntries bound) ((entryText paramPrefix "" selection).toList ++ rest) =
      some (selection, rest)

/-- Without options there is nothing but the identity. -/
theorem readsBack_nil : ReadsBack paramPrefix ⟨[], []⟩ := by
  intro bound rest _ hrest
  have htext : (entryText paramPrefix "" ⟨[], []⟩).toList ++ rest = rest := rfl
  rw [htext]
  cases rest with
  | nil => rfl
  | cons c rest =>
    rcases hrest c rfl with rfl | rfl <;> rfl

/-- It is enough that options are read back if there are any. -/
theorem readsBack_of_options (h : selection ≠ ⟨[], []⟩ → ReadsBack paramPrefix selection) :
    ReadsBack paramPrefix selection := by
  by_cases halone : selection = ⟨[], []⟩
  · rw [halone]
    exact readsBack_nil
  · exact h halone

/-- Behind a name stands a mark. -/
theorem isMark_of_mem_head? {rest : List Char} (hrest : EndsEntry rest) :
    ∀ c ∈ ((entryText paramPrefix "" selection).toList ++ rest).head?, isMark c = true := by
  obtain ⟨names, related⟩ := selection
  intro c hc
  by_cases halone : names = [] ∧ related = []
  · obtain ⟨rfl, rfl⟩ := halone
    rcases hrest c hc with rfl | rfl <;> rfl
  · obtain ⟨options, hopening⟩ :
        ∃ options, (entryText paramPrefix "" ⟨names, related⟩).toList = '(' :: options := by
      cases names <;> cases related <;> simp_all [entryText]
    rw [hopening] at hc
    cases hc
    rfl

/-- The last entry is read. -/
theorem readEntries_last {name : String} (hname : IsName name)
    (hread : ReadsBack paramPrefix selection) {bound : Nat}
    (hbound : (entryText paramPrefix "" selection).toList.length ≤ bound) {rest : List Char}
    (hrest : EndsList rest) :
    readEntries (bound + 1) ((entryText paramPrefix name selection).toList ++ rest) =
      some ([(name, selection)], rest) := by
  have htext : (entryText paramPrefix name selection).toList ++ rest =
      name.toList ++ ((entryText paramPrefix "" selection).toList ++ rest) := by
    rw [entryText_eq_append name, String.toList_append, List.append_assoc]
  rw [htext, readEntries, readName_append hname (isMark_of_mem_head? hrest.endsEntry)]
  simp only [hread bound rest hbound hrest.endsEntry, Option.bind_eq_bind, Option.bind_some]
  cases rest with
  | nil => rfl
  | cons c rest =>
    obtain rfl := hrest c rfl
    rfl

/-- An entry in front of a comma is read, and the others behind it. -/
theorem readEntries_comma {name : String} (hname : IsName name)
    (hread : ReadsBack paramPrefix selection) {bound : Nat}
    (hbound : (entryText paramPrefix "" selection).toList.length ≤ bound) {cs rest : List Char}
    (hothers : readEntries bound cs = some (related, rest)) :
    readEntries (bound + 1) ((entryText paramPrefix name selection).toList ++ ',' :: cs) =
      some ((name, selection) :: related, rest) := by
  have hrest : EndsEntry (',' :: cs) := by
    rintro c ⟨⟩
    exact .inl rfl
  have htext : (entryText paramPrefix name selection).toList ++ ',' :: cs =
      name.toList ++ ((entryText paramPrefix "" selection).toList ++ ',' :: cs) := by
    rw [entryText_eq_append name, String.toList_append, List.append_assoc]
  rw [htext, readEntries, readName_append hname (isMark_of_mem_head? hrest)]
  simp only [hread bound _ hbound hrest, hothers, Option.bind_eq_bind, Option.bind_some]

/-- Entries are read back if their options are. -/
theorem readEntries_entryTexts (hne : related ≠ []) (hnames : ∀ entry ∈ related, IsName entry.1)
    (hchildren : ∀ entry ∈ related, ReadsBack paramPrefix entry.2) {bound : Nat}
    {rest : List Char} (hrest : EndsList rest)
    (hbound : (String.intercalate "," (entryTexts paramPrefix related)).toList.length < bound) :
    readEntries bound
        ((String.intercalate "," (entryTexts paramPrefix related)).toList ++ rest) =
      some (related, rest) := by
  induction related generalizing bound with
  | nil => exact absurd rfl hne
  | cons entry others ih =>
    obtain ⟨name, selection⟩ := entry
    have hname : IsName name := hnames _ List.mem_cons_self
    have hread : ReadsBack paramPrefix selection := hchildren _ List.mem_cons_self
    obtain ⟨bound, rfl⟩ : ∃ less, bound = less + 1 := ⟨bound - 1, by omega⟩
    have hlength : (entryText paramPrefix name selection).toList.length =
        name.toList.length + (entryText paramPrefix "" selection).toList.length := by
      rw [entryText_eq_append name, String.toList_append, List.length_append]
    by_cases hothers : others = []
    · subst hothers
      rw [entryTexts, entryTexts, String.intercalate_singleton] at hbound ⊢
      exact readEntries_last hname hread (by omega) hrest
    · have htexts : entryTexts paramPrefix others ≠ [] := by
        cases others with
        | nil => exact absurd rfl hothers
        | cons other others => simp [entryTexts]
      rw [entryTexts, String.intercalate_cons_of_ne_nil htexts] at hbound ⊢
      simp only [String.toList_append, List.length_append] at hbound
      have hcomma : ",".toList = [','] := rfl
      rw [hcomma, List.length_singleton] at hbound
      have hrestRead : readEntries bound
          ((String.intercalate "," (entryTexts paramPrefix others)).toList ++ rest) =
            some (others, rest) :=
        ih hothers (fun other hother => hnames other (List.mem_cons_of_mem _ hother))
          (fun other hother => hchildren other (List.mem_cons_of_mem _ hother)) (by omega)
      have htext : (entryText paramPrefix name selection ++ "," ++
          String.intercalate "," (entryTexts paramPrefix others)).toList ++ rest =
          (entryText paramPrefix name selection).toList ++
            ',' :: ((String.intercalate "," (entryTexts paramPrefix others)).toList ++ rest) := by
        simp [String.toList_append]
      rw [htext]
      exact readEntries_comma hname hread (by omega) hrestRead

/-- Options in parentheses are read back if the expand list in them is. -/
theorem readOptions_optionsText (hstart : '=' ∉ paramPrefix.toList) (hne : selection.names ≠ [])
    (hnames : ∀ name ∈ selection.names, IsName name) {expand : String}
    {readRelated : List Char → Option (List (String × Selection) × List Char)} {rest : List Char}
    (hnone : expand.isEmpty = true → selection.related = [])
    (hsome : expand.isEmpty = false →
      readRelated (expand.toList ++ ')' :: rest) = some (selection.related, ')' :: rest)) :
    readOptions readRelated
        (("(" ++ optionsText paramPrefix selection.selectText expand ++ ")").toList ++ rest) =
      some (selection, rest) := by
  obtain ⟨names, related⟩ := selection
  have hkey : ∀ key : String, '=' ∉ key.toList → ∀ cs,
      optionValue ((paramPrefix ++ key ++ "=").toList ++ cs) = cs := by
    intro key hmem cs
    have htext : (paramPrefix ++ key ++ "=").toList ++ cs =
        (paramPrefix.toList ++ key.toList) ++ '=' :: cs := by
      simp [String.toList_append]
    rw [htext]
    exact optionValue_append (fun h => (List.mem_append.mp h).elim hstart hmem) cs
  have hselect := hkey "select" (by decide)
  cases hexpand : expand.isEmpty with
  | true =>
    obtain rfl : related = [] := hnone hexpand
    have htext : ("(" ++ optionsText paramPrefix (String.intercalate "," names) expand ++
        ")").toList ++ rest =
        '(' :: ((paramPrefix ++ "select" ++ "=").toList ++
          ((String.intercalate "," names).toList ++ ')' :: rest)) := by
      simp [optionsText, hexpand, String.toList_append]
    rw [selectText, htext, readOptions, hselect, readNames_append hne hnames (by decide)]
    rfl
  | false =>
    have htext : ("(" ++ optionsText paramPrefix (String.intercalate "," names) expand ++
        ")").toList ++ rest =
        '(' :: ((paramPrefix ++ "select" ++ "=").toList ++
          ((String.intercalate "," names).toList ++ ';' ::
            ((paramPrefix ++ "expand" ++ "=").toList ++ (expand.toList ++ ')' :: rest)))) := by
      simp [optionsText, hexpand, String.toList_append]
    rw [selectText, htext, readOptions, hselect, readNames_append hne hnames (by decide)]
    simp only [hkey "expand" (by decide), hsome hexpand, Option.bind_eq_bind, Option.bind_some]

/-- A select list of names has text. -/
theorem isEmpty_selectText (hne : selection.names ≠ [])
    (h : ∀ name ∈ selection.names, IsName name) : selection.selectText.isEmpty = false := by
  obtain ⟨name, names, hnames⟩ := List.exists_cons_of_ne_nil hne
  rw [selectText, hnames]
  exact Text.isEmpty_intercalate_cons (h name (hnames ▸ List.mem_cons_self)).ne_empty names

/-- The expand list of related records that have names has text if there are any. -/
theorem isEmpty_expandText (h : ∀ entry ∈ selection.related, IsName entry.1) :
    (selection.expandText paramPrefix).isEmpty = true ↔ selection.related = [] := by
  obtain ⟨names, related⟩ := selection
  cases related with
  | nil => exact ⟨fun _ => rfl, fun _ => rfl⟩
  | cons entry related =>
    obtain ⟨name, inner⟩ := entry
    have hname : name ≠ "" := (h _ List.mem_cons_self).ne_empty
    have htext : entryText paramPrefix name inner ≠ "" := by
      rw [entryText_eq_append]
      simp [hname]
    rw [expandText, entryTexts, Text.isEmpty_intercalate_cons htext]
    simp

namespace Readable

/-- The options of related records that can be read are read back, if no prefix of the
parameters is taken for the end of a key. -/
theorem readsBack (hstart : '=' ∉ paramPrefix.toList) (h : selection.Readable) :
    ReadsBack paramPrefix selection := by
  induction h with
  | @node selection named names related children ih =>
    intro bound rest hbound hrest
    have hchildren : ∀ entry ∈ selection.related, ReadsBack paramPrefix entry.2 :=
      fun entry hentry => readsBack_of_options (ih entry hentry)
    rw [entryText_of_named named] at hbound ⊢
    refine readOptions_optionsText hstart named names
      (fun hempty => (isEmpty_expandText related).mp hempty) fun hsome => ?_
    have hne : selection.related ≠ [] := fun hnone => by
      rw [(isEmpty_expandText related).mpr hnone] at hsome
      cases hsome
    have hlist : EndsList (')' :: rest) := by
      rintro c ⟨⟩
      rfl
    refine readEntries_entryTexts hne related hchildren hlist ?_
    change (selection.expandText paramPrefix).toList.length < bound
    simp only [optionsText, hsome, Bool.false_eq_true, if_false, String.toList_append,
      List.length_append] at hbound
    have hopening : "(".toList.length = 1 := rfl
    omega

/-- The expand list of a selection that can be read is read back. -/
theorem readExpand_expandText (hstart : '=' ∉ paramPrefix.toList) (h : selection.Readable)
    (hne : selection.related ≠ []) :
    readExpand (selection.expandText paramPrefix) = some selection.related := by
  obtain ⟨_, _, related, children⟩ := h
  have hchildren : ∀ entry ∈ selection.related, ReadsBack paramPrefix entry.2 :=
    fun entry hentry =>
      readsBack_of_options fun hoptions => (children entry hentry hoptions).readsBack hstart
  have hlist : EndsList [] := fun c hc => by cases hc
  have hread := readEntries_entryTexts hne related hchildren hlist (Nat.lt_succ_self _)
  rw [List.append_nil] at hread
  rw [readExpand, expandText, hread]

/-- The lists of a selection that can be read are read back. -/
theorem readLists_texts (hstart : '=' ∉ paramPrefix.toList) (h : selection.Readable) :
    readLists (nonEmpty? selection.selectText) (nonEmpty? (selection.expandText paramPrefix)) =
      some selection := by
  have hread := h.readExpand_expandText hstart
  obtain ⟨named, names, related, _⟩ := h
  have hselect : Text.pieces ',' selection.selectText = selection.names :=
    pieces_intercalate_names named names
  have hrelated : ((nonEmpty? (selection.expandText paramPrefix)).map readExpand).getD (some []) =
      some selection.related := by
    cases hexpand : (selection.expandText paramPrefix).isEmpty with
    | true =>
      rw [nonEmpty?, if_pos hexpand, (isEmpty_expandText related).mp hexpand]
      rfl
    | false =>
      have hne : selection.related ≠ [] := fun hnone => by
        rw [(isEmpty_expandText related).mpr hnone] at hexpand
        cases hexpand
      rw [nonEmpty?, hexpand]
      exact hread hne
  have hnamesRead : ((nonEmpty? selection.selectText).map (Text.pieces ',')).getD [] =
      selection.names := by
    rw [nonEmpty?, isEmpty_selectText named names]
    exact hselect
  rw [readLists, hrelated, hnamesRead]
  cases selection
  rfl

end Readable

end Selection

end EntityQuery.Remote
