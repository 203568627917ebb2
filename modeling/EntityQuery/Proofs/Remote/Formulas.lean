import EntityQuery.Proofs.Outcome
import EntityQuery.Proofs.Remote.Scanning
import EntityQuery.Remote.Expression

/-!
# The formulas of filters

Between words that join, a negation, a formula in parentheses and a comparison or a call
are read in the same way whatever blanks stand around them. Operands that are joined by one
word are read as the conjunction or the disjunction of their formulas, and any formula may
be put in parentheses or be negated.
-/

namespace EntityQuery.Remote

/-- The truth of a text, given the truth of its comparisons and calls. -/
abbrev Truth := (String → Bool) → Bool

/-- Items without a word that joins, which read as a formula whatever blanks stand around
them. -/
structure ReadsAs (items : List Item) (formula : Formula) : Prop where
  /-- No item is a word that joins. -/
  unjoined : ∀ item ∈ items, item.isWord "and" = false ∧ item.isWord "or" = false
  /-- They read as the formula. -/
  read : ∀ before after, before.all Item.isBlank = true → after.all Item.isBlank = true →
    readOperand (before ++ items ++ after) = some formula

/-- A text that is an operand of a word that joins, with the given truth. -/
def IsOperand (text : List Char) (truth : Truth) : Prop :=
  ∃ items formula, Scans text items ∧ ReadsAs items formula ∧
    ∀ assignment, formula.eval assignment = truth assignment

/-- A text that is a whole filter, with the given truth. -/
def IsFilter (text : List Char) (truth : Truth) : Prop :=
  ∃ items formula, Scans text items ∧ readDisjunction items = some formula ∧
    ∀ assignment, formula.eval assignment = truth assignment

/-- Blanks are no words. -/
theorem isWord_of_blanks {word : String} {items : List Item}
    (h : items.all Item.isBlank = true) : ∀ item ∈ items, item.isWord word = false := by
  intro item hitem
  have hblank := List.all_eq_true.mp h item hitem
  match item, hblank with
  | .token (.mark c), _ => rfl

/-- Blanks before an operand do not matter. -/
theorem readOperand_append {before : List Item} (h : before.all Item.isBlank = true)
    (items : List Item) : readOperand (before ++ items) = readOperand items := by
  induction before with
  | nil => rfl
  | cons item before ih =>
    rw [List.all_cons, Bool.and_eq_true] at h
    cases item with
    | token content => rw [List.cons_append, readOperand, if_pos h.1, ih h.2]
    | group inside chars => cases h.1

/-- What is read behind any blanks reads as a formula. -/
theorem readsAs_of_readOperand {items : List Item} {formula : Formula}
    (hunjoined : ∀ item ∈ items, item.isWord "and" = false ∧ item.isWord "or" = false)
    (h : ∀ after, after.all Item.isBlank = true → readOperand (items ++ after) = some formula) :
    ReadsAs items formula where
  unjoined := hunjoined
  read before after hbefore hafter := by
    rw [List.append_assoc, readOperand_append hbefore, h after hafter]

/-- Without the word that joins there is one part. -/
theorem readJoined_of_unjoined {word : String} {join : Formula → Formula → Formula}
    {read : List Item → Option Formula} {items : List Item}
    (h : ∀ item ∈ items, item.isWord word = false) :
    readJoined word join read items = read items := by
  rw [readJoined, List.splitOnP_eq_singleton h]
  cases hread : read items <;> simp [hread]

/-- An operand alone is a whole filter. -/
theorem IsOperand.isFilter {text : List Char} {truth : Truth} (h : IsOperand text truth) :
    IsFilter text truth := by
  obtain ⟨items, formula, hscans, hreads, htruth⟩ := h
  refine ⟨items, formula, hscans, ?_, htruth⟩
  rw [readDisjunction, readJoined_of_unjoined fun item hitem => (hreads.unjoined item hitem).2,
    readConjunction, readJoined_of_unjoined fun item hitem => (hreads.unjoined item hitem).1]
  simpa using hreads.read [] [] rfl rfl

/-- Parentheses that read as a formula. -/
theorem readOperand_closed {items : List Item} {formula : Formula}
    (h : readDisjunction items = some formula) {after : List Item}
    (hafter : after.all Item.isBlank = true) :
    readOperand (Item.closed items :: after) = some formula := by
  rw [Item.closed, readOperand, Item.isBlank_group, Item.isWord_group,
    if_neg Bool.false_ne_true, if_neg Bool.false_ne_true, if_pos hafter, h]

/-- A filter in parentheses is an operand. -/
theorem IsFilter.parenthesized {text : List Char} {truth : Truth} (h : IsFilter text truth) :
    IsOperand ('(' :: text ++ [')']) truth := by
  obtain ⟨items, formula, hscans, hread, htruth⟩ := h
  refine ⟨[Item.closed items], formula, hscans.closed, ?_, htruth⟩
  refine readsAs_of_readOperand ?_ fun after hafter => readOperand_closed hread hafter
  intro item hitem
  rw [List.mem_singleton.mp hitem]
  exact ⟨rfl, rfl⟩

/-- A negated filter is an operand. -/
theorem IsFilter.negated {text : List Char} {truth : Truth} (h : IsFilter text truth) :
    IsOperand ("not".toList ++ (' ' :: ('(' :: text ++ [')'])))
      (fun assignment => !truth assignment) := by
  obtain ⟨items, formula, hscans, hread, htruth⟩ := h
  have hword : Scans "not".toList [.token (.word "not".toList)] :=
    scans_word (by decide) (List.all_eq_true.mp (by decide))
  have hrest : Scans (' ' :: ('(' :: text ++ [')'])) [.token (.mark ' '), Item.closed items] :=
    hscans.closed.blank
  refine ⟨_, .not formula, hword.append hrest fun _ _ => ends_blank, ?_, fun assignment => ?_⟩
  · refine readsAs_of_readOperand ?_ fun after hafter => ?_
    · intro item hitem
      simp only [List.cons_append, List.nil_append, List.mem_cons, List.not_mem_nil,
        or_false] at hitem
      rcases hitem with rfl | rfl | rfl
      · decide
      · exact ⟨rfl, rfl⟩
      · exact ⟨rfl, rfl⟩
    · simp only [List.cons_append, List.nil_append]
      rw [readOperand, if_neg (by decide), if_pos (by decide), readOperand, if_pos (by decide),
        readOperand_closed hread hafter]
      rfl
  · rw [Formula.eval, htruth]

/-- Items with one more part behind each of them that begins with a word that joins. -/
def joinedItems (word : String) (members : List (List Item)) : List Item :=
  List.intercalate [.token (.mark ' '), .token (.word word.toList), .token (.mark ' ')] members

/-- Parts that are joined by a word are read apart, in order. -/
theorem mapM_splitOnP_joinedItems {word : String} {read : List Item → Option Formula}
    {members : List (List Item × Formula)} (hne : members ≠ [])
    (hunjoined : ∀ member ∈ members, ∀ item ∈ member.1, item.isWord word = false)
    (hread : ∀ member ∈ members, ∀ before after, before.all Item.isBlank = true →
      after.all Item.isBlank = true → read (before ++ member.1 ++ after) = some member.2)
    {before : List Item} (hbefore : before.all Item.isBlank = true) :
    ((before ++ joinedItems word (members.map Prod.fst)).splitOnP (Item.isWord word)).mapM read =
      some (members.map Prod.snd) := by
  induction members generalizing before with
  | nil => exact absurd rfl hne
  | cons first rest ih =>
    have hfirst := hread first List.mem_cons_self
    cases rest with
    | nil =>
      have hsingle : ∀ item ∈ before ++ first.1, item.isWord word = false := by
        intro item hitem
        exact (List.mem_append.mp hitem).elim (isWord_of_blanks hbefore item)
          (hunjoined first List.mem_cons_self item)
      have hone := hfirst before [] hbefore rfl
      rw [List.append_nil] at hone
      simp only [joinedItems, List.map_cons, List.map_nil, List.intercalate_singleton]
      rw [List.splitOnP_eq_singleton hsingle]
      simp [hone]
    | cons second rest =>
      have hfront : ∀ item ∈ before ++ first.1 ++ [.token (.mark ' ')],
          item.isWord word = false := by
        intro item hitem
        rcases List.mem_append.mp hitem with hitem | hitem
        · exact (List.mem_append.mp hitem).elim (isWord_of_blanks hbefore item)
            (hunjoined first List.mem_cons_self item)
        · rw [List.mem_singleton.mp hitem]
          rfl
      have hback : (([Item.token (.mark ' ')] ++
          joinedItems word ((second :: rest).map Prod.fst)).splitOnP (Item.isWord word)).mapM
            read = some ((second :: rest).map Prod.snd) :=
        ih (List.cons_ne_nil _ _)
          (fun member hmember => hunjoined member (List.mem_cons_of_mem first hmember))
          (fun member hmember => hread member (List.mem_cons_of_mem first hmember)) rfl
      have hsplit : before ++ joinedItems word ((first :: second :: rest).map Prod.fst) =
          (before ++ first.1 ++ [Item.token (.mark ' ')]) ++ Item.token (.word word.toList) ::
            ([Item.token (.mark ' ')] ++ joinedItems word ((second :: rest).map Prod.fst)) := by
        simp only [joinedItems, List.map_cons, List.intercalate_cons_cons]
        simp
      have hword : Item.isWord word (Item.token (.word word.toList)) = true := beq_self_eq_true _
      rw [hsplit, List.splitOnP_append_cons_of_forall_mem hfront _ hword, List.mapM_cons, hback,
        hfirst before [.token (.mark ' ')] hbefore rfl]
      rfl

/-- What is joined by a word is read as its parts, joined in order. -/
theorem readJoined_joinedItems {word : String} {join : Formula → Formula → Formula}
    {read : List Item → Option Formula} {first : List Item × Formula}
    {rest : List (List Item × Formula)}
    (hunjoined : ∀ member ∈ first :: rest, ∀ item ∈ member.1, item.isWord word = false)
    (hread : ∀ member ∈ first :: rest, ∀ before after, before.all Item.isBlank = true →
      after.all Item.isBlank = true → read (before ++ member.1 ++ after) = some member.2) :
    readJoined word join read (joinedItems word ((first :: rest).map Prod.fst)) =
      some ((rest.map Prod.snd).foldl join first.2) := by
  have hparts : (([] ++ joinedItems word ((first :: rest).map Prod.fst)).splitOnP
      (Item.isWord word)).mapM read = some ((first :: rest).map Prod.snd) :=
    mapM_splitOnP_joinedItems (List.cons_ne_nil first rest) hunjoined hread rfl
  rw [List.nil_append] at hparts
  rw [readJoined, hparts]
  rfl

/-- An item of joined parts is an item of a part, a blank or the word that joins. -/
theorem mem_joinedItems {word : String} {members : List (List Item)} {item : Item}
    (h : item ∈ joinedItems word members) :
    (∃ member ∈ members, item ∈ member) ∨ item = .token (.mark ' ') ∨
      item = .token (.word word.toList) := by
  induction members with
  | nil => simp [joinedItems] at h
  | cons first rest ih =>
    cases rest with
    | nil => exact .inl ⟨first, List.mem_cons_self, by simpa [joinedItems] using h⟩
    | cons second rest =>
      rw [joinedItems, List.intercalate_cons_cons, List.mem_append, List.mem_append] at h
      rcases h with (hfirst | hbetween) | hrest
      · exact .inl ⟨first, List.mem_cons_self, hfirst⟩
      · simp only [List.mem_cons, List.not_mem_nil, or_false] at hbetween
        rcases hbetween with rfl | rfl | rfl
        · exact .inr (.inl rfl)
        · exact .inr (.inr rfl)
        · exact .inr (.inl rfl)
      · exact (ih hrest).imp_left fun ⟨member, hmember, hitem⟩ =>
          ⟨member, List.mem_cons_of_mem first hmember, hitem⟩

/-- The formula of a connective on two formulas. -/
def joinOf : Connective → Formula → Formula → Formula
  | .and => .and
  | .or => .or

/-- Joined operands are read as their formulas, joined in order. -/
theorem readDisjunction_joinedItems {connective : Connective} {first : List Item × Formula}
    {rest : List (List Item × Formula)}
    (h : ∀ member ∈ first :: rest, ReadsAs member.1 member.2) :
    readDisjunction (joinedItems connective.name ((first :: rest).map Prod.fst)) =
      some ((rest.map Prod.snd).foldl (joinOf connective) first.2) := by
  cases connective with
  | and =>
    have hnone : ∀ item ∈ joinedItems "and" ((first :: rest).map Prod.fst),
        item.isWord "or" = false := by
      intro item hitem
      rcases mem_joinedItems hitem with ⟨_, hmember, hitem⟩ | rfl | rfl
      · obtain ⟨member, hin, rfl⟩ := List.mem_map.mp hmember
        exact ((h member hin).unjoined item hitem).2
      · rfl
      · decide
    rw [readDisjunction, Connective.name, readJoined_of_unjoined hnone, readConjunction]
    exact readJoined_joinedItems
      (fun member hmember item hitem => ((h member hmember).unjoined item hitem).1)
      (fun member hmember => (h member hmember).read)
  | or =>
    refine readJoined_joinedItems
      (fun member hmember item hitem => ((h member hmember).unjoined item hitem).2)
      (fun member hmember before after hbefore hafter => ?_)
    have hnone : ∀ item ∈ before ++ member.1 ++ after, item.isWord "and" = false := by
      intro item hitem
      rcases List.mem_append.mp hitem with hitem | hitem
      · exact (List.mem_append.mp hitem).elim (isWord_of_blanks hbefore item)
          fun hitem => ((h member hmember).unjoined item hitem).1
      · exact isWord_of_blanks hafter item hitem
    rw [readConjunction, readJoined_of_unjoined hnone]
    exact (h member hmember).read before after hbefore hafter

/-- The verdict of a connective on a list of verdicts. -/
def verdict : Connective → List Bool → Bool
  | .and, verdicts => verdicts.all id
  | .or, verdicts => verdicts.any id

/-- Formulas that were joined in order have the verdict of the connective on theirs. -/
theorem eval_foldl_joinOf (connective : Connective) (assignment : String → Bool)
    (first : Formula) (rest : List Formula) :
    (rest.foldl (joinOf connective) first).eval assignment =
      verdict connective ((first :: rest).map (Formula.eval assignment)) := by
  induction rest generalizing first with
  | nil => cases connective <;> simp [verdict]
  | cons second rest ih =>
    rw [List.foldl_cons, ih]
    cases connective <;>
      simp only [verdict, joinOf, Formula.eval, List.map_cons, List.all_cons, List.any_cons, id,
        Bool.and_assoc, Bool.or_assoc]

/-- Texts that are joined by the word of a connective scan to their items, joined by it. -/
theorem exists_members_of_operands (connective : Connective) {parts : List (List Char × Truth)}
    (hne : parts ≠ []) (h : ∀ part ∈ parts, IsOperand part.1 part.2) :
    ∃ members : List (List Item × Formula), members ≠ [] ∧
      Scans (List.intercalate (' ' :: connective.name.toList ++ [' ']) (parts.map Prod.fst))
        (joinedItems connective.name (members.map Prod.fst)) ∧
      (∀ member ∈ members, ReadsAs member.1 member.2) ∧
      ∀ assignment, members.map (fun member => member.2.eval assignment) =
        parts.map fun part => part.2 assignment := by
  induction parts with
  | nil => exact absurd rfl hne
  | cons first rest ih =>
    obtain ⟨items, formula, hscans, hreads, htruth⟩ := h first List.mem_cons_self
    cases rest with
    | nil =>
      refine ⟨[(items, formula)], List.cons_ne_nil _ _, ?_, ?_, fun assignment => ?_⟩
      · simpa [joinedItems] using hscans
      · intro member hmember
        rw [List.mem_singleton.mp hmember]
        exact hreads
      · simp [htruth]
    | cons second rest =>
      obtain ⟨members, hmembers, hrest, hall, hvalues⟩ := ih (List.cons_ne_nil _ _)
        fun part hpart => h part (List.mem_cons_of_mem first hpart)
      obtain ⟨next, others, rfl⟩ := List.exists_cons_of_ne_nil hmembers
      refine ⟨(items, formula) :: next :: others, List.cons_ne_nil _ _, ?_, ?_,
        fun assignment => ?_⟩
      · have hword : Scans connective.name.toList
            [.token (.word connective.name.toList)] := by
          cases connective <;> exact scans_word (by decide) (List.all_eq_true.mp (by decide))
        have hback := (hword.append hrest.blank fun _ _ => ends_blank).blank
        have hscan := hscans.append hback fun _ _ => ends_blank
        simpa [joinedItems, List.intercalate_cons_cons] using hscan
      · intro member hmember
        rcases List.mem_cons.mp hmember with rfl | hmember
        · exact hreads
        · exact hall member hmember
      · have hrestValues := hvalues assignment
        simp only [List.map_cons] at hrestValues ⊢
        rw [hrestValues, htruth]

/-- Operands that are joined by the word of a connective are a filter with its verdict. -/
theorem isFilter_joined (connective : Connective) {parts : List (List Char × Truth)}
    (hne : parts ≠ []) (h : ∀ part ∈ parts, IsOperand part.1 part.2) :
    IsFilter (List.intercalate (' ' :: connective.name.toList ++ [' ']) (parts.map Prod.fst))
      (fun assignment => verdict connective (parts.map fun part => part.2 assignment)) := by
  obtain ⟨members, hmembers, hscans, hall, hvalues⟩ := exists_members_of_operands connective hne h
  obtain ⟨first, rest, rfl⟩ := List.exists_cons_of_ne_nil hmembers
  refine ⟨_, _, hscans, readDisjunction_joinedItems hall, fun assignment => ?_⟩
  simp only [eval_foldl_joinOf, ← hvalues assignment, List.map_cons, List.map_map]
  rfl

/-- Items that are read as one comparison or call: plain tokens at both ends, and no word
among them that joins or negates. -/
structure IsLeaf (items : List Item) : Prop where
  /-- The first item is a token, but no blank and no negation. -/
  first : ∃ token rest, items = .token token :: rest ∧
    Item.isBlank (.token token) = false ∧ Item.isWord "not" (.token token) = false
  /-- The last item is no blank. -/
  last : ∀ item ∈ items.getLast?, item.isBlank = false
  /-- No item is a word that joins. -/
  unjoined : ∀ item ∈ items, item.isWord "and" = false ∧ item.isWord "or" = false

/-- Blanks behind a comparison or a call do not belong to it. -/
theorem rdropWhile_isBlank {items after : List Item}
    (hlast : ∀ item ∈ items.getLast?, item.isBlank = false)
    (hafter : after.all Item.isBlank = true) :
    (items ++ after).rdropWhile Item.isBlank = items := by
  have hblank : ∀ item ∈ after.reverse, item.isBlank = true :=
    fun item hitem => List.all_eq_true.mp hafter item (List.mem_reverse.mp hitem)
  rw [List.rdropWhile, List.reverse_append, List.dropWhile_append_of_pos hblank]
  refine List.rdropWhile_eq_self_iff.mpr fun hne => ?_
  simp [hlast _ (List.getLast?_eq_some_getLast hne)]

/-- Nothing is dropped where no blank stands behind. -/
theorem rdropWhile_isBlank_self {items : List Item}
    (hlast : ∀ item ∈ items.getLast?, item.isBlank = false) :
    items.rdropWhile Item.isBlank = items := by
  have halone : (items ++ []).rdropWhile Item.isBlank = items := rdropWhile_isBlank hlast rfl
  rwa [List.append_nil] at halone

/-- A comparison or a call is read as such, whatever blanks stand around it. -/
theorem IsLeaf.readsAs {items : List Item} (h : IsLeaf items) : ReadsAs items (readLeaf items) := by
  refine readsAs_of_readOperand h.unjoined fun after hafter => ?_
  have hbehind := rdropWhile_isBlank h.last hafter
  have halone := rdropWhile_isBlank_self h.last
  obtain ⟨token, rest, rfl, hblank, hnot⟩ := h.first
  rw [List.cons_append, readOperand, hblank, hnot, if_neg Bool.false_ne_true,
    if_neg Bool.false_ne_true, ← List.cons_append, readLeaf, readLeaf, hbehind, halone]

/-- The formula of a comparison or a call is its text, unless that is the word of a
constant. -/
theorem IsLeaf.readLeaf_eq {items : List Item} (h : IsLeaf items) {text : String}
    (hchars : items.flatMap Item.chars = text.toList) :
    readLeaf items = if text = "true" then .const true
      else if text = "false" then .const false else .leaf text := by
  have halone := rdropWhile_isBlank_self h.last
  rw [readLeaf, halone, hchars, String.ofList_toList]

/-- A comparison or a call is an operand whose truth is given with its text. -/
theorem isOperand_of_isLeaf {text : String} {items : List Item} (hscans : Scans text.toList items)
    (hchars : items.flatMap Item.chars = text.toList) (hleaf : IsLeaf items)
    (hconst : text ≠ "true" ∧ text ≠ "false") :
    IsOperand text.toList (fun assignment => assignment text) := by
  refine ⟨items, _, hscans, hleaf.readsAs, fun assignment => ?_⟩
  rw [hleaf.readLeaf_eq hchars, if_neg hconst.1, if_neg hconst.2, Formula.eval]

/-- The words of the constants are operands. -/
theorem isOperand_const (verdict : Bool) :
    IsOperand (if verdict then "true" else "false").toList (fun _ => verdict) := by
  have hitems : ∀ text : String, text = "true" ∨ text = "false" →
      IsLeaf [.token (.word text.toList)] ∧ Scans text.toList [.token (.word text.toList)] ∧
        [Item.token (.word text.toList)].flatMap Item.chars = text.toList := by
    rintro text (rfl | rfl)
    all_goals
      refine ⟨⟨⟨_, [], rfl, rfl, by decide⟩, ?_, ?_⟩,
        scans_word (by decide) (List.all_eq_true.mp (by decide)), rfl⟩
      · intro item hitem
        obtain rfl := Option.some.inj hitem
        rfl
      · intro item hitem
        rw [List.mem_singleton.mp hitem]
        decide
  obtain ⟨hleaf, hscans, hchars⟩ :=
    hitems (if verdict then "true" else "false") (by cases verdict <;> simp)
  refine ⟨_, _, hscans, hleaf.readsAs, fun assignment => ?_⟩
  rw [hleaf.readLeaf_eq hchars]
  cases verdict <;> rfl

end EntityQuery.Remote
