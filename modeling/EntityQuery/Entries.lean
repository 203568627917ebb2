/-!
# Finite maps as ordered lists of entries

Records, documents, custom parameters, expanded relationships, models and tables
are all finite maps from names to contents. They are kept as lists of entries in
ascending order of the names by code points, so that equal maps are equal lists
and the order in which a map is written is the order in which it is stored.
-/

namespace EntityQuery

/-- Named contents; canonical when the names ascend strictly. -/
abbrev Entries (α : Type) := List (String × α)

namespace Entries

variable {α β : Type}

/-- The canonical form: every name once, in ascending order. -/
def Ordered (entries : Entries α) : Prop :=
  entries.Pairwise fun a b => a.1 < b.1

/-- The content stored under a name. -/
def get? : Entries α → String → Option α
  | [], _ => none
  | (name, content) :: rest, key => if name = key then some content else get? rest key

/-- A name is present when something is stored under it. -/
def contains (entries : Entries α) (key : String) : Bool :=
  entries.any fun entry => entry.1 == key

/-- Store a content under a name, in place of what was there before. -/
def insert : Entries α → String → α → Entries α
  | [], key, content => [(key, content)]
  | (name, old) :: rest, key, content =>
    if key < name then (key, content) :: (name, old) :: rest
    else if key = name then (key, content) :: rest
    else (name, old) :: insert rest key content

/-- The map of a list of pairs; of several pairs with one name the last one counts. -/
def ofList (pairs : List (String × α)) : Entries α :=
  pairs.foldl (fun entries pair => entries.insert pair.1 pair.2) []

/-- Change every content and keep the names. -/
def mapContents (f : α → β) (entries : Entries α) : Entries β :=
  entries.map fun entry => (entry.1, f entry.2)

@[simp] theorem get?_nil (key : String) : get? ([] : Entries α) key = none := rfl

@[simp] theorem get?_cons_self (key : String) (content : α) (rest : Entries α) :
    get? ((key, content) :: rest) key = some content := by
  simp [get?]

/-- What was just stored is what is found. -/
@[simp] theorem get?_insert_self (entries : Entries α) (key : String) (content : α) :
    (entries.insert key content).get? key = some content := by
  induction entries with
  | nil => simp [insert]
  | cons entry rest ih =>
    obtain ⟨name, old⟩ := entry
    by_cases hlt : key < name
    · simp [insert, hlt]
    · by_cases heq : key = name
      · simp [insert, heq]
      · have hne : name ≠ key := fun h => heq h.symm
        simp [insert, hlt, heq, get?, hne, ih]

/-- Storing under one name leaves every other name alone. -/
theorem get?_insert_of_ne (entries : Entries α) {key other : String} (content : α)
    (hne : other ≠ key) : (entries.insert key content).get? other = entries.get? other := by
  induction entries with
  | nil => simp [insert, get?, Ne.symm hne]
  | cons entry rest ih =>
    obtain ⟨name, old⟩ := entry
    simp only [insert]
    split
    · simp [get?, Ne.symm hne]
    · split
      · next heq => simp [get?, heq ▸ Ne.symm hne, Ne.symm hne]
      · simp [get?, ih]

/-- After storing, every entry is the stored one or was there before. -/
theorem mem_insert {entries : Entries α} {key : String} {content : α} {entry : String × α}
    (h : entry ∈ entries.insert key content) : entry = (key, content) ∨ entry ∈ entries := by
  induction entries with
  | nil => simpa [insert] using h
  | cons head rest ih =>
    obtain ⟨name, old⟩ := head
    simp only [insert] at h
    split at h
    · simpa using h
    · split at h
      · rcases List.mem_cons.1 h with rfl | hrest
        · exact .inl rfl
        · exact .inr (.tail _ hrest)
      · rcases List.mem_cons.1 h with rfl | hrest
        · exact .inr (.head _)
        · exact (ih hrest).imp_right (.tail _)

/-- Storing keeps the canonical form. -/
theorem Ordered.insert {entries : Entries α} (h : entries.Ordered) (key : String) (content : α) :
    (entries.insert key content).Ordered := by
  induction entries with
  | nil => exact List.pairwise_singleton _ _
  | cons head rest ih =>
    obtain ⟨name, old⟩ := head
    obtain ⟨hbefore, hrest⟩ := List.pairwise_cons.1 h
    simp only [Entries.insert]
    split
    · next hlt =>
      refine List.pairwise_cons.2 ⟨fun entry hmem => ?_, h⟩
      rcases List.mem_cons.1 hmem with rfl | hmem
      · exact hlt
      · exact String.lt_trans hlt (hbefore entry hmem)
    · next hnlt =>
      split
      · next heq => exact List.pairwise_cons.2 ⟨fun entry hmem => heq ▸ hbefore entry hmem, hrest⟩
      · next hne =>
        refine List.pairwise_cons.2 ⟨fun entry hmem => ?_, ih hrest⟩
        rcases mem_insert hmem with rfl | hmem
        · exact Std.lt_of_le_of_ne (String.not_lt.1 hnlt) (Ne.symm hne)
        · exact hbefore entry hmem

/-- The map of a list of pairs is canonical. -/
theorem ordered_ofList (pairs : List (String × α)) : (ofList pairs).Ordered := by
  suffices ∀ entries : Entries α, entries.Ordered →
      Ordered (pairs.foldl (fun entries pair => entries.insert pair.1 pair.2) entries) from
    this [] .nil
  induction pairs with
  | nil => exact fun _ h => h
  | cons pair rest ih => exact fun entries h => ih _ (h.insert pair.1 pair.2)

end Entries

end EntityQuery
