import EntityQuery.Entries
import Mathlib.Data.List.Nodup
import Mathlib.Data.List.Sort

/-!
# Looking entries up

In a list with every name once, being stored under a name and being found under it are
the same. Maps that are put together from parts are looked up part by part.
-/

namespace EntityQuery.Entries

variable {α β γ : Type}

/-- What is found under a name is stored under it. -/
theorem mem_of_get? {entries : Entries α} {key : String} {content : α}
    (h : entries.get? key = some content) : (key, content) ∈ entries := by
  induction entries with
  | nil => cases h
  | cons entry rest ih =>
    obtain ⟨name, old⟩ := entry
    by_cases heq : name = key
    · simp only [get?, heq, if_true, Option.some.injEq] at h
      simp [heq, h]
    · simp only [get?, heq, if_false] at h
      exact .tail _ (ih h)

/-- Nothing is found under a name exactly when no entry has it. -/
theorem get?_eq_none_iff {entries : Entries α} {key : String} :
    entries.get? key = none ↔ ∀ entry ∈ entries, entry.1 ≠ key := by
  induction entries with
  | nil => simp
  | cons entry rest ih =>
    obtain ⟨name, old⟩ := entry
    by_cases heq : name = key <;> simp [get?, heq, ih]

/-- A name is present when something is found under it. -/
theorem contains_eq_isSome (entries : Entries α) (key : String) :
    entries.contains key = (entries.get? key).isSome := by
  induction entries with
  | nil => rfl
  | cons entry rest ih =>
    obtain ⟨name, old⟩ := entry
    have hcons : contains ((name, old) :: rest) key =
        (name == key || Entries.contains rest key) := rfl
    rw [hcons, get?]
    by_cases heq : name = key <;> simp [heq, ih]

/-- An entry that is stored is present. -/
theorem contains_of_mem {entries : Entries α} {entry : String × α} (h : entry ∈ entries) :
    entries.contains entry.1 = true :=
  List.any_eq_true.mpr ⟨entry, h, beq_self_eq_true _⟩

/-- A name under which something is found is present. -/
theorem contains_of_get? {entries : Entries α} {key : String} {content : α}
    (h : entries.get? key = some content) : entries.contains key = true :=
  contains_of_mem (mem_of_get? h)

/-- Something is found under a name that is present. -/
theorem exists_get?_of_contains {entries : Entries α} {key : String}
    (h : entries.contains key = true) : ∃ content, entries.get? key = some content := by
  rw [contains_eq_isSome] at h
  exact Option.isSome_iff_exists.mp h

/-- What is stored under a name that occurs once is found under it. -/
theorem get?_of_mem {entries : Entries α} (hnodup : (entries.map Prod.fst).Nodup)
    {entry : String × α} (h : entry ∈ entries) : entries.get? entry.1 = some entry.2 := by
  induction entries with
  | nil => cases h
  | cons head rest ih =>
    obtain ⟨name, old⟩ := head
    simp only [List.map_cons, List.nodup_cons, List.mem_map, not_exists, not_and] at hnodup
    rcases List.mem_cons.mp h with rfl | hrest
    · simp
    · have hne : name ≠ entry.1 := fun heq => hnodup.1 entry hrest heq.symm
      rw [get?, if_neg hne, ih hnodup.2 hrest]

/-- A canonical map has every name once. -/
theorem Ordered.nodup {entries : Entries α} (h : entries.Ordered) :
    (entries.map Prod.fst).Nodup := by
  rw [List.nodup_iff_pairwise_ne, List.pairwise_map]
  refine h.imp fun {a b} hlt => ?_
  intro heq
  rw [heq] at hlt
  exact String.lt_irrefl _ hlt

/-- Canonical maps in which the same is found are the same. -/
theorem Ordered.ext {first second : Entries α} (hfirst : first.Ordered)
    (hsecond : second.Ordered) (h : ∀ key, first.get? key = second.get? key) :
    first = second := by
  have : Std.Irrefl fun a b : String × α => a.1 < b.1 := ⟨fun _ => String.lt_irrefl _⟩
  have : Std.Antisymm fun a b : String × α => a.1 < b.1 :=
    ⟨fun _ _ hab hba => absurd (String.lt_trans hab hba) (String.lt_irrefl _)⟩
  refine List.Pairwise.eq_of_mem_iff hfirst hsecond fun entry => ⟨fun hmem => ?_, fun hmem => ?_⟩
  · exact mem_of_get? ((h entry.1).symm.trans (get?_of_mem hfirst.nodup hmem))
  · exact mem_of_get? ((h entry.1).trans (get?_of_mem hsecond.nodup hmem))

/-- Looking up after storing. -/
theorem get?_insert (entries : Entries α) (key other : String) (content : α) :
    (entries.insert key content).get? other =
      if other = key then some content else entries.get? other := by
  by_cases heq : other = key
  · rw [if_pos heq, heq, get?_insert_self]
  · rw [if_neg heq, get?_insert_of_ne entries content heq]

/-- The first part of a list that has a name decides. -/
theorem get?_append (front back : Entries α) (key : String) :
    get? (front ++ back) key = (front.get? key).or (back.get? key) := by
  induction front with
  | nil => rfl
  | cons entry rest ih =>
    obtain ⟨name, content⟩ := entry
    by_cases heq : name = key
    · simp [get?, heq]
    · simp only [List.cons_append, get?, heq, if_false, ih]

/-- Pairs with different names that are stored one after the other are found, and where none of
them has a name, what was there before is found. -/
theorem get?_foldl_insert {pairs : List (String × α)} (hnodup : (pairs.map Prod.fst).Nodup)
    (entries : Entries α) (key : String) :
    get? (pairs.foldl (fun entries pair => entries.insert pair.1 pair.2) entries) key =
      (get? pairs key).or (entries.get? key) := by
  induction pairs generalizing entries with
  | nil => rfl
  | cons pair rest ih =>
    obtain ⟨name, content⟩ := pair
    simp only [List.map_cons, List.nodup_cons, List.mem_map, not_exists, not_and] at hnodup
    rw [List.foldl_cons, ih hnodup.2, get?_insert]
    by_cases heq : name = key
    · subst heq
      have hrest : get? rest name = none := get?_eq_none_iff.mpr hnodup.1
      simp [hrest]
    · simp [get?, heq, Ne.symm heq]

/-- In a map made of pairs with different names, every pair is found. -/
theorem get?_ofList {pairs : List (String × α)} (hnodup : (pairs.map Prod.fst).Nodup)
    (key : String) : (ofList pairs).get? key = get? pairs key := by
  rw [ofList, get?_foldl_insert hnodup, get?_nil, Option.or_none]

/-- A map made of two lists of pairs has what the second list has under a name, and otherwise
what the first one has. -/
theorem get?_ofList_append {front back : List (String × α)}
    (hfront : (front.map Prod.fst).Nodup) (hback : (back.map Prod.fst).Nodup) (key : String) :
    (ofList (front ++ back)).get? key = (get? back key).or (get? front key) := by
  rw [ofList, List.foldl_append, get?_foldl_insert hback, ← ofList, get?_ofList hfront]

/-- A map has the pairs that it was made of exactly when their names are different. -/
theorem perm_ofList_iff {pairs : List (String × α)} :
    (ofList pairs).Perm pairs ↔ (pairs.map Prod.fst).Nodup := by
  have hnames := (ordered_ofList pairs).nodup
  constructor
  · intro h
    exact (h.map Prod.fst).nodup_iff.mp hnames
  · intro hnodup
    refine (List.perm_ext_iff_of_nodup hnames.of_map hnodup.of_map).mpr fun entry => ?_
    constructor
    · intro hmem
      exact mem_of_get? ((get?_ofList hnodup entry.1).symm.trans (get?_of_mem hnames hmem))
    · intro hmem
      exact mem_of_get? ((get?_ofList hnodup entry.1).trans (get?_of_mem hnodup hmem))

/-- Storing and changing contents can change places. -/
theorem mapContents_insert (f : α → β) (entries : Entries α) (key : String) (content : α) :
    (entries.insert key content).mapContents f =
      (entries.mapContents f).insert key (f content) := by
  induction entries with
  | nil => rfl
  | cons entry rest ih =>
    obtain ⟨name, old⟩ := entry
    have hcons : mapContents f ((name, old) :: rest) = (name, f old) :: mapContents f rest := rfl
    rw [hcons, insert, insert]
    by_cases hlt : key < name
    · rw [if_pos hlt, if_pos hlt]
      rfl
    · by_cases heq : key = name
      · rw [if_neg hlt, if_neg hlt, if_pos heq, if_pos heq]
        rfl
      · rw [if_neg hlt, if_neg hlt, if_neg heq, if_neg heq, ← ih]
        rfl

/-- A map can be made of changed pairs, or changed after it was made. -/
theorem ofList_map (f : α → β) (pairs : List (String × α)) :
    ofList (pairs.map fun pair => (pair.1, f pair.2)) = (ofList pairs).mapContents f := by
  suffices h : ∀ entries : Entries α,
      (pairs.map fun pair => (pair.1, f pair.2)).foldl
          (fun entries pair => entries.insert pair.1 pair.2) (entries.mapContents f) =
        (pairs.foldl (fun entries pair => entries.insert pair.1 pair.2) entries).mapContents f from
    h []
  induction pairs with
  | nil => exact fun _ => rfl
  | cons pair rest ih =>
    intro entries
    rw [List.map_cons, List.foldl_cons, List.foldl_cons, ← ih, mapContents_insert]

/-- Changing contents twice is changing them once by both changes. -/
theorem mapContents_mapContents (g : β → γ) (f : α → β) (entries : Entries α) :
    (entries.mapContents f).mapContents g = entries.mapContents fun content => g (f content) :=
  List.map_map

/-- Two changes agree on a map when they agree on its contents. -/
theorem mapContents_congr {f g : α → β} {entries : Entries α}
    (h : ∀ content ∈ entries.map Prod.snd, f content = g content) :
    entries.mapContents f = entries.mapContents g := by
  refine List.map_congr_left fun entry hentry => ?_
  rw [h entry.2 (List.mem_map_of_mem hentry)]

/-- A change that leaves the contents of a map alone leaves the map alone. -/
theorem mapContents_eq_self {f : α → α} {entries : Entries α}
    (h : ∀ content ∈ entries.map Prod.snd, f content = content) :
    entries.mapContents f = entries :=
  (mapContents_congr h).trans (List.map_id entries)

/-- Changing contents does not change the order of the names. -/
theorem Ordered.mapContents {entries : Entries α} (h : entries.Ordered) (f : α → β) :
    (entries.mapContents f).Ordered :=
  List.pairwise_map.mpr h

/-- Entries whose names are not in another map are found unless that map has the name. -/
theorem get?_filter_not_contains (entries : Entries α) (others : Entries β) (key : String) :
    get? (entries.filter fun entry => !others.contains entry.1) key =
      if others.contains key then none else entries.get? key := by
  induction entries with
  | nil => simp
  | cons entry rest ih =>
    obtain ⟨name, content⟩ := entry
    by_cases heq : name = key
    · subst heq
      cases hname : others.contains name with
      | true => simpa [List.filter_cons, hname] using ih
      | false => simp [hname]
    · cases hname : others.contains name with
      | true => simpa [List.filter_cons, hname, get?, heq] using ih
      | false => simpa [List.filter_cons, hname, get?, heq] using ih

end EntityQuery.Entries
