import EntityQuery.Proofs.Rows.Refetching

/-!
# What shaping leaves of a record

Shaping takes fields away and nothing else: what is left of a record stands where it stood, with
the records in it shaped in turn, and lists keep all of their items in order. A shaped record has
the wanted fields that it had before, whatever fields are written twice, so shaping it once more
by the same tree changes nothing.
-/

namespace EntityQuery

/-- A value is what is left of another one after fields of records in it were taken away. -/
inductive Value.Trimmed : Value → Value → Prop where
  /-- Nothing was taken away. -/
  | whole (value : Value) : Trimmed value value
  /-- Fields of a record were taken away, and the others were trimmed. -/
  | record {left before : Record}
      (present : ∀ {name : String}, Entries.contains left name = true →
        Entries.contains before name = true)
      (fields : ∀ {name : String} {value old : Value}, left.get? name = some value →
        before.get? name = some old → Trimmed value old) :
      Trimmed (.record left) (.record before)
  /-- Every item of a list was trimmed and stayed in its place. -/
  | list {left before : List Value} (items : List.Forall₂ Trimmed left before) :
      Trimmed (.list left) (.list before)

namespace Value.Trimmed

/-- The fields that are left of a record are trimmed. -/
theorem field {left before : Record} (h : Trimmed (.record left) (.record before)) {name : String}
    {value old : Value} (hvalue : left.get? name = some value)
    (hold : before.get? name = some old) : Trimmed value old := by
  cases h with
  | whole =>
    obtain rfl := Option.some.inj (hvalue.symm.trans hold)
    exact .whole value
  | record present fields => exact fields hvalue hold

/-- What is left of a list is a list of what is left of its items. -/
theorem exists_list {value : Value} {items : List Value} (h : Trimmed value (.list items)) :
    ∃ left, value = .list left ∧ List.Forall₂ Trimmed left items := by
  cases h with
  | whole => exact ⟨items, rfl, List.forall₂_same.mpr fun item _ => .whole item⟩
  | @list left _ hitems => exact ⟨left, rfl, hitems⟩

end Value.Trimmed

namespace Rows

open SelectTree Value

/-- Changing the records in a value trims it if changing a record trims the record. -/
theorem trimmed_mapRecords {change : Record → Record}
    (h : ∀ record : Record, Trimmed (.record (change record)) (.record record)) (value : Value) :
    Trimmed (mapRecords change value) value := by
  cases value with
  | record fields => exact h fields
  | list items =>
    refine .list ((List.forall₂_map_left_iff).mpr ?_)
    refine List.forall₂_same.mpr fun item _ => ?_
    cases item with
    | record fields => exact h fields
    | _ => exact .whole _
  | _ => exact .whole _

/-- What a treatment leaves of a field was trimmed if its tree trims records. -/
theorem Treatment.trimmed_apply {treatment : Treatment} {value? : Option Value} {value : Value}
    (h : treatment.apply value? = some value)
    (hshaped : ∀ child, treatment = .shaped child → ∀ record : Record,
      Trimmed (.record (shape child record)) (.record record)) :
    ∃ old, value? = some old ∧ Trimmed value old := by
  cases treatment with
  | dropped => cases h
  | copied => exact ⟨value, h, .whole value⟩
  | shaped child =>
    obtain ⟨old, hold, rfl⟩ := Option.map_eq_some_iff.mp h
    exact ⟨old, hold, trimmed_mapRecords (hshaped child rfl) old⟩

/-- Shaping a record trims it. -/
theorem trimmed_shape (tree : SelectTree) (record : Record) :
    Trimmed (.record (shape tree record)) (.record record) := by
  induction tree using children_induction generalizing record with
  | step tree ih =>
    have hfield : ∀ {name : String} {value : Value}, (shape tree record).get? name = some value →
        ∃ old, record.get? name = some old ∧ Trimmed value old := by
      intro name value hvalue
      rw [get?_shape] at hvalue
      exact Treatment.trimmed_apply hvalue fun child hchild nested =>
        ih _ (mem_expand_of_treatment hchild) nested
    refine .record (fun hname => ?_) fun hvalue hold => ?_
    · obtain ⟨value, hvalue⟩ := Entries.exists_get?_of_contains hname
      obtain ⟨old, hold, _⟩ := hfield hvalue
      exact Entries.contains_of_get? hold
    · obtain ⟨other, hother, htrimmed⟩ := hfield hvalue
      obtain rfl := Option.some.inj (hold.symm.trans hother)
      exact htrimmed

/-- Treating a field twice is treating it once if the tree shapes records once and for all. -/
theorem Treatment.apply_apply_self {treatment : Treatment}
    (h : ∀ child, treatment = .shaped child → ∀ record,
      shape child (shape child record) = shape child record) (value? : Option Value) :
    treatment.apply (treatment.apply value?) = treatment.apply value? := by
  cases treatment with
  | dropped => rfl
  | copied => rfl
  | shaped child =>
    cases value? with
    | none => rfl
    | some value =>
      simp only [apply, Option.map_some, mapRecords_mapRecords, h child rfl]

/-- Shaping a shaped record once more changes nothing. -/
theorem shape_shape_self (tree : SelectTree) (record : Record) :
    shape tree (shape tree record) = shape tree record := by
  induction tree using children_induction generalizing record with
  | step tree ih =>
    refine (ordered_shape _ _).ext (ordered_shape _ _) fun name => ?_
    have htreatedAlike : treatment tree (shape tree record) name = treatment tree record name :=
      treatment_congr (fun entry hentry =>
        contains_shape_of_contains (Entries.contains_of_mem hentry) record) name
    rw [get?_shape, get?_shape, htreatedAlike]
    exact Treatment.apply_apply_self
      (fun child hchild nested => ih _ (mem_expand_of_treatment hchild) nested) _

/-- A relationship writes a field of a record exactly if the field is followed itself or holds the
type of a record that is followed. -/
theorem exists_writes_iff {tree : SelectTree} {record : Record} {name : String}
    (hpresent : Entries.contains record name = true) :
    (∃ entry ∈ tree.expand, Writes record name entry) ↔
      Entries.contains tree.expand name = true ∨
        ∃ entry ∈ tree.expand, Entries.contains record entry.1 = true ∧
          hasDiscriminator entry.2.relationship = true ∧ name = discriminatorField entry.1 := by
  constructor
  · rintro ⟨entry, hentry, howner, rfl | htype⟩
    · exact .inl (Entries.contains_of_mem hentry)
    · exact .inr ⟨entry, hentry, howner, htype⟩
  · rintro (hexpanded | ⟨entry, hentry, howner, htype⟩)
    · obtain ⟨child, hchild⟩ := Entries.exists_get?_of_contains hexpanded
      exact ⟨(name, child), Entries.mem_of_get? hchild, hpresent, .inl rfl⟩
    · exact ⟨entry, hentry, howner, .inr htype⟩

/-- A record is left with the fields that it had and that are wanted as they stand or written with
a relationship. -/
theorem contains_shape_iff {tree : SelectTree} {record : Record} {name : String} :
    Entries.contains (shape tree record) name = true ↔
      Entries.contains record name = true ∧
        ((name ∈ tree.select ∧ Entries.contains tree.expand name = false) ∨
          ∃ entry ∈ tree.expand, Writes record name entry) := by
  have hkept : treatment tree record name ≠ .dropped ↔
      (name ∈ tree.select ∧ Entries.contains tree.expand name = false) ∨
        ∃ entry ∈ tree.expand, Writes record name entry := by
    rw [ne_eq, treatment_eq_dropped_iff, not_and_or, not_not]
    simp
  rw [← hkept, Entries.contains_eq_isSome, Entries.contains_eq_isSome, get?_shape]
  cases treatment tree record name <;> simp [Treatment.apply]

/-- Shaping by a tree is done once and for all, and takes fields away and nothing else. A field
is left if the record has it and it is wanted as it stands, or followed, or holds the type of a
record of a changing type that is followed and that the record has. A list that is followed keeps
its items in number and order. -/
theorem shape_only_trims (tree : SelectTree) (record : Record) :
    shape tree (shape tree record) = shape tree record ∧
    Trimmed (.record (shape tree record)) (.record record) ∧
    (∀ name, Entries.contains (shape tree record) name = true ↔
      Entries.contains record name = true ∧
        ((name ∈ tree.select ∧ Entries.contains tree.expand name = false) ∨
          Entries.contains tree.expand name = true ∨
          ∃ entry ∈ tree.expand, Entries.contains record entry.1 = true ∧
            hasDiscriminator entry.2.relationship = true ∧
            name = discriminatorField entry.1)) ∧
    ∀ name items, Entries.contains tree.expand name = true →
      record.get? name = some (.list items) →
      ∃ left, (shape tree record).get? name = some (.list left) ∧
        left.length = items.length ∧ List.Forall₂ Trimmed left items := by
  have htrimmed := trimmed_shape tree record
  refine ⟨shape_shape_self tree record, htrimmed, fun name => ?_, fun name items hname hitems => ?_⟩
  · rw [contains_shape_iff]
    exact and_congr_right fun hpresent => or_congr_right (exists_writes_iff hpresent)
  · have hkept : Entries.contains (shape tree record) name = true := by
      rw [contains_shape_of_contains hname]
      exact Entries.contains_of_get? hitems
    obtain ⟨value, hvalue⟩ := Entries.exists_get?_of_contains hkept
    obtain ⟨left, rfl, hleft⟩ := (htrimmed.field hvalue hitems).exists_list
    exact ⟨left, hvalue, hleft.length_eq, hleft⟩

/-- A tree of documents with their lines and their owners, who are of changing types. It also
follows the field that holds the type of an owner. -/
def documentTree : SelectTree where
  entityType := "document"
  keyName := "id"
  select := ["id", "owner"]
  expand := [("_owner_type", .root "type" "id"), ("lines", .root "line" "id"),
    ("owner", .root "person" "id" (some ⟨.belongsTo, false, true, false⟩))]
  relationship := none

/-- The lines of a document; not all of them are records. -/
def documentLines : List Value :=
  [.int 7, .record [("id", .int 1), ("price", .int 5)], .null, .record [("price", .int 3)]]

/-- A document with an owner, the type of the owner, lines and a note. -/
def document : Record :=
  [("_owner_type", .record [("id", .string "person"), ("name", .string "Person")]),
    ("lines", .list documentLines), ("note", .string "paid"),
    ("owner", .record [("age", .int 41), ("id", .string "p1")])]

theorem shape_only_trims_document :
    shape documentTree (shape documentTree document) = shape documentTree document ∧
      Trimmed (.record (shape documentTree document)) (.record document) ∧
      Entries.contains (shape documentTree document) "_owner_type" = true ∧
      ¬Entries.contains (shape documentTree document) "note" = true ∧
      Entries.contains documentTree.expand "lines" = true ∧
      document.get? "lines" = some (.list documentLines) ∧
      ∃ left, (shape documentTree document).get? "lines" = some (.list left) ∧
        left.length = 4 ∧ List.Forall₂ Trimmed left documentLines := by
  obtain ⟨htwice, htrimmed, hfields, hlists⟩ := shape_only_trims documentTree document
  refine ⟨htwice, htrimmed, (hfields _).mpr ⟨by decide, .inr (.inl (by decide))⟩,
    fun hnote => ?_, by decide, rfl, hlists "lines" documentLines (by decide) rfl⟩
  obtain ⟨_, hwanted⟩ := (hfields "note").mp hnote
  revert hwanted
  decide

end Rows

end EntityQuery
