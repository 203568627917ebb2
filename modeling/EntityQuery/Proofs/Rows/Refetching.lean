import EntityQuery.Proofs.Rows.Treatment
import EntityQuery.Proofs.SelectTree.Within

/-!
# Shaping what was shaped

When a tree lies within another one, a record can be shaped by the outer tree first, as
happens when only what the outer tree wants is fetched, and then by the inner one. This
gives what shaping by the inner tree alone gives, unless the inner tree keeps a field as it
stands in which the outer tree shapes records: then the two agree exactly when these records
have nothing besides what the outer tree wants.
-/

namespace EntityQuery

/-- The records in a value: the value itself, or those in a list. -/
def Value.records : Value → List Record
  | .record fields => [fields]
  | .list items => items.filterMap asRecord?
  | _ => []

namespace Rows

open SelectTree

/-- Changing the records in a value twice is changing them once by both changes. -/
theorem mapRecords_mapRecords (later earlier : Record → Record) (value : Value) :
    mapRecords later (mapRecords earlier value) =
      mapRecords (fun record => later (earlier record)) value := by
  cases value with
  | list items =>
    simp only [mapRecords, List.map_map, Value.list.injEq]
    refine List.map_congr_left fun item _ => ?_
    cases item <;> rfl
  | _ => rfl

/-- Two changes of the records in a value agree when they agree on each of them. -/
theorem mapRecords_eq_iff {first second : Record → Record} {value : Value} :
    mapRecords first value = mapRecords second value ↔
      ∀ record ∈ value.records, first record = second record := by
  cases value with
  | record fields => simp [mapRecords, Value.records]
  | list items =>
    simp only [mapRecords, Value.records, Value.list.injEq, List.map_inj_left,
      List.mem_filterMap, forall_exists_index, and_imp]
    constructor
    · intro h record item hitem hrecord
      cases item with
      | record fields =>
        obtain rfl := Option.some.inj hrecord
        simpa using h _ hitem
      | _ => cases hrecord
    · intro h item hitem
      cases item with
      | record fields => simpa using h fields _ hitem rfl
      | _ => rfl
  | _ => simp [mapRecords, Value.records]

/-- A value whose records do not change does not change. -/
theorem mapRecords_eq_self_iff {change : Record → Record} {value : Value} :
    mapRecords change value = value ↔ ∀ record ∈ value.records, change record = record := by
  have hsame : mapRecords (fun record => record) value = value := by
    cases value with
    | list items =>
      simp only [mapRecords, Value.list.injEq]
      refine List.map_id'' (fun item => ?_) items
      cases item <;> rfl
    | _ => rfl
  rw [← mapRecords_eq_iff, hsame]

/-- A value that is treated twice comes out as it does when it is only treated the second
time, unless the first treatment shapes records that the second one would have kept. -/
theorem Treatment.apply_apply_iff {later earlier : Treatment} {value : Value}
    (hkept : later ≠ .dropped → earlier ≠ .dropped) :
    later.apply (earlier.apply (some value)) = later.apply (some value) ↔
      (∀ beyond : SelectTree, later = .copied → earlier = .shaped beyond →
        ∀ nested ∈ value.records, shape beyond nested = nested) ∧
      ∀ below beyond : SelectTree, later = .shaped below → earlier = .shaped beyond →
        ∀ nested ∈ value.records, shape below (shape beyond nested) = shape below nested := by
  cases later with
  | dropped => simp [apply]
  | copied =>
    cases earlier with
    | dropped => exact absurd rfl (hkept Treatment.noConfusion)
    | copied => simp [apply]
    | shaped beyond => simp [apply, mapRecords_eq_self_iff]
  | shaped below =>
    cases earlier with
    | dropped => exact absurd rfl (hkept Treatment.noConfusion)
    | copied => simp [apply]
    | shaped beyond => simp [apply, mapRecords_mapRecords, mapRecords_eq_iff]

/-- The outer of two trees leaves whole what the inner one keeps as it stands: where it
shapes the records in such a field, they have nothing besides what it wants. Where both
trees shape the records in a field, the same goes for these records. -/
inductive LeavesWhole : SelectTree → SelectTree → Record → Prop where
  /-- It does so in the fields of the record and in the records below. -/
  | node {outer inner : SelectTree} {record : Record}
      (whole : ∀ {name : String} {beyond : SelectTree} {value : Value},
        treatment inner record name = .copied → treatment outer record name = .shaped beyond →
        record.get? name = some value → ∀ nested ∈ value.records, shape beyond nested = nested)
      (below : ∀ {name : String} {beyond below : SelectTree} {value : Value},
        treatment inner record name = .shaped below →
        treatment outer record name = .shaped beyond → record.get? name = some value →
        ∀ nested ∈ value.records, LeavesWhole beyond below nested) :
      LeavesWhole outer inner record

namespace LeavesWhole

variable {outer inner : SelectTree} {record : Record}

theorem whole (h : LeavesWhole outer inner record) {name : String} {beyond : SelectTree}
    {value : Value} (hinner : treatment inner record name = .copied)
    (houter : treatment outer record name = .shaped beyond)
    (hvalue : record.get? name = some value) :
    ∀ nested ∈ value.records, shape beyond nested = nested := by
  cases h with
  | node whole below => exact whole hinner houter hvalue

theorem beneath (h : LeavesWhole outer inner record) {name : String} {beyond below : SelectTree}
    {value : Value} (hinner : treatment inner record name = .shaped below)
    (houter : treatment outer record name = .shaped beyond)
    (hvalue : record.get? name = some value) :
    ∀ nested ∈ value.records, LeavesWhole beyond below nested := by
  cases h with
  | node whole below => exact below hinner houter hvalue

end LeavesWhole

/-- A tree leaves whole what it keeps as it stands itself. -/
theorem leavesWhole_self {tree : SelectTree} (htidy : Everywhere Tidy tree) (record : Record) :
    LeavesWhole tree tree record := by
  induction htidy generalizing record with
  | node here children ih =>
    refine .node ?_ ?_
    · intro name beyond value hcopied hshaped
      rw [hcopied] at hshaped
      cases hshaped
    · intro name beyond below value hbelow hbeyond _ nested _
      obtain rfl := Treatment.shaped.inj (hbelow.symm.trans hbeyond)
      exact ih _ (Entries.mem_of_get? (get?_expand_of_treatment here.ordered hbelow)) nested

section Within

variable {inner outer : SelectTree}

/-- The outer tree keeps every relationship that the inner one follows. -/
theorem contains_shape (hwithin : Within inner outer) {entry : String × SelectTree}
    (hentry : entry ∈ inner.expand) (record : Record) :
    Entries.contains (shape outer record) entry.1 = Entries.contains record entry.1 :=
  contains_shape_of_contains (hwithin.contains_expand (Entries.contains_of_mem hentry)) record

/-- The outer tree leaves out no field of a record that the inner one keeps. -/
theorem treatment_ne_dropped_of_within (hwithin : Within inner outer)
    (hordered : Entries.Ordered inner.expand) {record : Record} {name : String}
    (hpresent : Entries.contains record name = true)
    (hinner : treatment inner record name ≠ .dropped) :
    treatment outer record name ≠ .dropped := by
  rw [ne_eq, treatment_eq_dropped_iff, not_and_or, not_not, not_forall] at hinner
  rcases hinner with ⟨hselected, _⟩ | ⟨⟨head, below⟩, hwrites⟩
  · exact treatment_ne_dropped (.inl (hwithin.select hselected)) hpresent
  · rw [Classical.not_imp, not_not] at hwrites
    obtain ⟨hmem, hhead, hname⟩ := hwrites
    obtain ⟨beyond, hbeyond, hflags, _⟩ :=
      hwithin.exists_child (Entries.get?_of_mem hordered.nodup hmem)
    intro hdropped
    refine (treatment_eq_dropped_iff.mp hdropped).2 _ (Entries.mem_of_get? hbeyond) ⟨hhead, ?_⟩
    rwa [← hflags]

/-- A field of a record that was shaped by both trees was treated by one after the other. -/
theorem get?_shape_shape (hwithin : Within inner outer) (record : Record) (name : String) :
    (shape inner (shape outer record)).get? name =
      (treatment inner record name).apply
        ((treatment outer record name).apply (record.get? name)) := by
  have hsame := treatment_congr (fun entry hentry => contains_shape hwithin hentry record) name
  rw [get?_shape, get?_shape, hsame]

/-- Shaping by the outer tree first and then by the inner one is shaping by the inner one
alone exactly if the outer one leaves whole what the inner one keeps as it stands. -/
theorem shape_shape_iff (hwithin : Within inner outer) (hinner : Everywhere Tidy inner)
    (houter : Everywhere Tidy outer) (record : Record) :
    shape inner (shape outer record) = shape inner record ↔ LeavesWhole outer inner record := by
  induction hwithin generalizing record with
  | @node inner outer select expanded sameFlags children ih =>
    have hwithin : Within inner outer := .node select expanded sameFlags children
    have hchildren : ∀ {name : String} {below beyond : SelectTree},
        treatment inner record name = .shaped below →
        treatment outer record name = .shaped beyond → ∀ nested,
        (shape below (shape beyond nested) = shape below nested ↔
          LeavesWhole beyond below nested) := by
      intro name below beyond hbelow hbeyond
      have hget := get?_expand_of_treatment hinner.here.ordered hbelow
      have hgetOuter := get?_expand_of_treatment houter.here.ordered hbeyond
      exact ih hget hgetOuter (hinner.child hget) (houter.child hgetOuter)
    have hfield : ∀ {name : String} {value : Value}, record.get? name = some value →
        treatment inner record name ≠ .dropped → treatment outer record name ≠ .dropped :=
      fun hvalue => treatment_ne_dropped_of_within hwithin hinner.here.ordered
        (Entries.contains_of_get? hvalue)
    constructor
    · intro hsame
      have hkept : ∀ {name : String} {value : Value}, record.get? name = some value →
          (treatment inner record name).apply ((treatment outer record name).apply value) =
            (treatment inner record name).apply value := by
        intro name value hvalue
        rw [← hvalue, ← get?_shape_shape hwithin, hsame, get?_shape]
      refine .node ?_ ?_
      · intro name beyond value hcopied hshaped hvalue
        exact ((Treatment.apply_apply_iff (hfield hvalue)).mp (hkept hvalue)).1 _ hcopied hshaped
      · intro name beyond below value hbelow hbeyond hvalue nested hnested
        have hrecords := ((Treatment.apply_apply_iff (hfield hvalue)).mp (hkept hvalue)).2
        exact (hchildren hbelow hbeyond nested).mp (hrecords _ _ hbelow hbeyond nested hnested)
    · intro hwhole
      refine (ordered_shape _ _).ext (ordered_shape _ _) fun name => ?_
      rw [get?_shape_shape hwithin, get?_shape]
      cases hvalue : record.get? name with
      | none => simp only [Treatment.apply_none]
      | some value =>
        refine (Treatment.apply_apply_iff (hfield hvalue)).mpr ⟨?_, ?_⟩
        · intro beyond hcopied hshaped
          exact hwhole.whole hcopied hshaped hvalue
        · intro below beyond hbelow hbeyond nested hnested
          exact (hchildren hbelow hbeyond nested).mpr
            (hwhole.beneath hbelow hbeyond hvalue nested hnested)

end Within

mutual

/-- A tree itself follows the relationships that it wants and that another one follows, at
every node that both have, and the other one follows none that is named like the field for
the type of a related record. -/
def followsWith : SelectTree → SelectTree → Bool
  | ⟨_, _, select, expand, _⟩, outer =>
    (outer.expand.all fun entry => !select.contains entry.1 || Entries.contains expand entry.1) &&
      childrenFollowWith expand outer.expand
termination_by structural tree => tree

/-- So do the trees of its relationships. -/
def childrenFollowWith : List (String × SelectTree) → List (String × SelectTree) → Bool
  | [], _ => true
  | (name, child) :: rest, others =>
    (!hasDiscriminator child.relationship || !Entries.contains others (discriminatorField name)) &&
      (match Entries.get? others name with
        | some other => followsWith child other
        | none => true) &&
      childrenFollowWith rest others
termination_by structural children => children

end

theorem followsWith_iff {inner outer : SelectTree} :
    followsWith inner outer = true ↔
      (∀ entry ∈ outer.expand, entry.1 ∈ inner.select →
        Entries.contains inner.expand entry.1 = true) ∧
      childrenFollowWith inner.expand outer.expand = true := by
  cases inner
  simp [followsWith, Decidable.imp_iff_not_or]

/-- What holds of all trees of relationships holds of each of them. -/
theorem follows_of_mem_childrenFollowWith {children others : List (String × SelectTree)}
    (h : childrenFollowWith children others = true) {entry : String × SelectTree}
    (hentry : entry ∈ children) :
    (hasDiscriminator entry.2.relationship = true →
        Entries.contains others (discriminatorField entry.1) = false) ∧
      ∀ other, Entries.get? others entry.1 = some other → followsWith entry.2 other = true := by
  induction children with
  | nil => cases hentry
  | cons head rest ih =>
    obtain ⟨name, child⟩ := head
    rw [childrenFollowWith, Bool.and_eq_true, Bool.and_eq_true] at h
    obtain ⟨⟨hdiscriminator, hchild⟩, hrest⟩ := h
    rcases List.mem_cons.mp hentry with rfl | hmem
    · refine ⟨fun htype => by simpa [htype] using hdiscriminator, fun other hother => ?_⟩
      simpa [hother] using hchild
    · exact ih hrest hmem

/-- A field that the inner tree keeps as it stands is not followed by the outer one. -/
theorem contains_expand_of_copied {inner outer : SelectTree}
    (h : followsWith inner outer = true) {record : Record} {name : String}
    (hcopied : treatment inner record name = .copied) :
    Entries.contains outer.expand name = false := by
  obtain ⟨hwanted, hchildren⟩ := followsWith_iff.mp h
  rcases plain_or_type_of_copied hcopied with ⟨hselected, hplain⟩ | ⟨entry, hentry, htype, rfl⟩
  · by_contra hfollowed
    obtain ⟨child, hchild⟩ := Entries.exists_get?_of_contains (Bool.not_eq_false _ ▸ hfollowed)
    have hboth := hwanted _ (Entries.mem_of_get? hchild) hselected
    rw [hplain] at hboth
    cases hboth
  · exact (follows_of_mem_childrenFollowWith hchildren hentry).1 htype

/-- A tree leaves whole whatever a tree keeps that follows with it. -/
theorem leavesWhole_of_followsWith {inner outer : SelectTree} (hinner : Everywhere Tidy inner)
    (houter : Everywhere Tidy outer) (h : followsWith inner outer = true) (record : Record) :
    LeavesWhole outer inner record := by
  induction hinner generalizing outer record with
  | @node inner here children ih =>
    refine .node ?_ ?_
    · intro name beyond value hcopied hshaped
      have hplain := contains_expand_of_copied h hcopied
      rw [Entries.contains_of_get? (get?_expand_of_treatment houter.here.ordered hshaped)] at hplain
      cases hplain
    · intro name beyond below value hbelow hbeyond _ nested _
      have hmem := Entries.mem_of_get? (get?_expand_of_treatment here.ordered hbelow)
      have hget := get?_expand_of_treatment houter.here.ordered hbeyond
      exact ih _ hmem (houter.child hget)
        ((follows_of_mem_childrenFollowWith (followsWith_iff.mp h).2 hmem).2 _ hget) nested

end Rows

end EntityQuery
