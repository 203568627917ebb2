import EntityQuery.Proofs.SelectTree.Nodes
import EntityQuery.Rows.Shape

/-!
# What shaping does to a field

Shaping leaves a field out, keeps it as it stands, or shapes the records in it. Which of
these it does depends on the tree and on which of the expanded relationships a record has,
not on what is stored in the record. One field may be written twice, as a relationship and
as the type that is stored beside another one; then the later of the two counts.
-/

namespace EntityQuery.Rows

open SelectTree

/-- What shaping does to a field of a record. -/
inductive Treatment where
  /-- The field is left out. -/
  | dropped
  /-- The field is kept as it stands. -/
  | copied
  /-- The records in the field are shaped by a tree. -/
  | shaped (tree : SelectTree)

namespace Treatment

/-- What becomes of a field. -/
def apply : Treatment → Option Value → Option Value
  | dropped, _ => none
  | copied, value? => value?
  | shaped tree, value? => value?.map (mapRecords (shape tree))

/-- What is done to a field once another relationship has been written. -/
def after (record : Record) (name : String) (treatment : Treatment)
    (entry : String × SelectTree) : Treatment :=
  if Entries.contains record entry.1 then
    if hasDiscriminator entry.2.relationship ∧ name = discriminatorField entry.1 then copied
    else if name = entry.1 then shaped entry.2
    else treatment
  else treatment

end Treatment

/-- What a tree does to a field of a record. -/
def treatment (tree : SelectTree) (record : Record) (name : String) : Treatment :=
  tree.expand.foldl (Treatment.after record name)
    (if name ∈ tree.select ∧ Entries.contains tree.expand name = false then .copied
      else .dropped)

/-- A missing field stays missing. -/
@[simp] theorem Treatment.apply_none (treatment : Treatment) : treatment.apply none = none := by
  cases treatment <;> rfl

/-- A field that is not left out stays as present as it was. -/
theorem Treatment.isSome_apply {treatment : Treatment} (h : treatment ≠ .dropped)
    (value? : Option Value) : (treatment.apply value?).isSome = value?.isSome := by
  cases treatment with
  | dropped => exact absurd rfl h
  | copied => rfl
  | shaped tree => simp [Treatment.apply]

/-- Looking up after a field was copied. -/
theorem get?_copyField (source out : Record) (name other : String) :
    (copyField source out name).get? other =
      if other = name then (source.get? name).or (out.get? name) else out.get? other := by
  unfold copyField
  cases hsource : source.get? name with
  | none => by_cases heq : other = name <;> simp [heq]
  | some value => rw [Entries.get?_insert]; simp

/-- Looking up after fields were copied. -/
theorem get?_foldl_copyField (source : Record) (names : List String) (out : Record)
    (name : String) :
    (names.foldl (copyField source) out).get? name =
      if name ∈ names then (source.get? name).or (out.get? name) else out.get? name := by
  induction names generalizing out with
  | nil => rfl
  | cons head names ih =>
    rw [List.foldl_cons, ih, get?_copyField]
    by_cases heq : name = head
    · subst heq
      by_cases hmem : name ∈ names <;> cases source.get? name <;> simp [hmem]
    · by_cases hmem : name ∈ names <;> simp [heq, hmem]

/-- Writing a relationship, and then the type stored beside it, treats a field once more. -/
theorem get?_writeRelated {record out : Record} {name head : String} {child : SelectTree}
    {value : Value} {treatment : Treatment} (hvalue : record.get? head = some value)
    (h : out.get? name = treatment.apply (record.get? name)) :
    Entries.get?
        (if hasDiscriminator child.relationship then
          copyField record (out.insert head (mapRecords (shape child) value))
            (discriminatorField head)
        else out.insert head (mapRecords (shape child) value)) name =
      (treatment.after record name (head, child)).apply (record.get? name) := by
  have hpresent : Entries.contains record head = true := Entries.contains_of_get? hvalue
  have hwritten : Entries.get? (out.insert head (mapRecords (shape child) value)) name =
      (if name = head then Treatment.shaped child else treatment).apply (record.get? name) := by
    rw [Entries.get?_insert]
    by_cases heq : name = head
    · rw [if_pos heq, if_pos heq, heq, hvalue]
      rfl
    · rw [if_neg heq, if_neg heq, h]
  rw [Treatment.after, if_pos hpresent]
  by_cases hdiscriminator : hasDiscriminator child.relationship = true
  · rw [if_pos hdiscriminator, get?_copyField]
    by_cases heq : name = discriminatorField head
    · rw [if_pos heq, if_pos ⟨hdiscriminator, heq⟩, ← heq, hwritten]
      cases record.get? name with
      | none => simp only [Option.none_or, Treatment.apply_none]
      | some stored => rfl
    · rw [if_neg heq, if_neg fun hboth => heq hboth.2, hwritten]
  · rw [if_neg hdiscriminator, if_neg fun hboth => hdiscriminator hboth.1, hwritten]

/-- Writing relationships treats every field as they say, one after another. -/
theorem get?_shapeRelated {record : Record} {name : String}
    (children : List (String × SelectTree)) {out : Record} {treatment : Treatment}
    (h : out.get? name = treatment.apply (record.get? name)) :
    (shapeRelated children record out).get? name =
      (children.foldl (Treatment.after record name) treatment).apply (record.get? name) := by
  induction children generalizing out treatment with
  | nil => exact h
  | cons entry rest ih =>
    obtain ⟨head, child⟩ := entry
    rw [shapeRelated, List.foldl_cons]
    cases hvalue : record.get? head with
    | none =>
      have hmissing : ¬ Entries.contains record head = true := by
        rw [Entries.contains_eq_isSome, hvalue]
        exact Bool.false_ne_true
      refine ih ?_
      rw [h, Treatment.after, if_neg hmissing]
    | some value => exact ih (get?_writeRelated hvalue h)

/-- What is found in a shaped record. -/
theorem get?_shape (tree : SelectTree) (record : Record) (name : String) :
    (shape tree record).get? name = (treatment tree record name).apply (record.get? name) := by
  obtain ⟨entityType, keyName, select, expand, relationship⟩ := tree
  rw [shape]
  refine get?_shapeRelated expand ?_
  rw [get?_foldl_copyField]
  by_cases hplain : name ∈ select ∧ Entries.contains expand name = false
  · simp [hplain, Treatment.apply]
  · have hmem : name ∉ select.filter fun name => !Entries.contains expand name := by
      simpa [List.mem_filter] using hplain
    rw [if_neg hmem, if_neg hplain]
    rfl

/-- Copying a field keeps the canonical form. -/
theorem ordered_copyField {out : Record} (h : out.Ordered) (source : Record) (name : String) :
    (copyField source out name).Ordered := by
  unfold copyField
  cases source.get? name with
  | none => exact h
  | some value => exact h.insert name value

/-- Writing relationships keeps the canonical form. -/
theorem ordered_shapeRelated (children : List (String × SelectTree)) {record out : Record}
    (h : out.Ordered) : (shapeRelated children record out).Ordered := by
  induction children generalizing out with
  | nil => exact h
  | cons entry rest ih =>
    obtain ⟨head, child⟩ := entry
    rw [shapeRelated]
    cases record.get? head with
    | none => exact ih h
    | some value =>
      refine ih ?_
      cases hasDiscriminator child.relationship with
      | false => exact h.insert head _
      | true => exact ordered_copyField (h.insert head _) record _

/-- A shaped record is canonical. -/
theorem ordered_shape (tree : SelectTree) (record : Record) : (shape tree record).Ordered := by
  obtain ⟨entityType, keyName, select, expand, relationship⟩ := tree
  rw [shape]
  refine ordered_shapeRelated expand ?_
  exact List.foldlRecOn _ _ List.Pairwise.nil fun out hout name _ =>
    ordered_copyField hout record name

/-- A relationship that a record has writes a field: its own, or the one for its type. -/
def Writes (record : Record) (name : String) (entry : String × SelectTree) : Prop :=
  Entries.contains record entry.1 = true ∧
    (name = entry.1 ∨
      hasDiscriminator entry.2.relationship = true ∧ name = discriminatorField entry.1)

/-- A field is left out only as long as no relationship writes it. -/
theorem foldl_after_eq_dropped_iff {record : Record} {name : String}
    {children : List (String × SelectTree)} {treatment : Treatment} :
    children.foldl (Treatment.after record name) treatment = .dropped ↔
      treatment = .dropped ∧ ∀ entry ∈ children, ¬ Writes record name entry := by
  induction children generalizing treatment with
  | nil => simp
  | cons entry rest ih =>
    have hafter : treatment.after record name entry = .dropped ↔
        treatment = .dropped ∧ ¬ Writes record name entry := by
      unfold Treatment.after Writes
      grind
    rw [List.foldl_cons, ih, hafter, List.forall_mem_cons, and_assoc]

/-- What is done to a field is what was done before, or what one of the relationships says. -/
theorem foldl_after_cases (record : Record) (name : String)
    (children : List (String × SelectTree)) (treatment : Treatment) :
    children.foldl (Treatment.after record name) treatment = treatment ∨
      ∃ entry ∈ children,
        (hasDiscriminator entry.2.relationship = true ∧ name = discriminatorField entry.1 ∧
          children.foldl (Treatment.after record name) treatment = .copied) ∨
        (name = entry.1 ∧
          children.foldl (Treatment.after record name) treatment = .shaped entry.2) := by
  induction children generalizing treatment with
  | nil => exact .inl rfl
  | cons head rest ih =>
    rw [List.foldl_cons]
    rcases ih (treatment.after record name head) with hafter | ⟨entry, hentry, hsays⟩
    · rw [hafter, Treatment.after]
      split_ifs with hpresent htype hown
      · exact .inr ⟨head, List.mem_cons_self, .inl ⟨htype.1, htype.2, rfl⟩⟩
      · exact .inr ⟨head, List.mem_cons_self, .inr ⟨hown, rfl⟩⟩
      · exact .inl rfl
      · exact .inl rfl
    · exact .inr ⟨entry, List.mem_cons_of_mem head hentry, hsays⟩

/-- A field is left out exactly when it is neither wanted as it stands nor written with a
relationship. -/
theorem treatment_eq_dropped_iff {tree : SelectTree} {record : Record} {name : String} :
    treatment tree record name = .dropped ↔
      ¬ (name ∈ tree.select ∧ Entries.contains tree.expand name = false) ∧
        ∀ entry ∈ tree.expand, ¬ Writes record name entry := by
  rw [treatment, foldl_after_eq_dropped_iff]
  simp

/-- A field is shaped by the tree of its relationship only. -/
theorem mem_expand_of_treatment {tree : SelectTree} {record : Record} {name : String}
    {child : SelectTree} (h : treatment tree record name = .shaped child) :
    (name, child) ∈ tree.expand := by
  unfold treatment at h
  rcases foldl_after_cases record name tree.expand _ with hplain |
    ⟨entry, hentry, ⟨_, _, hcopied⟩ | ⟨rfl, hshaped⟩⟩
  · rw [hplain] at h
    split at h <;> cases h
  · rw [hcopied] at h
    cases h
  · rw [hshaped] at h
    obtain rfl := Treatment.shaped.inj h
    exact hentry

/-- That tree is found under the name of the field. -/
theorem get?_expand_of_treatment {tree : SelectTree} (hordered : Entries.Ordered tree.expand)
    {record : Record} {name : String} {child : SelectTree}
    (h : treatment tree record name = .shaped child) :
    Entries.get? tree.expand name = some child :=
  Entries.get?_of_mem hordered.nodup (mem_expand_of_treatment h)

/-- A field that is kept as it stands is wanted and not followed, or holds the type of a
related record. -/
theorem plain_or_type_of_copied {tree : SelectTree} {record : Record} {name : String}
    (h : treatment tree record name = .copied) :
    (name ∈ tree.select ∧ Entries.contains tree.expand name = false) ∨
      ∃ entry ∈ tree.expand, hasDiscriminator entry.2.relationship = true ∧
        name = discriminatorField entry.1 := by
  unfold treatment at h
  rcases foldl_after_cases record name tree.expand _ with hplain |
    ⟨entry, hentry, ⟨htype, hname, _⟩ | ⟨_, hshaped⟩⟩
  · rw [hplain] at h
    by_contra hneither
    rw [not_or] at hneither
    rw [if_neg hneither.1] at h
    cases h
  · exact .inr ⟨entry, hentry, htype, hname⟩
  · rw [hshaped] at h
    cases h

/-- A wanted field that a record has is not left out. -/
theorem treatment_ne_dropped {tree : SelectTree} {record : Record} {name : String}
    (hname : name ∈ tree.select ∨ Entries.contains tree.expand name = true)
    (hpresent : Entries.contains record name = true) :
    treatment tree record name ≠ .dropped := by
  intro hdropped
  obtain ⟨hplain, hrelated⟩ := treatment_eq_dropped_iff.mp hdropped
  cases hexpanded : Entries.contains tree.expand name with
  | true =>
    obtain ⟨entry, hentry, heq⟩ := List.any_eq_true.mp hexpanded
    have hsame : entry.1 = name := eq_of_beq heq
    exact hrelated entry hentry ⟨hsame ▸ hpresent, .inl hsame.symm⟩
  | false => exact hplain ⟨hname.resolve_right (by simp [hexpanded]), hexpanded⟩

/-- Shaping keeps every relationship that is followed. -/
theorem contains_shape_of_contains {tree : SelectTree} {name : String}
    (hexpanded : Entries.contains tree.expand name = true) (record : Record) :
    Entries.contains (shape tree record) name = Entries.contains record name := by
  rw [Entries.contains_eq_isSome, Entries.contains_eq_isSome, get?_shape]
  cases hvalue : record.get? name with
  | none => simp
  | some value =>
    exact Treatment.isSome_apply
      (treatment_ne_dropped (.inr hexpanded) (Entries.contains_of_get? hvalue)) _

/-- Records that have the same relationships have their fields treated in the same way. -/
theorem treatment_congr {tree : SelectTree} {first second : Record}
    (h : ∀ entry ∈ tree.expand, Entries.contains first entry.1 = Entries.contains second entry.1)
    (name : String) : treatment tree first name = treatment tree second name := by
  refine List.foldl_ext _ _ _ fun current entry hentry => ?_
  rw [Treatment.after, Treatment.after, h entry hentry]

end EntityQuery.Rows
