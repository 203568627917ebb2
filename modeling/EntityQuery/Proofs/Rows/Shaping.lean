import EntityQuery.Proofs.Rows.Treatment
import EntityQuery.Proofs.SelectTree.Coverage
import EntityQuery.Rows.Read

/-!
# Reading shaped records

Shaping keeps every wanted field, either as it is or with the records in it shaped in
turn. Along a path that the tree covers, a shaped record reads as the record itself does;
only a list of related records, at the very end of a path, is read with its items shaped.
-/

namespace EntityQuery.Rows

open SelectTree

/-- A field after shaping: as it was, or with the records in it shaped by the tree of its
relationship. -/
def Kept (child? : Option SelectTree) (before after : Option Value) : Prop :=
  after = before ∨ ∃ child, child? = some child ∧ after = before.map (mapRecords (shape child))

/-- Shaping keeps every wanted field and every expanded relationship. -/
theorem kept_shape {tree : SelectTree} (hordered : Entries.Ordered tree.expand) {name : String}
    (hname : name ∈ tree.select ∨ Entries.contains tree.expand name = true) (record : Record) :
    Kept (Entries.get? tree.expand name) (record.get? name) ((shape tree record).get? name) := by
  rw [get?_shape]
  cases htreatment : treatment tree record name with
  | dropped =>
    have hmissing : record.get? name = none := by
      cases hvalue : record.get? name with
      | none => rfl
      | some value =>
        exact absurd htreatment (treatment_ne_dropped hname (Entries.contains_of_get? hvalue))
    rw [hmissing]
    exact .inl rfl
  | copied => exact .inl rfl
  | shaped child => exact .inr ⟨child, get?_expand_of_treatment hordered htreatment, rfl⟩

/-- Shaping never changes the identity of a record. -/
theorem get?_shape_identityField {tree : SelectTree} (htidy : tree.Tidy)
    (hkeeps : tree.KeepsIdentity) (record : Record) :
    (shape tree record).get? identityField = record.get? identityField := by
  rcases kept_shape htidy.ordered (.inl htidy.identity_mem) record with heq | ⟨child, hchild, _⟩
  · exact heq
  · rw [hkeeps] at hchild
    cases hchild

/-- Two values are alike when they are equal, or when the first is a list and the second
is that list with the records in it shaped by the tree at hand. -/
def Alike (node? : Option SelectTree) (before after : Value) : Prop :=
  after = before ∨ ∃ node items, node? = some node ∧ before = .list items ∧
    after = mapRecords (shape node) (.list items)

/-- Where a path goes through a nested record, it reads that record. -/
theorem read_cons {record : Record} {name : String} {rest : List String} (hrest : rest ≠ []) :
    record.read (name :: rest) =
      match record.get? name with
      | some (.record nested) => Record.read nested rest
      | _ => .null := by
  cases rest with
  | nil => exact absurd rfl hrest
  | cons next rest =>
    cases hget : record.get? name with
    | none => simp [Record.read, hget]
    | some value => cases value <;> simp [Record.read, hget]

/-- A shaped record reads like the record itself along every path that the tree covers. -/
theorem alike_read_shape {tree : SelectTree} (htidy : Everywhere Tidy tree)
    (hkeeps : Everywhere KeepsIdentity tree) {path : List String} (hpath : path ≠ [])
    (hcovers : tree.covers path = true) (record : Record) :
    Alike (tree.below? path) (record.read path) ((shape tree record).read path) := by
  induction path generalizing tree record with
  | nil => exact absurd rfl hpath
  | cons name rest ih =>
    by_cases hrest : rest = []
    · subst hrest
      have hselected := (covers_singleton tree name).mp hcovers
      simp only [Record.read]
      rcases kept_shape htidy.here.ordered (.inl hselected) record with heq | ⟨child, hchild, heq⟩
      · rw [heq]
        exact .inl rfl
      · rw [heq]
        cases hvalue : record.get? name with
        | none => exact .inl rfl
        | some value =>
          cases value with
          | record fields =>
            have hidentity := get?_shape_identityField (htidy.child hchild).here
              (hkeeps.child hchild).here fields
            refine .inl ?_
            simp only [Option.map_some, mapRecords, Value.endpoint, hidentity]
          | list items =>
            refine .inr ⟨child, items, ?_, rfl, rfl⟩
            simp [below?, hchild]
          | _ => exact .inl rfl
    · obtain ⟨child, hchild, hcoversRest⟩ := (covers_cons hrest).mp hcovers
      have hexpanded : Entries.contains tree.expand name = true :=
        Entries.contains_of_get? hchild
      rw [read_cons hrest, read_cons hrest]
      rcases kept_shape htidy.here.ordered (.inr hexpanded) record with heq | ⟨other, hother, heq⟩
      · rw [heq]
        exact .inl rfl
      · obtain rfl := Option.some.inj (hchild.symm.trans hother)
        rw [heq]
        cases hvalue : record.get? name with
        | none => exact .inl rfl
        | some value =>
          cases value with
          | record fields =>
            have hbelow : tree.below? (name :: rest) = child.below? rest := by
              simp [below?, hchild]
            rw [hbelow]
            exact ih (htidy.child hchild) (hkeeps.child hchild) hrest hcoversRest fields
          | _ => exact .inl rfl

end EntityQuery.Rows
