import EntityQuery.Document.Forms
import EntityQuery.Proofs.Json.Rearranged
import EntityQuery.Proofs.Outcome

/-!
# What documents read as

A document that was written by a program is read by another one, with the members of its objects
in any order, in place or after it has been set aside. What it reads as is settled part by part:
each reader of a structure, of a list or of a form needs only that the parts which were written
read as the parts that they were written for.
-/

namespace EntityQuery

variable {α : Type}

/-- Reading a document gives a result, in whatever order the members of its objects stand and
however it came to be read. -/
def Json.ReadsAs (content : Json) (read : Document → Except String α) (result : α) : Prop :=
  ∀ other, content.Rearranged other → ∀ manner, read ⟨other, manner⟩ = .ok result

/-- What a reader makes of a result can be made of it after reading. -/
theorem Json.ReadsAs.map {β : Type} {content : Json} {read : Document → Except String α}
    {result : α} (h : content.ReadsAs read result) (f : α → β) :
    content.ReadsAs (fun document => do return f (← read document)) (f result) := by
  intro other hother manner
  simp only [h other hother manner, ok_bind]
  rfl

namespace Document

theorem readsAs_text (text : String) : (Json.string text).ReadsAs toText text := by
  rintro _ rfl _
  rfl

theorem readsAs_bool (b : Bool) : (Json.bool b).ReadsAs toBool b := by
  rintro _ rfl _
  rfl

theorem readsAs_float (x : Float) : (Json.float x).ReadsAs toFloat x := by
  rintro _ rfl _
  rfl

theorem readsAs_name (name : String) : (Json.string name).ReadsAs toName name := by
  rintro _ rfl _
  rfl

theorem readsAs_formName (forms : List String) (name : String) :
    (Json.string name).ReadsAs (toFormName forms) name := by
  rintro _ rfl _
  rfl

/-- A name reads as the value that has it. -/
theorem readsAs_choice {choices : List (String × α)} {name : String} {value : α}
    (h : choices.lookup name = some value) :
    (Json.string name).ReadsAs (toChoice choices) value := by
  rintro _ rfl _
  simp only [toChoice, toName, ok_bind, h]
  rfl

/-- Nothing reads as nothing, where something may be missing. -/
theorem readsAs_none (read : Document → Except String α) :
    Json.null.ReadsAs (toOption read) none := by
  rintro _ rfl _
  rfl

/-- A text reads as itself where it may be missing. -/
theorem readsAs_some_text (text : String) :
    (Json.string text).ReadsAs (toOption toText) (some text) := by
  rintro _ rfl _
  rfl

/-- An array reads as a list when its items read as the items of the list. -/
theorem readsAs_list {read : Document → Except String α} {items : List Json} {results : List α}
    (h : List.Forall₂ (fun item result => item.ReadsAs read result) items results) :
    (Json.array items).ReadsAs (toList read) results := by
  rintro _ ⟨others, rfl, hothers⟩ manner
  show (others.map fun item => (⟨item, manner⟩ : Document)).mapM read = .ok results
  induction h generalizing others with
  | nil =>
    obtain rfl : others = [] := hothers
    rfl
  | cons hitem _ ih =>
    obtain ⟨first, rest, rfl, hfirst, hrest⟩ := hothers
    rw [List.map_cons, mapM_cons_eq_ok_iff]
    exact ⟨_, _, hitem first hfirst manner, ih rest hrest, rfl⟩

/-- An object reads as a map when its members read as the entries of the map: in their own order
they give the entries, and another order in a document only moves them. -/
theorem readsAs_entries {read : Document → Except String α} {members : List (String × Json)}
    {entries : Entries α} (hordered : entries.Ordered)
    (h : List.Forall₂ (fun member entry => member.1 = entry.1 ∧ member.2.ReadsAs read entry.2)
      members entries) : (Json.object members).ReadsAs (toEntries read) entries := by
  rintro _ ⟨inOrder, others, rfl, hperm, hmembers⟩ manner
  have hinOrder : (inOrder.mapM fun member : String × Json => (do
      return (member.1, ← read ⟨member.2, manner⟩) : Except String (String × α))) =
        .ok entries := by
    clear hordered hperm
    induction h generalizing inOrder with
    | nil =>
      obtain rfl : inOrder = [] := hmembers
      rfl
    | cons hmember _ ih =>
      obtain ⟨first, rest, rfl, hfirst, hrest⟩ := hmembers
      rw [mapM_cons_eq_ok_iff]
      refine ⟨_, _, ?_, ih rest hrest, rfl⟩
      rw [hmember.2 first hfirst manner, hmember.1]
      rfl
  obtain ⟨contents, hcontents, hsame⟩ := exists_mapM_of_perm hperm hinOrder
  show (do
    let contents ← others.mapM fun member : String × Json =>
      (do return (member.1, ← read ⟨member.2, manner⟩) : Except String (String × α))
    return Entries.ofList contents) = .ok entries
  rw [hcontents, ok_bind, hordered.ofList_of_perm hsame]
  rfl

/-- The fields of an object are its members, rearranged. -/
structure Fields.Hold (get : Fields) (members : List (String × Json)) : Prop where
  /-- What is written under a name is found there. -/
  found : ∀ name content, Entries.get? members name = some content →
    ∃ other manner, get.find? name = some ⟨other, manner⟩ ∧ content.Rearranged other
  /-- Nothing else is found. -/
  absent : ∀ name, Entries.get? members name = none → get.find? name = none

variable {get : Fields} {members : List (String × Json)} {content : Json}
  {read : Document → Except String α} {result : α}

/-- A field that is written reads as what it was written for. -/
theorem Fields.Hold.required (h : get.Hold members) (name : String)
    (hname : Entries.get? members name = some content) (hread : content.ReadsAs read result) :
    get.required name read = .ok result := by
  obtain ⟨other, manner, hfound, hother⟩ := h.found name content hname
  rw [Fields.required, hfound]
  exact hread other hother manner

/-- So does one that may be missing. -/
theorem Fields.Hold.optional {result : Option α} (h : get.Hold members) (name : String)
    (hname : Entries.get? members name = some content)
    (hread : content.ReadsAs (toOption read) result) : get.optional name read = .ok result := by
  obtain ⟨other, manner, hfound, hother⟩ := h.found name content hname
  rw [Fields.optional, hfound]
  exact hread other hother manner

/-- So does one that has a default. -/
theorem Fields.Hold.withDefault (h : get.Hold members) (name : String)
    (hname : Entries.get? members name = some content) (hread : content.ReadsAs read result)
    (value : α) : get.withDefault name read value = .ok result := by
  obtain ⟨other, manner, hfound, hother⟩ := h.found name content hname
  rw [Fields.withDefault, hfound]
  exact hread other hother manner

/-- A name that occurs once does not occur twice. -/
theorem occursTwice_eq_false (hnodup : (members.map Prod.fst).Nodup) (name : String) :
    occursTwice members name = false := by
  have hcount : members.countP (fun member => member.1 == name) =
      (members.map Prod.fst).count name := by
    rw [List.count, List.countP_map]
    rfl
  have hone := List.nodup_iff_count_le_one.mp hnodup name
  rw [occursTwice, hcount]
  exact decide_eq_false (by omega)

/-- An object with every name once, rearranged, has its members as fields. -/
theorem exists_fields {other : Json} (h : (Json.object members).Rearranged other)
    (hnodup : (members.map Prod.fst).Nodup) (names : List String) (manner : Manner) :
    ∃ get, (⟨other, manner⟩ : Document).fields names = .ok get ∧ get.Hold members := by
  obtain ⟨others, rfl, hothers, hfound, habsent⟩ := h.exists_members hnodup
  have honce : names.find? (occursTwice others) = none :=
    List.find?_eq_none.mpr fun name _ => by simp [occursTwice_eq_false hothers name]
  refine ⟨⟨fun name => (Entries.get? others name).map fun content => ⟨content, manner⟩, false⟩,
    ?_, ?_, ?_⟩
  · simp only [fields, honce]
  · intro name content hcontent
    obtain ⟨other, hother, hsame⟩ := hfound name content hcontent
    exact ⟨other, manner, congrArg (Option.map _) hother, hsame⟩
  · intro name hnone
    exact congrArg (Option.map _) (habsent name hnone)

variable {other inner : Json}

/-- A form that is written with its content beside its name is read so, and the content is found
rearranged. Content that was written before its name is set aside, which changes only its manner. -/
theorem exists_toTagged (tag kind contentName : String)
    (h : (Json.object members).Rearranged other)
    (hnodup : (members.map Prod.fst).Nodup)
    (htag : Entries.get? members tag = some (.string kind))
    (hcontent : Entries.get? members contentName = some inner) (forms : List String)
    (manner : Manner) :
    ∃ found manner', toTagged tag contentName forms ⟨other, manner⟩ =
      .ok (kind, some ⟨found, manner'⟩) ∧ inner.Rearranged found := by
  obtain ⟨get, hget, hhold⟩ := exists_fields h hnodup [tag, contentName] manner
  obtain ⟨found, manner', hfound, hsame⟩ := hhold.found contentName inner hcontent
  obtain ⟨_, others, rfl, _⟩ := h
  have hkind := hhold.required tag htag (readsAs_name kind)
  simp only [toTagged, hget, ok_bind, hkind, hfound]
  split_ifs
  · exact ⟨found, manner'.aside, rfl, hsame⟩
  · exact ⟨found, manner', rfl, hsame⟩

/-- A form that is written without content is read so. -/
theorem toTagged_bare (tag kind contentName : String)
    (h : (Json.object members).Rearranged other)
    (hnodup : (members.map Prod.fst).Nodup)
    (htag : Entries.get? members tag = some (.string kind))
    (hcontent : Entries.get? members contentName = none) (forms : List String)
    (manner : Manner) : toTagged tag contentName forms ⟨other, manner⟩ = .ok (kind, none) := by
  obtain ⟨get, hget, hhold⟩ := exists_fields h hnodup [tag, contentName] manner
  have hnone := hhold.absent contentName hcontent
  obtain ⟨_, others, rfl, _⟩ := h
  have hkind := hhold.required tag htag (readsAs_name kind)
  simp only [toTagged, hget, ok_bind, hkind, hnone]
  split_ifs <;> rfl

/-- A form whose fields stand beside its name is read so. -/
theorem exists_toTaggedFields (tag kind : String)
    (h : (Json.object members).Rearranged other)
    (hnodup : (members.map Prod.fst).Nodup)
    (htag : Entries.get? members tag = some (.string kind)) (forms : List String)
    (manner : Manner) :
    ∃ manner', toTaggedFields tag forms ⟨other, manner⟩ = .ok (kind, ⟨other, manner'⟩) := by
  obtain ⟨get, hget, hhold⟩ := exists_fields h hnodup [tag] manner
  obtain ⟨_, others, rfl, _⟩ := h
  have hkind := hhold.required tag htag (readsAs_formName forms kind)
  refine ⟨manner.aside, ?_⟩
  simp only [toTaggedFields, hget, ok_bind, hkind]
  rfl

end Document

end EntityQuery
