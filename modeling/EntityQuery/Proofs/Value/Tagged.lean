import EntityQuery.Proofs.Document.Readings
import EntityQuery.Proofs.Instant.Writing
import EntityQuery.Value.Tagged

/-!
# Tagged values read back

A value whose doubles are finite, whose instants have a written form and whose records are
canonical has a tagged document, and the document reads as the value. The kinds of values name
what is lost without them: a whole number is not taken for a double nor an instant for a text.
-/

namespace EntityQuery

/-- A finite double is equal to itself. -/
theorem Decimal.compareFloats_self {x : Float} (h : Decimal.isFiniteFloat x = true) :
    Decimal.compareFloats x x = some .eq := by
  have hexponent : Decimal.exponentBits x ≠ 2047 := by simpa [Decimal.isFiniteFloat] using h
  obtain ⟨place, hplace⟩ : ∃ place, Decimal.rank x = some place :=
    ⟨_, if_neg fun hundefined => hexponent hundefined.1⟩
  rw [Decimal.compareFloats, hplace]
  exact congrArg some (compare_eq_iff_eq.mpr rfl)

namespace Value

mutual

/-- Everything in a value can be written: its doubles are finite, its instants have a written form
and its records are canonical. -/
def Expressible : Value → Prop
  | null | bool _ | int _ | string _ => True
  | float x => Decimal.isFiniteFloat x = true
  | instant t => t.isExpressible = true
  | list items => ItemsExpressible items
  | record fields => Entries.Ordered fields ∧ FieldsExpressible fields
termination_by structural value => value

/-- Everything in the items of a list can be written. -/
def ItemsExpressible : List Value → Prop
  | [] => True
  | item :: items => item.Expressible ∧ ItemsExpressible items
termination_by structural items => items

/-- Everything in the fields of a record can be written. -/
def FieldsExpressible : List (String × Value) → Prop
  | [] => True
  | (_, value) :: fields => value.Expressible ∧ FieldsExpressible fields
termination_by structural fields => fields

end

/-- A tagged document reads as its content does under its tag, when there is room for its depth. -/
theorem readsAs_tagged {tag : String} {inner : Json} {value : Value}
    {read : Nat → Document → Except String Value}
    (hread : ∀ fuel, inner.depth < fuel → inner.ReadsAs (read fuel) value)
    (hbranch : ∀ fuel document found, document.toTagged "t" "v" tags = .ok (tag, some found) →
      ofTaggedWithin (fuel + 1) document = read fuel found) :
    ∀ fuel, (tagged tag inner).depth < fuel →
      (tagged tag inner).ReadsAs (ofTaggedWithin fuel) value := by
  intro fuel hfuel other hother manner
  obtain ⟨fuel, rfl⟩ := Nat.exists_eq_succ_of_ne_zero (Nat.ne_zero_of_lt hfuel)
  have hdepth : inner.depth < fuel := by
    simp only [tagged, Json.depth, Json.depthMembers] at hfuel
    omega
  have hnames : ["t", "v"].Nodup := by decide
  obtain ⟨found, manner', htagged, hfound⟩ :=
    Document.exists_toTagged "t" tag "v" hother hnames rfl rfl tags manner
  rw [hbranch fuel _ _ htagged]
  exact hread fuel hdepth found hfound manner'

/-- A whole number of 64 bits is read back. -/
theorem readsAs_int (n : Int64) : (Json.int n.toInt).ReadsAs readInt (int n) := by
  rintro _ rfl manner
  have hlow := n.le_toInt
  have hhigh := n.toInt_lt
  have hfits : Json.fitsInt64 n.toInt = true := by
    simp only [Json.fitsInt64, Bool.and_eq_true, decide_eq_true_eq]
    omega
  simp only [readInt, if_pos hfits, Int64.ofInt_toInt]

/-- An instant is read back from its written form. -/
theorem readsAs_instant {t : Instant} {text : String} (h : t.rfc3339? = some text) :
    (Json.string text).ReadsAs readInstant (instant t) := by
  rintro _ rfl _
  simp only [readInstant, Document.toText, ok_bind, Instant.ofRfc3339?_rfc3339? h]
  rfl

mutual

/-- A value that can be written has a tagged document, and reads back from it with any depth that
is allowed for the document: those of items and fields are read with what is left of the depth of
the whole. -/
theorem exists_toTagged? : ∀ (value : Value), value.Expressible →
    ∃ document, value.toTagged? = some document ∧
      ∀ fuel, document.depth < fuel → document.ReadsAs (ofTaggedWithin fuel) value
  | .null, _ => by
    refine ⟨_, rfl, fun fuel hfuel other hother manner => ?_⟩
    obtain ⟨fuel, rfl⟩ := Nat.exists_eq_succ_of_ne_zero (Nat.ne_zero_of_lt hfuel)
    rw [ofTaggedWithin,
      Document.toTagged_bare "t" "Null" "v" hother (List.nodup_singleton "t") rfl rfl]
    rfl
  | .bool b, _ =>
    ⟨_, rfl, readsAs_tagged (fun _ _ => (Document.readsAs_bool b).map bool) fun _ _ _ h => by
      rw [ofTaggedWithin, h]
      rfl⟩
  | .int n, _ =>
    ⟨_, rfl, readsAs_tagged (fun _ _ => readsAs_int n) fun _ _ _ h => by
      rw [ofTaggedWithin, h]
      rfl⟩
  | .float x, hfinite => by
    have hdocument : toTagged? (float x) = some (tagged "Float" (.float x)) := by
      rw [toTagged?, if_pos (show Decimal.isFiniteFloat x = true from hfinite)]
    refine ⟨_, hdocument, readsAs_tagged (fun _ _ => (Document.readsAs_float x).map float)
      fun _ _ _ h => ?_⟩
    rw [ofTaggedWithin, h]
    rfl
  | .string text, _ =>
    ⟨_, rfl, readsAs_tagged (fun _ _ => (Document.readsAs_text text).map string) fun _ _ _ h => by
      rw [ofTaggedWithin, h]
      rfl⟩
  | .instant t, hexpressible => by
    obtain ⟨text, htext⟩ : ∃ text, t.rfc3339? = some text :=
      ⟨_, if_pos (show t.isExpressible = true from hexpressible)⟩
    refine ⟨_, congrArg (Option.map _) htext, readsAs_tagged (fun _ _ => readsAs_instant htext)
      fun _ _ _ h => ?_⟩
    rw [ofTaggedWithin, h]
    rfl
  | .list items, hitems => by
    obtain ⟨documents, hdocuments, hread⟩ := exists_itemsToTagged? items hitems
    refine ⟨_, congrArg (Option.map _) hdocuments, readsAs_tagged
      (fun fuel hfuel => (Document.readsAs_list (hread fuel (Nat.lt_of_succ_lt hfuel))).map list)
      fun _ _ _ h => ?_⟩
    rw [ofTaggedWithin, h]
    rfl
  | .record fields, ⟨hordered, hfields⟩ => by
    obtain ⟨documents, hdocuments, hread⟩ := exists_fieldsToTagged? fields hfields
    refine ⟨_, congrArg (Option.map _) hdocuments, readsAs_tagged
      (fun fuel hfuel => (Document.readsAs_entries hordered
        (hread fuel (Nat.lt_of_succ_lt hfuel))).map record)
      fun _ _ _ h => ?_⟩
    rw [ofTaggedWithin, h]
    rfl

/-- So do the items of a list, one by one. -/
theorem exists_itemsToTagged? : ∀ (items : List Value), ItemsExpressible items →
    ∃ documents, itemsToTagged? items = some documents ∧
      ∀ fuel, Json.depthItems documents < fuel →
        List.Forall₂ (fun document value => document.ReadsAs (ofTaggedWithin fuel) value)
          documents items
  | [], _ => ⟨[], rfl, fun _ _ => .nil⟩
  | item :: items, ⟨hitem, hitems⟩ => by
    obtain ⟨document, hdocument, hread⟩ := exists_toTagged? item hitem
    obtain ⟨documents, hdocuments, hreads⟩ := exists_itemsToTagged? items hitems
    refine ⟨document :: documents, ?_, fun fuel hfuel => ?_⟩
    · rw [itemsToTagged?, hdocument, hdocuments]
      rfl
    · obtain ⟨hfirst, hrest⟩ := Nat.max_lt.mp hfuel
      exact .cons (hread fuel hfirst) (hreads fuel hrest)

/-- So do the fields of a record, one by one. -/
theorem exists_fieldsToTagged? : ∀ (fields : List (String × Value)), FieldsExpressible fields →
    ∃ documents, fieldsToTagged? fields = some documents ∧
      ∀ fuel, Json.depthMembers documents < fuel →
        List.Forall₂ (fun member field => member.1 = field.1 ∧
          member.2.ReadsAs (ofTaggedWithin fuel) field.2) documents fields
  | [], _ => ⟨[], rfl, fun _ _ => .nil⟩
  | (name, value) :: fields, ⟨hvalue, hfields⟩ => by
    obtain ⟨document, hdocument, hread⟩ := exists_toTagged? value hvalue
    obtain ⟨documents, hdocuments, hreads⟩ := exists_fieldsToTagged? fields hfields
    refine ⟨(name, document) :: documents, ?_, fun fuel hfuel => ?_⟩
    · rw [fieldsToTagged?, hdocument, hdocuments]
      rfl
    · obtain ⟨hfirst, hrest⟩ := Nat.max_lt.mp hfuel
      exact .cons ⟨rfl, hread fuel hfirst⟩ (hreads fuel hrest)

end

/-- A value that can be written reads back from its tagged document. -/
theorem exists_readsAs_toTagged? {value : Value} (h : value.Expressible) :
    ∃ document, value.toTagged? = some document ∧ document.ReadsAs ofTaggedDocument value := by
  obtain ⟨document, hdocument, hread⟩ := exists_toTagged? value h
  refine ⟨document, hdocument, fun other hother manner => ?_⟩
  rw [ofTaggedDocument, hother.depth_eq]
  exact hread _ (Nat.lt_succ_self _) other hother manner

mutual

/-- A value that can be written is equal to itself. -/
theorem equal_self : ∀ (value : Value), value.Expressible → value.equal value = true
  | .null, _ => rfl
  | .bool b, _ => beq_self_eq_true b
  | .int n, _ => beq_self_eq_true n
  | .float _, hfinite => beq_iff_eq.mpr (Decimal.compareFloats_self hfinite)
  | .string text, _ => beq_self_eq_true text
  | .instant t, _ => beq_self_eq_true t.nanos
  | .list items, hitems => equalItems_self items hitems
  | .record fields, ⟨_, hfields⟩ => equalFields_self fields hfields

/-- So are items that can be written. -/
theorem equalItems_self : ∀ (items : List Value), ItemsExpressible items →
    equalItems items items = true
  | [], _ => rfl
  | item :: items, ⟨hitem, hitems⟩ =>
    Bool.and_eq_true_iff.mpr ⟨equal_self item hitem, equalItems_self items hitems⟩

/-- So are fields that can be written. -/
theorem equalFields_self : ∀ (fields : List (String × Value)), FieldsExpressible fields →
    equalFields fields fields = true
  | [], _ => rfl
  | (name, value) :: fields, ⟨hvalue, hfields⟩ =>
    Bool.and_eq_true_iff.mpr ⟨Bool.and_eq_true_iff.mpr ⟨beq_self_eq_true name,
      equal_self value hvalue⟩, equalFields_self fields hfields⟩

end

end Value

end EntityQuery
