import EntityQuery.Proofs.Json.Rearranged
import EntityQuery.Value.Json

/-!
# Values and plain documents

A document whose numbers a value can hold is the document of the value that is read from it, with
the members of its objects in order. A value is read back from its document unless it has an
instant or a number that is not finite in it. Such things become texts and null, which documents
keep, so a value that has been written once is written the same again.
-/

namespace EntityQuery

/-- A property holds of a whole, of its parts, of their parts and so on. -/
inductive Throughout {α : Type} (parts : α → List α) (P : α → Prop) : α → Prop where
  /-- It holds of the whole and throughout its parts. -/
  | node {whole : α} (here : P whole) (below : ∀ part ∈ parts whole, Throughout parts P part) :
      Throughout parts P whole

/-- A property that holds of something without parts holds throughout it. -/
theorem Throughout.leaf {α : Type} {parts : α → List α} {P : α → Prop} {whole : α}
    (here : P whole) (h : parts whole = []) : Throughout parts P whole :=
  .node here (h ▸ List.forall_mem_nil _)

/-- A property that holds of something and throughout its two parts holds throughout it. -/
theorem Throughout.pair {α : Type} {parts : α → List α} {P : α → Prop} {whole first second : α}
    (here : P whole) (h : parts whole = [first, second]) (hfirst : Throughout parts P first)
    (hsecond : Throughout parts P second) : Throughout parts P whole :=
  .node here (h ▸ List.forall_mem_cons.mpr ⟨hfirst, List.forall_mem_singleton.mpr hsecond⟩)

/-- What is made of a whole has a property throughout, if its parts are made of the parts of the
whole and each has the property when the part that it is made of has another one. -/
theorem Throughout.map {α β : Type} {parts : α → List α} {parts' : β → List β} {P : α → Prop}
    {Q : β → Prop} {f : α → β} (hparts : ∀ whole, parts' (f whole) = (parts whole).map f)
    (hnode : ∀ whole, P whole → Q (f whole)) {whole : α} (h : Throughout parts P whole) :
    Throughout parts' Q (f whole) := by
  induction h with
  | node here _ ih =>
    refine .node (hnode _ here) fun part' hpart' => ?_
    rw [hparts] at hpart'
    obtain ⟨part, hpart, rfl⟩ := List.mem_map.mp hpart'
    exact ih part hpart

namespace Json

/-- The documents that a document is made of. -/
def parts : Json → List Json
  | .array items => items
  | .object members => members.map Prod.snd
  | _ => []

/-- A value can hold the number that the document is, if it is one. -/
def NumberFits : Json → Prop
  | .int n => fitsInt64 n = true
  | .float x => Decimal.isFiniteFloat x = true
  | _ => True

/-- The members are in order, if the document is an object. -/
def MembersOrdered : Json → Prop
  | .object members => Entries.Ordered members
  | _ => True

/-- Items are brought into canonical form one by one. -/
theorem canonicalItems_eq_map (items : List Json) : canonicalItems items = items.map canonical := by
  induction items with
  | nil => rfl
  | cons item items ih => rw [canonicalItems, ih, List.map_cons]

/-- So are members. -/
theorem canonicalMembers_eq_mapContents (members : List (String × Json)) :
    canonicalMembers members = Entries.mapContents canonical members := by
  induction members with
  | nil => rfl
  | cons member members ih =>
    obtain ⟨name, document⟩ := member
    rw [canonicalMembers, ih]
    rfl

/-- A document whose members are in order is its own canonical form. -/
theorem canonical_eq_self {document : Json} (h : Throughout parts MembersOrdered document) :
    document.canonical = document := by
  induction h with
  | @node document here _ ih =>
    cases document with
    | array items =>
      rw [canonical, canonicalItems_eq_map]
      exact congrArg Json.array ((List.map_congr_left ih).trans (List.map_id items))
    | object members =>
      rw [canonical, canonicalMembers_eq_mapContents, Entries.mapContents_eq_self ih,
        Entries.Ordered.ofList_of_perm here .rfl]
    | _ => rfl

end Json

namespace Value

/-- The values that a value is made of. -/
def parts : Value → List Value
  | list items => items
  | record fields => fields.map Prod.snd
  | _ => []

/-- A document can tell what the value is: it is no instant and no number that is not finite. -/
def IsPlain : Value → Prop
  | instant _ => False
  | float x => Decimal.isFiniteFloat x = true
  | _ => True

/-- The fields are in order, if the value is a record. -/
def FieldsOrdered : Value → Prop
  | record fields => Entries.Ordered fields
  | _ => True

/-- What holds of a value if it holds of its parts holds of every value. -/
@[elab_as_elim]
theorem parts_induction {P : Value → Prop}
    (step : ∀ value, (∀ part ∈ value.parts, P part) → P value) (value : Value) : P value :=
  step value fun part _ => parts_induction step part
termination_by sizeOf value
decreasing_by
  rename_i hpart
  cases value with
  | list items =>
    have hitem : sizeOf part < sizeOf items := List.sizeOf_lt_of_mem hpart
    simp only [list.sizeOf_spec]
    omega
  | record fields =>
    obtain ⟨⟨name, part⟩, hfield, rfl⟩ := List.mem_map.mp hpart
    have hfields := List.sizeOf_lt_of_mem hfield
    simp only [Prod.mk.sizeOf_spec, record.sizeOf_spec] at hfields ⊢
    omega
  | _ => cases hpart

/-- Items are written one by one. -/
theorem itemsToJson_eq_map (items : List Value) : itemsToJson items = items.map toJson := by
  induction items with
  | nil => rfl
  | cons item items ih => rw [itemsToJson, ih, List.map_cons]

/-- So are fields. -/
theorem fieldsToJson_eq_mapContents (fields : List (String × Value)) :
    fieldsToJson fields = Entries.mapContents toJson fields := by
  induction fields with
  | nil => rfl
  | cons field fields ih =>
    obtain ⟨name, value⟩ := field
    rw [fieldsToJson, ih]
    rfl

/-- Items are read one by one. -/
theorem itemsOfJson_eq_map (items : List Json) : itemsOfJson items = items.map ofJson := by
  induction items with
  | nil => rfl
  | cons item items ih => rw [itemsOfJson, ih, List.map_cons]

/-- So are members. -/
theorem fieldsOfJson_eq_mapContents (members : List (String × Json)) :
    fieldsOfJson members = Entries.mapContents ofJson members := by
  induction members with
  | nil => rfl
  | cons member members ih =>
    obtain ⟨name, document⟩ := member
    rw [fieldsOfJson, ih]
    rfl

/-- A whole number of 64 bits fits 64 bits. -/
theorem fitsInt64_toInt (n : Int64) : Json.fitsInt64 n.toInt = true := by
  have hlow := n.le_toInt
  have hhigh := n.toInt_lt
  simp only [Json.fitsInt64, Bool.and_eq_true, decide_eq_true_eq]
  omega

/-- A whole number that fits is kept as one. -/
theorem toJson_ofInt {n : Int} (h : Json.fitsInt64 n = true) : (ofInt n).toJson = .int n := by
  have hbounds := h
  simp only [Json.fitsInt64, Bool.and_eq_true, decide_eq_true_eq] at hbounds
  rw [ofInt, if_pos h, toJson, Int64.toInt_ofInt_of_le (by omega) (by omega)]

/-- The document of the value of a document is its canonical form, if its numbers fit: reading puts
the members in order, and writing leaves their names as they are. -/
theorem toJson_ofJson {document : Json} (h : Throughout Json.parts Json.NumberFits document) :
    (ofJson document).toJson = document.canonical := by
  induction h with
  | @node document here _ ih =>
    cases document with
    | int n => exact toJson_ofInt here
    | float x => exact if_pos here
    | array items =>
      rw [ofJson, toJson, Json.canonical, itemsOfJson_eq_map, itemsToJson_eq_map,
        Json.canonicalItems_eq_map, List.map_map]
      exact congrArg Json.array (List.map_congr_left ih)
    | object members =>
      rw [ofJson, toJson, Json.canonical, fieldsOfJson_eq_mapContents,
        fieldsToJson_eq_mapContents, Json.canonicalMembers_eq_mapContents]
      refine congrArg Json.object ?_
      calc Entries.mapContents toJson (Entries.ofList (Entries.mapContents ofJson members))
          = Entries.ofList (Entries.mapContents toJson (Entries.mapContents ofJson members)) :=
            (Entries.ofList_map toJson _).symm
        _ = Entries.ofList (Entries.mapContents Json.canonical members) := by
          rw [Entries.mapContents_mapContents, Entries.mapContents_congr ih]
    | _ => rfl

/-- A plain value is read back from its document. -/
theorem ofJson_toJson {value : Value} (hplain : Throughout parts IsPlain value)
    (hordered : Throughout parts FieldsOrdered value) : ofJson value.toJson = value := by
  induction hplain with
  | @node value here _ ih =>
    obtain ⟨hfieldsHere, hfieldsBelow⟩ := hordered
    have hparts : ∀ part ∈ value.parts, ofJson part.toJson = part := fun part hpart =>
      ih part hpart (hfieldsBelow part hpart)
    cases value with
    | int n =>
      rw [toJson, ofJson, ofInt, if_pos (fitsInt64_toInt n), Int64.ofInt_toInt]
    | float x => rw [toJson, if_pos (show Decimal.isFiniteFloat x = true from here), ofJson]
    | instant t => cases here
    | list items =>
      rw [toJson, ofJson, itemsToJson_eq_map, itemsOfJson_eq_map, List.map_map]
      exact congrArg list ((List.map_congr_left hparts).trans (List.map_id items))
    | record fields =>
      rw [toJson, ofJson, fieldsToJson_eq_mapContents, fieldsOfJson_eq_mapContents,
        Entries.mapContents_mapContents, Entries.mapContents_eq_self hparts,
        Entries.Ordered.ofList_of_perm hfieldsHere .rfl]
    | _ => rfl

/-- The document of a double is the double if that is finite, and otherwise null. -/
theorem toJson_float (x : Float) :
    Decimal.isFiniteFloat x = true ∧ (float x).toJson = .float x ∨ (float x).toJson = .null := by
  rw [toJson]
  split
  · next hfinite => exact .inl ⟨hfinite, rfl⟩
  · exact .inr rfl

/-- The document of an instant is its text if it has one, and otherwise null. -/
theorem toJson_instant (t : Instant) :
    (∃ text, (instant t).toJson = .string text) ∨ (instant t).toJson = .null := by
  rw [toJson]
  cases t.rfc3339? with
  | some text => exact .inl ⟨text, rfl⟩
  | none => exact .inr rfl

/-- The parts of the document of a value are the documents of its parts. -/
theorem parts_toJson (value : Value) : value.toJson.parts = value.parts.map toJson := by
  cases value with
  | float x => obtain ⟨_, h⟩ | h := toJson_float x <;> rw [h] <;> rfl
  | instant t => obtain ⟨text, h⟩ | h := toJson_instant t <;> rw [h] <;> rfl
  | list items => exact itemsToJson_eq_map items
  | record fields =>
    rw [toJson, fieldsToJson_eq_mapContents]
    simp only [Json.parts, parts, Entries.mapContents, List.map_map]
    rfl
  | _ => rfl

/-- The numbers in the document of any value fit. -/
theorem numberFits_toJson (value : Value) :
    Throughout Json.parts Json.NumberFits value.toJson := by
  have hnode : ∀ value : Value, True → value.toJson.NumberFits := by
    intro value _
    cases value with
    | int n => exact fitsInt64_toInt n
    | float x =>
      obtain ⟨hfinite, h⟩ | h := toJson_float x <;> rw [h]
      · exact hfinite
      · trivial
    | instant t => obtain ⟨text, h⟩ | h := toJson_instant t <;> rw [h] <;> trivial
    | _ => trivial
  have hall : Throughout parts (fun _ => True) value :=
    parts_induction (fun _ ih => .node trivial ih) value
  exact hall.map parts_toJson hnode

/-- In the document of a value whose fields are in order the members are in order. -/
theorem membersOrdered_toJson {value : Value} (h : Throughout parts FieldsOrdered value) :
    Throughout Json.parts Json.MembersOrdered value.toJson := by
  have hnode : ∀ value : Value, value.FieldsOrdered → value.toJson.MembersOrdered := by
    intro value hfields
    cases value with
    | float x => obtain ⟨_, h⟩ | h := toJson_float x <;> rw [h] <;> trivial
    | instant t => obtain ⟨text, h⟩ | h := toJson_instant t <;> rw [h] <;> trivial
    | record fields =>
      rw [toJson, fieldsToJson_eq_mapContents]
      exact Entries.Ordered.mapContents hfields toJson
    | _ => trivial
  exact h.map parts_toJson hnode

/-- A document whose numbers fit is the document of its value, in canonical form, which is the
document itself if its members are in order. A plain value is the value of its document, as is a
plain record; whole numbers and doubles never have one document. Every value, plain or not, has the
same document again when it has been written and read. -/
theorem documents_keep_values :
    (∀ document : Json, Throughout Json.parts Json.NumberFits document →
      (ofJson document).toJson = document.canonical ∧
      (Throughout Json.parts Json.MembersOrdered document →
        (ofJson document).toJson = document)) ∧
    (∀ value : Value, Throughout parts IsPlain value → Throughout parts FieldsOrdered value →
      ofJson value.toJson = value) ∧
    (∀ fields : Record, Throughout parts IsPlain (.record fields) →
      Throughout parts FieldsOrdered (.record fields) → Record.ofJson fields.toJson = fields) ∧
    (∀ n x, (int n).toJson ≠ (float x).toJson) ∧
    ∀ value : Value, (ofJson value.toJson).toJson = value.toJson.canonical ∧
      (Throughout parts FieldsOrdered value → (ofJson value.toJson).toJson = value.toJson) := by
  refine ⟨fun document hfits => ?_, fun value => ofJson_toJson, fun fields hplain hordered => ?_,
    fun n x => ?_, fun value => ?_⟩
  · have hback := toJson_ofJson hfits
    exact ⟨hback, fun hordered => hback.trans (Json.canonical_eq_self hordered)⟩
  · rw [Record.ofJson, Record.toJson, ofJson_toJson hplain hordered]
    rfl
  · obtain ⟨_, h⟩ | h := toJson_float x <;> rw [h] <;> exact Json.noConfusion
  · have hback := toJson_ofJson (numberFits_toJson value)
    exact ⟨hback, fun hordered =>
      hback.trans (Json.canonical_eq_self (membersOrdered_toJson hordered))⟩

/-- The double that is written 2.0. -/
def twoPointZero : Float := Float.ofBits 0x4000000000000000

/-- An order as a record, with a whole number and a double of the same worth. -/
def boughtOrder : Value :=
  .record [("buyer", .record [("id", .string "e1"), ("name", .null)]),
    ("prices", .list [.int 2, .float twoPointZero])]

/-- The same order as a document, with its members not in order. -/
def writtenOrder : Json :=
  .object [("prices", .array [.int 2, .float twoPointZero]),
    ("buyer", .object [("name", .null), ("id", .string "e1")])]

/-- Two things that cannot be written: a moment on a clock that is a second ahead, and a number
that is none. -/
def unwritable : Value :=
  .record [("due", .instant ⟨0, 1⟩), ("price", .float (Float.ofBits 0x7FF8000000000000))]

/-- The order is the value of its document, whatever the order of the members, and the other record
loses what it has, but only once. -/
theorem documents_keep_values_order :
    Throughout Json.parts Json.NumberFits writtenOrder ∧
      (ofJson writtenOrder).toJson = boughtOrder.toJson ∧
      Throughout parts IsPlain boughtOrder ∧ Throughout parts FieldsOrdered boughtOrder ∧
      ofJson boughtOrder.toJson = boughtOrder ∧ Throughout parts FieldsOrdered unwritable ∧
      unwritable.toJson = .object [("due", .null), ("price", .null)] ∧
      (ofJson unwritable.toJson).toJson = unwritable.toJson := by
  have hfinite : Decimal.isFiniteFloat twoPointZero = true := by decide +kernel
  have hfits : Throughout Json.parts Json.NumberFits writtenOrder :=
    .pair trivial rfl (.pair trivial rfl (.leaf rfl rfl) (.leaf hfinite rfl))
      (.pair trivial rfl (.leaf trivial rfl) (.leaf trivial rfl))
  have hplain : Throughout parts IsPlain boughtOrder :=
    .pair trivial rfl (.pair trivial rfl (.leaf trivial rfl) (.leaf trivial rfl))
      (.pair trivial rfl (.leaf trivial rfl) (.leaf hfinite rfl))
  have hfields {first second : String} {value other : Value} (h : first < second) :
      FieldsOrdered (.record [(first, value), (second, other)]) :=
    List.pairwise_pair.mpr h
  have hordered : Throughout parts FieldsOrdered boughtOrder :=
    .pair (hfields (by decide)) rfl
      (.pair (hfields (by decide)) rfl (.leaf trivial rfl) (.leaf trivial rfl))
      (.pair trivial rfl (.leaf trivial rfl) (.leaf trivial rfl))
  have hunwritable : Throughout parts FieldsOrdered unwritable :=
    .pair (hfields (by decide)) rfl (.leaf trivial rfl) (.leaf trivial rfl)
  obtain ⟨hdocuments, hvalues, _, _, hagain⟩ := documents_keep_values
  refine ⟨hfits, (hdocuments writtenOrder hfits).1, hplain, hordered,
    hvalues boughtOrder hplain hordered, hunwritable, ?_, (hagain unwritable).2 hunwritable⟩
  have hmoment : Instant.rfc3339? ⟨0, 1⟩ = none := by decide +kernel
  have hnumber : Decimal.isFiniteFloat (Float.ofBits 0x7FF8000000000000) = false := by
    decide +kernel
  simp only [unwritable, toJson, fieldsToJson, hmoment, hnumber, Json.ofString?,
    Bool.false_eq_true, if_false]

end Value

end EntityQuery
