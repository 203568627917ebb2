import EntityQuery.Predicate.Equality
import EntityQuery.Predicate.Json
import EntityQuery.Predicate.Validity
import EntityQuery.Proofs.Value.Tagged

/-!
# Predicates read back

A predicate whose fixed values and limits can be written has a document, and the document reads as
the predicate: every kind with its operators, its paths, its fixed values and its flags. The
members of its objects may be written in any order. What reads back is equal to what was written
and has the same fault, if it has one.
-/

namespace EntityQuery

open Document (Fields.Hold exists_fields readsAs_text readsAs_choice)

/-- Everything in an operand can be written. -/
def Operand.Expressible : Operand → Prop
  | field _ => True
  | literal value => value.Expressible

/-- Everything in a shape test can be written: a limit is finite. -/
def ShapeTest.Expressible : ShapeTest → Prop
  | intersects _ => True
  | distance _ _ limit => Decimal.isFiniteFloat limit = true

/-- Each operator has its name. -/
theorem Comparison.lookup_name (op : Comparison) : byName.lookup op.name = some op := by
  cases op <;> rfl

/-- Each connective has its name. -/
theorem Connective.lookup_name (connective : Connective) :
    byName.lookup connective.name = some connective := by
  cases connective <;> rfl

/-- Each quantifier has its name. -/
theorem Quantifier.lookup_name (quantifier : Quantifier) :
    byName.lookup quantifier.name = some quantifier := by
  cases quantifier <;> rfl

/-- Each kind of coordinates has its name. -/
theorem ShapeKind.lookup_name (kind : ShapeKind) : byName.lookup kind.name = some kind := by
  cases kind <;> rfl

/-- An operand that can be written has a document, and reads back from it. -/
theorem Operand.exists_toJson? {operand : Operand} (h : operand.Expressible) :
    ∃ document, operand.toJson? = some document ∧
      document.ReadsAs Operand.ofDocument operand := by
  have hnames : ["param", "v"].Nodup := by decide
  cases operand with
  | field path =>
    refine ⟨_, rfl, fun other hother manner => ?_⟩
    obtain ⟨found, manner', htagged, hfound⟩ := Document.exists_toTagged "param" "attribute" "v"
      hother hnames rfl rfl ["attribute", "const"] manner
    rw [Operand.ofDocument, htagged]
    exact (readsAs_text path).map Operand.field found hfound manner'
  | literal value =>
    obtain ⟨document, hdocument, hread⟩ := Value.exists_readsAs_toTagged? h
    refine ⟨_, congrArg (Option.map _) hdocument, fun other hother manner => ?_⟩
    obtain ⟨found, manner', htagged, hfound⟩ := Document.exists_toTagged "param" "const" "v" hother
      hnames rfl rfl ["attribute", "const"] manner
    rw [Operand.ofDocument, htagged]
    exact hread.map Operand.literal found hfound manner'

/-- A shape test that can be written reads back from its document. -/
theorem ShapeTest.readsAs_toJson {test : ShapeTest} (h : test.Expressible) :
    test.toJson.ReadsAs ShapeTest.ofDocument test := by
  intro other hother manner
  cases test with
  | intersects shape =>
    have hnames : ["test", "value"].Nodup := by decide
    obtain ⟨manner', htagged⟩ := Document.exists_toTaggedFields "test" "intersects" hother hnames
      rfl ["intersects", "distance"] manner
    obtain ⟨get, hget, hhold⟩ := exists_fields hother hnames ["value"] manner'
    have hvalue := hhold.required "value" rfl (readsAs_text shape)
    rw [ShapeTest.ofDocument, htagged]
    simp only [ok_bind, if_true, hget, hvalue]
    rfl
  | distance shape op limit =>
    have hnames : ["distance", "op", "test", "value"].Nodup := by decide
    rw [toJson, if_pos (show Decimal.isFiniteFloat limit = true from h)] at hother
    obtain ⟨manner', htagged⟩ := Document.exists_toTaggedFields "test" "distance" hother hnames rfl
      ["intersects", "distance"] manner
    obtain ⟨get, hget, hhold⟩ := exists_fields hother hnames ["value", "op", "distance"] manner'
    have hvalue := hhold.required "value" rfl (readsAs_text shape)
    have hop := hhold.required "op" rfl (readsAs_choice op.lookup_name)
    have hlimit := hhold.required "distance" rfl (Document.readsAs_float limit)
    have hdistance : ("distance" : String) ≠ "intersects" := by decide
    rw [ShapeTest.ofDocument, htagged]
    simp only [ok_bind, if_neg hdistance, if_true, hget, hvalue, hop, hlimit]
    rfl

/-- An operand that can be written is equal to itself. -/
theorem Operand.equal_self {operand : Operand} (h : operand.Expressible) :
    operand.equal operand = true := by
  cases operand with
  | field path => exact beq_self_eq_true path
  | literal value => exact Value.equal_self value h

/-- So is a shape test. -/
theorem ShapeTest.equal_self {test : ShapeTest} (h : test.Expressible) :
    test.equal test = true := by
  cases test with
  | intersects shape => exact beq_self_eq_true shape
  | distance shape op limit => simp [ShapeTest.equal, Decimal.compareFloats_self h]

namespace Predicate

mutual

/-- Everything in a predicate can be written: its fixed values and the limits of its shape
tests. -/
def Expressible : Predicate → Prop
  | compare left _ right | compareDates left _ right _ => left.Expressible ∧ right.Expressible
  | group _ members => MembersExpressible members
  | shape _ _ test => test.Expressible
  | quantified _ _ body | not body => Expressible body
  | contains _ _ | isOf _ _ | const _ => True
termination_by structural predicate => predicate

/-- Everything in the members of a group can be written. -/
def MembersExpressible : List Predicate → Prop
  | [] => True
  | member :: members => Expressible member ∧ MembersExpressible members
termination_by structural members => members

end

/-- The document of a predicate reads as its arguments do under its kind, when there is room for
its depth. -/
theorem readsAs_document (kind : String) {arguments : Json} {predicate : Predicate}
    {read : Nat → Document → Except String Predicate}
    (hread : ∀ fuel, arguments.depth < fuel → arguments.ReadsAs (read fuel) predicate)
    (hbranch : ∀ fuel written found,
      Document.toTagged "kind" "args" kinds written = .ok (kind, some found) →
        ofDocumentWithin (fuel + 1) written = read fuel found) :
    ∀ fuel, (document kind arguments).depth < fuel →
      (document kind arguments).ReadsAs (ofDocumentWithin fuel) predicate := by
  intro fuel hfuel other hother manner
  obtain ⟨fuel, rfl⟩ := Nat.exists_eq_succ_of_ne_zero (Nat.ne_zero_of_lt hfuel)
  have hdepth : arguments.depth < fuel := by
    simp only [document, Json.depth, Json.depthMembers] at hfuel
    omega
  have hnames : ["args", "kind"].Nodup := by decide
  obtain ⟨found, manner', htagged, hfound⟩ :=
    Document.exists_toTagged "kind" kind "args" hother hnames rfl rfl kinds manner
  rw [hbranch fuel _ _ htagged]
  exact hread fuel hdepth found hfound manner'

/-- So does the document of a kind without arguments. -/
theorem readsAs_bare (kind : String) {predicate : Predicate}
    (hbranch : ∀ fuel written, Document.toTagged "kind" "args" kinds written = .ok (kind, none) →
      ofDocumentWithin (fuel + 1) written = .ok predicate) :
    ∀ fuel, (Json.object [("kind", .string kind)]).depth < fuel →
      (Json.object [("kind", .string kind)]).ReadsAs (ofDocumentWithin fuel) predicate := by
  intro fuel hfuel other hother manner
  obtain ⟨fuel, rfl⟩ := Nat.exists_eq_succ_of_ne_zero (Nat.ne_zero_of_lt hfuel)
  exact hbranch fuel _ (Document.toTagged_bare "kind" kind "args" hother
    (List.nodup_singleton "kind") rfl rfl kinds manner)

/-- The arguments of a comparison are read back. -/
theorem readsAs_compare {left right : Operand} {op : Comparison} {leftJson rightJson : Json}
    (hleft : leftJson.ReadsAs Operand.ofDocument left)
    (hright : rightJson.ReadsAs Operand.ofDocument right) :
    (Json.object [("left", leftJson), ("op", .string op.name), ("right", rightJson)]).ReadsAs
      readCompare (compare left op right) := by
  intro other hother manner
  have hnames : ["left", "op", "right"].Nodup := by decide
  obtain ⟨get, hget, hhold⟩ := exists_fields hother hnames ["left", "op", "right"] manner
  simp only [readCompare, hget, ok_bind, hhold.required "left" rfl hleft,
    hhold.required "op" rfl (readsAs_choice op.lookup_name), hhold.required "right" rfl hright]
  rfl

/-- The arguments of a date comparison are read back, its flag included. -/
theorem readsAs_compareDates {left right : Operand} {op : Comparison} {timeless : Bool}
    {leftJson rightJson : Json} (hleft : leftJson.ReadsAs Operand.ofDocument left)
    (hright : rightJson.ReadsAs Operand.ofDocument right) :
    (Json.object [("left", leftJson), ("op", .string op.name), ("right", rightJson),
      ("timeless", .bool timeless)]).ReadsAs readCompareDates
        (compareDates left op right timeless) := by
  intro other hother manner
  have hnames : ["left", "op", "right", "timeless"].Nodup := by decide
  obtain ⟨get, hget, hhold⟩ :=
    exists_fields hother hnames ["left", "op", "right", "timeless"] manner
  simp only [readCompareDates, hget, ok_bind, hhold.required "left" rfl hleft,
    hhold.required "op" rfl (readsAs_choice op.lookup_name), hhold.required "right" rfl hright,
    hhold.withDefault "timeless" rfl (Document.readsAs_bool timeless) false]
  rfl

/-- The arguments of a text search are read back. -/
theorem readsAs_contains (path text : String) :
    (Json.object [("contains", .string text), ("path", .string path)]).ReadsAs readContains
      (contains path text) := by
  intro other hother manner
  have hnames : ["contains", "path"].Nodup := by decide
  obtain ⟨get, hget, hhold⟩ := exists_fields hother hnames ["path", "contains"] manner
  simp only [readContains, hget, ok_bind, hhold.required "path" rfl (readsAs_text path),
    hhold.required "contains" rfl (readsAs_text text)]
  rfl

/-- The arguments of a shape test are read back. -/
theorem readsAs_shape (kind : ShapeKind) (path : String) {test : ShapeTest}
    (h : test.Expressible) :
    (Json.object [("kind", .string kind.name), ("op", test.toJson), ("path", .string path)]).ReadsAs
      readShape (shape kind path test) := by
  intro other hother manner
  have hnames : ["kind", "op", "path"].Nodup := by decide
  obtain ⟨get, hget, hhold⟩ := exists_fields hother hnames ["kind", "path", "op"] manner
  simp only [readShape, hget, ok_bind, hhold.required "kind" rfl (readsAs_choice kind.lookup_name),
    hhold.required "path" rfl (readsAs_text path),
    hhold.required "op" rfl (ShapeTest.readsAs_toJson h)]
  rfl

/-- The arguments of a type assertion are read back, and an expression that is missing stays
so. -/
theorem readsAs_isOf (expression : Option String) (typeName : String) :
    (Json.object [("expression", Json.ofString? expression),
      ("type_name", .string typeName)]).ReadsAs readIsOf (isOf expression typeName) := by
  intro other hother manner
  have hnames : ["expression", "type_name"].Nodup := by decide
  obtain ⟨get, hget, hhold⟩ := exists_fields hother hnames ["expression", "type_name"] manner
  have hexpression : (Json.ofString? expression).ReadsAs (Document.toOption Document.toText)
      expression := by
    cases expression with
    | none => exact Document.readsAs_none Document.toText
    | some path => exact Document.readsAs_some_text path
  simp only [readIsOf, hget, ok_bind, hhold.optional "expression" rfl hexpression,
    hhold.required "type_name" rfl (readsAs_text typeName)]
  rfl

/-- The arguments of a group are read back if its members are. -/
theorem readsAs_group (connective : Connective) {read : Document → Except String Predicate}
    {items : List Json} {members : List Predicate}
    (h : List.Forall₂ (fun item member => item.ReadsAs read member) items members) :
    (Json.object [("condition", .string connective.name), ("predicates", .array items)]).ReadsAs
      (readGroup read) (group connective members) := by
  intro other hother manner
  have hnames : ["condition", "predicates"].Nodup := by decide
  obtain ⟨get, hget, hhold⟩ := exists_fields hother hnames ["condition", "predicates"] manner
  simp only [readGroup, hget, ok_bind,
    hhold.required "condition" rfl (readsAs_choice connective.lookup_name),
    hhold.required "predicates" rfl (Document.readsAs_list h)]
  rfl

/-- The arguments of a quantifier are read back if its condition is. -/
theorem readsAs_quantified (path : String) (quantifier : Quantifier)
    {read : Document → Except String Predicate} {written : Json} {body : Predicate}
    (h : written.ReadsAs read body) :
    (Json.object [("path", .string path), ("predicate", written),
      ("quantifier", .string quantifier.name)]).ReadsAs (readQuantified read)
        (quantified path quantifier body) := by
  intro other hother manner
  have hnames : ["path", "predicate", "quantifier"].Nodup := by decide
  obtain ⟨get, hget, hhold⟩ :=
    exists_fields hother hnames ["path", "quantifier", "predicate"] manner
  simp only [readQuantified, hget, ok_bind, hhold.required "path" rfl (readsAs_text path),
    hhold.required "quantifier" rfl (readsAs_choice quantifier.lookup_name),
    hhold.required "predicate" rfl h]
  rfl

mutual

/-- A predicate that can be written has a document, and reads back from it. -/
theorem exists_document : ∀ (predicate : Predicate), predicate.Expressible →
    ∃ written, predicate.toJson? = some written ∧
      ∀ fuel, written.depth < fuel → written.ReadsAs (ofDocumentWithin fuel) predicate
  | .compare left op right, ⟨hleft, hright⟩ => by
    obtain ⟨leftJson, hleftJson, hreadLeft⟩ := Operand.exists_toJson? hleft
    obtain ⟨rightJson, hrightJson, hreadRight⟩ := Operand.exists_toJson? hright
    refine ⟨_, ?_, readsAs_document "simple" (fun _ _ => readsAs_compare hreadLeft hreadRight)
      fun _ _ _ h => ?_⟩
    · rw [toJson?, hleftJson, hrightJson]
      rfl
    · rw [ofDocumentWithin, h]
      rfl
  | .compareDates left op right timeless, ⟨hleft, hright⟩ => by
    obtain ⟨leftJson, hleftJson, hreadLeft⟩ := Operand.exists_toJson? hleft
    obtain ⟨rightJson, hrightJson, hreadRight⟩ := Operand.exists_toJson? hright
    refine ⟨_, ?_, readsAs_document "date" (fun _ _ => readsAs_compareDates hreadLeft hreadRight)
      fun _ _ _ h => ?_⟩
    · rw [toJson?, hleftJson, hrightJson]
      rfl
    · rw [ofDocumentWithin, h]
      rfl
  | .contains path text, _ =>
    ⟨_, rfl, readsAs_document "string" (fun _ _ => readsAs_contains path text) fun _ _ _ h => by
      rw [ofDocumentWithin, h]
      rfl⟩
  | .shape kind path test, htest =>
    ⟨_, rfl, readsAs_document "spatial" (fun _ _ => readsAs_shape kind path htest) fun _ _ _ h => by
      rw [ofDocumentWithin, h]
      rfl⟩
  | .isOf expression typeName, _ =>
    ⟨_, rfl, readsAs_document "is_of" (fun _ _ => readsAs_isOf expression typeName)
      fun _ _ _ h => by
        rw [ofDocumentWithin, h]
        rfl⟩
  | .group connective members, hmembers => by
    obtain ⟨written, hwritten, hread⟩ := exists_documents members hmembers
    refine ⟨_, ?_, readsAs_document "complex"
      (fun fuel hfuel => readsAs_group connective (hread fuel ?_)) fun _ _ _ h => ?_⟩
    · rw [toJson?, hwritten]
      rfl
    · simp only [Json.depth, Json.depthMembers] at hfuel
      omega
    · rw [ofDocumentWithin, h]
      rfl
  | .quantified path quantifier body, hbody => by
    obtain ⟨written, hwritten, hread⟩ := exists_document body hbody
    refine ⟨_, ?_, readsAs_document "detail"
      (fun fuel hfuel => readsAs_quantified path quantifier (hread fuel ?_)) fun _ _ _ h => ?_⟩
    · rw [toJson?, hwritten]
      rfl
    · simp only [Json.depth, Json.depthMembers] at hfuel
      omega
    · rw [ofDocumentWithin, h]
      rfl
  | .not body, hbody => by
    obtain ⟨written, hwritten, hread⟩ := exists_document body hbody
    refine ⟨_, ?_, readsAs_document "not" (fun fuel hfuel => (hread fuel hfuel).map not)
      fun _ _ _ h => ?_⟩
    · rw [toJson?, hwritten]
      rfl
    · rw [ofDocumentWithin, h]
      rfl
  | .const true, _ => ⟨_, rfl, readsAs_bare "true" fun _ _ h => by
      rw [ofDocumentWithin, h]
      rfl⟩
  | .const false, _ => ⟨_, rfl, readsAs_bare "false" fun _ _ h => by
      rw [ofDocumentWithin, h]
      rfl⟩

/-- So do the members of a group, one by one. -/
theorem exists_documents : ∀ (members : List Predicate), MembersExpressible members →
    ∃ written, membersToJson? members = some written ∧
      ∀ fuel, Json.depthItems written < fuel →
        List.Forall₂ (fun item member => item.ReadsAs (ofDocumentWithin fuel) member)
          written members
  | [], _ => ⟨[], rfl, fun _ _ => .nil⟩
  | member :: members, ⟨hmember, hmembers⟩ => by
    obtain ⟨first, hfirst, hread⟩ := exists_document member hmember
    obtain ⟨rest, hrest, hreads⟩ := exists_documents members hmembers
    refine ⟨first :: rest, ?_, fun fuel hfuel => ?_⟩
    · rw [membersToJson?, hfirst, hrest]
      rfl
    · obtain ⟨hlow, hhigh⟩ := Nat.max_lt.mp hfuel
      exact .cons (hread fuel hlow) (hreads fuel hhigh)

end

mutual

/-- A predicate that can be written is equal to itself. -/
theorem equal_self : ∀ (predicate : Predicate), predicate.Expressible →
    predicate.equal predicate = true
  | .compare left op right, ⟨hleft, hright⟩ => by
    simp [equal, Operand.equal_self hleft, Operand.equal_self hright]
  | .compareDates left op right timeless, ⟨hleft, hright⟩ => by
    simp [equal, Operand.equal_self hleft, Operand.equal_self hright]
  | .group connective members, hmembers => by simp [equal, equalMembers_self members hmembers]
  | .contains path text, _ => by simp [equal]
  | .shape kind path test, htest => by simp [equal, ShapeTest.equal_self htest]
  | .quantified path quantifier body, hbody => by simp [equal, equal_self body hbody]
  | .not body, hbody => equal_self body hbody
  | .isOf expression typeName, _ => by simp [equal]
  | .const verdict, _ => beq_self_eq_true verdict

/-- So are members that can be written. -/
theorem equalMembers_self : ∀ (members : List Predicate), MembersExpressible members →
    equalMembers members members = true
  | [], _ => rfl
  | member :: members, ⟨hmember, hmembers⟩ =>
    Bool.and_eq_true_iff.mpr ⟨equal_self member hmember, equalMembers_self members hmembers⟩

end

/-- A predicate whose doubles are finite, whose instants have a written form and whose records are
canonical has a document. It is read back from that document, in whatever order the members of
the objects in it stand: what is read is the same predicate, and so an equal one with the same
verdict. -/
theorem ofJson_toJson? {predicate : Predicate} (h : predicate.Expressible) :
    ∃ written, predicate.toJson? = some written ∧ written.Rearranged written ∧
      ∀ other, written.Rearranged other →
        ∃ back, ofJson other = .ok back ∧ back = predicate ∧ back.equal predicate = true ∧
          back.validate = predicate.validate := by
  obtain ⟨written, hwritten, hread⟩ := exists_document predicate h
  refine ⟨written, hwritten, Json.Rearranged.refl written, fun other hother => ?_⟩
  have hback : ofJson other = .ok predicate := by
    rw [ofJson, ofDocument, Document.ofJson, hother.depth_eq]
    exact hread _ (Nat.lt_succ_self _) other hother .inPlace
  exact ⟨predicate, hback, rfl, equal_self predicate h, rfl⟩

/-- A condition with most kinds of parts: a quantifier over a date comparison that looks at dates
only, a type assertion without an expression, a distance, and a fixed record with a list in it. -/
def mixed : Predicate :=
  group .and [
    quantified "orders" .any (compareDates (.field "placed") .lt
      (.literal (.instant ⟨1709231400500000000, 19800⟩)) true),
    not (isOf none "Vip"),
    shape .geography "place" (.distance "POINT(1 2)" .leq (Float.ofBits 0x4004000000000000)),
    compare (.field "tags") .eq (.literal (.record [("kind", .null),
      ("values", .list [.int (-1), .float (Float.ofBits 0x3FF0000000000000), .bool true])])),
    group .or [contains "name" "a", isOf (some "boss") "Manager", const false]]

/-- All of it can be written. -/
theorem expressible_mixed : mixed.Expressible := by
  have hmoment : Instant.isExpressible ⟨1709231400500000000, 19800⟩ = true := by decide +kernel
  have hlimit : Decimal.isFiniteFloat (Float.ofBits 0x4004000000000000) = true := by
    decide +kernel
  have hdouble : Decimal.isFiniteFloat (Float.ofBits 0x3FF0000000000000) = true := by
    decide +kernel
  have hordered : Entries.Ordered [("kind", Value.null), ("values", .list [.int (-1),
      .float (Float.ofBits 0x3FF0000000000000), .bool true])] :=
    List.pairwise_pair.mpr (by decide)
  exact ⟨⟨trivial, hmoment⟩, trivial, hlimit, ⟨trivial, hordered, trivial,
    ⟨trivial, hdouble, trivial, trivial⟩, trivial⟩, ⟨trivial, trivial, trivial, trivial⟩, trivial⟩

/-- The condition is read back from its document. -/
theorem ofJson_mixed :
    mixed.Expressible ∧ ∃ written, mixed.toJson? = some written ∧
      ∃ back, ofJson written = .ok back ∧ back = mixed ∧ back.equal mixed = true ∧
        back.validate = mixed.validate := by
  obtain ⟨written, hwritten, hsame, hread⟩ := ofJson_toJson? expressible_mixed
  exact ⟨expressible_mixed, written, hwritten, hread written hsame⟩

end Predicate

end EntityQuery
