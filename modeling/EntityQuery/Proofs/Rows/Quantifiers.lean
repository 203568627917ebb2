import EntityQuery.Proofs.Rows.Chains
import EntityQuery.Proofs.Rows.Stages

/-!
# Quantifiers on collections

A quantifier ranges over the items of the list along a path, and over none where there is no
list. Only records can pass a test, so an item that is none, as the bare key of a related record,
passes neither a test nor its negation: all items fail a test as soon as they are records and none
of them passes it. On collections of records the two quantifiers are dual. A constant
test asks for nothing but that the items are records. Whatever the items are, `all` distributes
over conjunctions and `any` over disjunctions.
-/

namespace EntityQuery

/-- A value is a nested record. -/
def Value.isRecord (value : Value) : Bool := value.asRecord?.isSome

/-- A nested record has fields. -/
theorem Value.isRecord_iff {value : Value} :
    value.isRecord = true ↔ ∃ fields, value = .record fields := by
  cases value <;> simp [isRecord, asRecord?]

/-- The items along a path: those of a list, and none where there is no list. -/
def Record.itemsAt (record : Record) (segments : List String) : List Value :=
  (record.read segments).asList?.getD []

namespace Rows.Test

variable {schema : Schema} {type path : String} {quantifier : Quantifier} {body : Predicate}
  {test : Test}

/-- All items pass a test exactly when each is a record that passes it. -/
theorem quantify_all_iff {passes : Record → Bool} {items : List Value} :
    quantify .all passes items = true ↔
      ∀ item ∈ items, ∃ fields, item = .record fields ∧ passes fields = true := by
  unfold quantify
  rw [List.all_eq_true]
  refine forall₂_congr fun item _ => ?_
  cases item <;> simp

/-- Any item passes a test exactly when one of them is a record that passes it. -/
theorem quantify_any_iff {passes : Record → Bool} {items : List Value} :
    quantify .any passes items = true ↔
      ∃ fields, .record fields ∈ items ∧ passes fields = true := by
  unfold quantify
  rw [List.any_eq_true]
  constructor
  · rintro ⟨item, hmem, hpasses⟩
    cases item with
    | record fields => exact ⟨fields, hmem, hpasses⟩
    | _ => cases hpasses
  · rintro ⟨fields, hmem, hpasses⟩
    exact ⟨.record fields, hmem, hpasses⟩

/-- All items fail a test exactly when none passes it and they are all records. -/
theorem quantify_all_not_iff {passes : Record → Bool} {items : List Value} :
    quantify .all (fun record => !passes record) items = true ↔
      ¬quantify .any passes items = true ∧ ∀ item ∈ items, item.isRecord = true := by
  simp only [quantify_all_iff, quantify_any_iff, Value.isRecord_iff, Bool.not_eq_true']
  constructor
  · intro hall
    refine ⟨?_, fun item hmem => ?_⟩
    · rintro ⟨fields, hmem, hpasses⟩
      obtain ⟨_, heq, hfails⟩ := hall _ hmem
      obtain rfl := Value.record.inj heq
      rw [hfails] at hpasses
      cases hpasses
    · obtain ⟨fields, heq, _⟩ := hall item hmem
      exact ⟨fields, heq⟩
  · rintro ⟨hnone, hrecords⟩ item hmem
    obtain ⟨fields, rfl⟩ := hrecords item hmem
    exact ⟨fields, rfl, Bool.eq_false_iff.mpr fun hpasses => hnone ⟨fields, hmem, hpasses⟩⟩

/-- All items pass what always holds exactly when they are all records. -/
theorem quantify_all_true_iff {items : List Value} :
    quantify .all (fun _ => true) items = true ↔ ∀ item ∈ items, item.isRecord = true := by
  simp [quantify_all_iff, Value.isRecord_iff]

/-- Any item passes what always holds exactly when one is a record. -/
theorem quantify_any_true_iff {items : List Value} :
    quantify .any (fun _ => true) items = true ↔ ∃ item ∈ items, item.isRecord = true := by
  simp only [quantify_any_iff, Value.isRecord_iff, and_true]
  constructor
  · rintro ⟨fields, hmem⟩
    exact ⟨.record fields, hmem, fields, rfl⟩
  · rintro ⟨_, hmem, fields, rfl⟩
    exact ⟨fields, hmem⟩

/-- All items pass two tests together exactly when all pass the one and all pass the other. -/
theorem quantify_all_and_iff {first second : Record → Bool} {items : List Value} :
    quantify .all (fun record => first record && second record) items = true ↔
      quantify .all first items = true ∧ quantify .all second items = true := by
  simp only [quantify_all_iff, Bool.and_eq_true]
  constructor
  · intro hall
    refine ⟨fun item hmem => ?_, fun item hmem => ?_⟩
    · obtain ⟨fields, heq, hfirst, _⟩ := hall item hmem
      exact ⟨fields, heq, hfirst⟩
    · obtain ⟨fields, heq, _, hsecond⟩ := hall item hmem
      exact ⟨fields, heq, hsecond⟩
  · rintro ⟨hfirst, hsecond⟩ item hmem
    obtain ⟨fields, rfl, hpasses⟩ := hfirst item hmem
    obtain ⟨_, heq, hother⟩ := hsecond _ hmem
    obtain rfl := Value.record.inj heq
    exact ⟨fields, rfl, hpasses, hother⟩

/-- Any item passes one of two tests exactly when any passes the one or any passes the other. -/
theorem quantify_any_or_iff {first second : Record → Bool} {items : List Value} :
    quantify .any (fun record => first record || second record) items = true ↔
      quantify .any first items = true ∨ quantify .any second items = true := by
  simp only [quantify_any_iff, Bool.or_eq_true, and_or_left, exists_or]

/-- A quantified test asks for the items along its path. -/
theorem passes_quantified (style : DateStyle) (segments : List String) (quantifier : Quantifier)
    (inner : Test) (record : Record) :
    (quantified segments quantifier inner).passes style record =
      quantify quantifier (inner.passes style) (record.itemsAt segments) := rfl

/-- A quantified predicate has a test exactly when its path leads to a collection and its body has
a test on the records there. -/
theorem ofPredicate_quantified_eq_ok_iff :
    Test.ofPredicate schema (.quantified path quantifier body) type = .ok test ↔
      ∃ collection segments inner, schema.resolveCollection type path = .ok collection ∧
        checkedPath schema type path = .ok segments ∧
        Test.ofPredicate schema body collection.target = .ok inner ∧
        quantified segments quantifier inner = test := by
  rw [Test.ofPredicate]
  simp only [bind_eq_ok_iff, pure_eq_ok_iff]
  constructor
  · rintro ⟨collection, hcollection, segments, hsegments, inner, hinner, htest⟩
    exact ⟨collection, segments, inner, hcollection, hsegments, hinner, htest⟩
  · rintro ⟨collection, segments, inner, hcollection, hsegments, hinner, htest⟩
    exact ⟨collection, hcollection, segments, hsegments, inner, hinner, htest⟩

/-- A negated predicate has the test that negates its own. -/
theorem ofPredicate_not (h : Test.ofPredicate schema body type = .ok test) :
    Test.ofPredicate schema (.not body) type = .ok (.not test) := by
  rw [Test.ofPredicate, h]
  rfl

end Rows.Test

/-- A path to a collection can be read. -/
theorem Rows.exists_checkedPath_of_resolveCollection {schema : Schema} {type path : String}
    {collection : Field} (h : schema.resolveCollection type path = .ok collection) :
    ∃ segments, checkedPath schema type path = .ok segments := by
  obtain ⟨⟨chain, last⟩, hend, _⟩ := bind_eq_ok_iff.mp h
  obtain ⟨found, hfound, _⟩ := bind_eq_ok_iff.mp hend
  obtain ⟨segments, hsegments, _⟩ := bind_eq_ok_iff.mp hfound
  exact ⟨segments, bind_eq_ok_iff.mpr ⟨found, hfound, hsegments⟩⟩

open Rows

namespace Predicate

variable {schema : Schema} {type path : String} {body : Predicate}

/-- If a predicate can be tested on the items along a path, so can its negation, by either
quantifier. All items fail it exactly when it is not the case that any item passes it and the items
are all records. All items pass what always holds exactly when they are all records, and any item
does exactly when one of them is a record. -/
theorem all_not_iff_not_any (h : (quantified path .any body).HasTest schema type) :
    ∃ segments, Schema.pathSegments path = .ok segments ∧
      (not (quantified path .any body)).HasTest schema type ∧
      (quantified path .all (not body)).HasTest schema type ∧
      (∀ quantifier, (quantified path quantifier (.const true)).HasTest schema type) ∧
      ∀ (style : DateStyle) (record : Record),
        ((quantified path .all (not body)).Matches schema type style record ↔
          (not (quantified path .any body)).Matches schema type style record ∧
            ∀ item ∈ record.itemsAt segments, item.isRecord = true) ∧
        ((quantified path .all (.const true)).Matches schema type style record ↔
          ∀ item ∈ record.itemsAt segments, item.isRecord = true) ∧
        ((quantified path .any (.const true)).Matches schema type style record ↔
          ∃ item ∈ record.itemsAt segments, item.isRecord = true) := by
  obtain ⟨test, htest⟩ := h
  obtain ⟨collection, segments, inner, hcollection, hchecked, hinner, rfl⟩ :=
    Test.ofPredicate_quantified_eq_ok_iff.mp htest
  have hquantified : ∀ {quantifier other otherTest},
      Test.ofPredicate schema other collection.target = .ok otherTest →
        Test.ofPredicate schema (quantified path quantifier other) type =
          .ok (.quantified segments quantifier otherTest) :=
    fun hother => Test.ofPredicate_quantified_eq_ok_iff.mpr
      ⟨collection, segments, _, hcollection, hchecked, hother, rfl⟩
  have hnotAny := Test.ofPredicate_not htest
  have hallNot : Test.ofPredicate schema (quantified path .all (not body)) type =
      .ok (.quantified segments .all (.not inner)) := hquantified (Test.ofPredicate_not hinner)
  have hconst : ∀ quantifier, Test.ofPredicate schema (quantified path quantifier (.const true))
      type = .ok (.quantified segments quantifier (.const true)) := fun _ => hquantified rfl
  refine ⟨segments, checkedPath_eq_ok hchecked, ⟨_, hnotAny⟩, ⟨_, hallNot⟩,
    fun quantifier => ⟨_, hconst quantifier⟩, fun style record => ?_⟩
  rw [matches_iff_passes hnotAny, matches_iff_passes hallNot, matches_iff_passes (hconst .all),
    matches_iff_passes (hconst .any)]
  have hnot : (Test.not (.quantified segments .any inner)).passes style record = true ↔
      ¬(Test.quantified segments .any inner).passes style record = true := by
    rw [Test.passes, Bool.not_eq_true', Bool.not_eq_true]
  rw [hnot]
  simp only [Test.passes_quantified]
  exact ⟨Test.quantify_all_not_iff, Test.quantify_all_true_iff, Test.quantify_any_true_iff⟩

/-- An employee with two cheap orders. -/
def cheapOrders : Record :=
  [("id", .string "e1"),
    ("orders", .list [.record [("price", .int 5)], .record [("id", .string "o2")]])]

theorem all_not_iff_not_any_cheap :
    (quantified "orders" .any (.simple "price" .geq (.int 10))).HasTest Sample.schema "employee" ∧
      (not (quantified "orders" .any (.simple "price" .geq (.int 10)))).Matches Sample.schema
        "employee" .standard cheapOrders ∧
      (quantified "orders" .all (not (.simple "price" .geq (.int 10)))).Matches Sample.schema
        "employee" .standard cheapOrders := by
  have htest : (quantified "orders" .any (.simple "price" .geq (.int 10))).HasTest Sample.schema
      "employee" := exists_eq_ok_of_isOk (by decide +kernel)
  obtain ⟨segments, hsegments, _, _, _, hmatches⟩ := all_not_iff_not_any htest
  obtain rfl : ["orders"] = segments := by
    have hpath : Schema.pathSegments "orders" = .ok ["orders"] := by decide +kernel
    exact Except.ok.inj (hpath.symm.trans hsegments)
  have hnone : (not (quantified "orders" .any (.simple "price" .geq (.int 10)))).Matches
      Sample.schema "employee" .standard cheapOrders := by
    refine ⟨.not (.quantified ["orders"] .any
      (.compare (.path ["price"]) .geq (.fixed (.int 10)) .values)), rfl, ?_⟩
    decide +kernel
  have hrecords : ∀ item ∈ cheapOrders.itemsAt ["orders"], item.isRecord = true :=
    List.all_eq_true.mp rfl
  exact ⟨htest, hnone, (hmatches .standard cheapOrders).1.mpr ⟨hnone, hrecords⟩⟩

/-- For a path to a collection and two predicates that can be tested on its items, whatever a
record has there: all items pass both together exactly when all pass each, and any item passes one
of them exactly when any passes the one or any passes the other. All of these can be tested. -/
theorem quantifiers_distribute {p q : Predicate} {collection : Field}
    (hcollection : schema.resolveCollection type path = .ok collection)
    (hp : p.HasTest schema collection.target) (hq : q.HasTest schema collection.target) :
    (∀ quantifier, ∀ part ∈ [p, q, p.and q, p.or q],
        (quantified path quantifier part).HasTest schema type) ∧
      ∀ (style : DateStyle) (record : Record),
        ((quantified path .all (p.and q)).Matches schema type style record ↔
          (quantified path .all p).Matches schema type style record ∧
            (quantified path .all q).Matches schema type style record) ∧
        ((quantified path .any (p.or q)).Matches schema type style record ↔
          (quantified path .any p).Matches schema type style record ∨
            (quantified path .any q).Matches schema type style record) := by
  obtain ⟨segments, hchecked⟩ := exists_checkedPath_of_resolveCollection hcollection
  have hquantified : ∀ {quantifier part test},
      Test.ofPredicate schema part collection.target = .ok test →
        Test.ofPredicate schema (quantified path quantifier part) type =
          .ok (.quantified segments quantifier test) :=
    fun htest => Test.ofPredicate_quantified_eq_ok_iff.mpr
      ⟨collection, segments, _, hcollection, hchecked, htest, rfl⟩
  obtain ⟨both, hboth⟩ : (p.and q).HasTest schema collection.target := hp.join hq .and
  obtain ⟨either, heither⟩ : (p.or q).HasTest schema collection.target := hp.join hq .or
  obtain ⟨first, second, hfirst, hsecond, hbothPasses⟩ := Test.ofPredicate_join hboth
  obtain ⟨first', second', hfirst', hsecond', heitherPasses⟩ := Test.ofPredicate_join heither
  obtain rfl := Except.ok.inj (hfirst.symm.trans hfirst')
  obtain rfl := Except.ok.inj (hsecond.symm.trans hsecond')
  refine ⟨fun quantifier part hpart => ?_, fun style record => ⟨?_, ?_⟩⟩
  · simp only [List.mem_cons, List.not_mem_nil, or_false] at hpart
    rcases hpart with rfl | rfl | rfl | rfl
    · exact ⟨_, hquantified hfirst⟩
    · exact ⟨_, hquantified hsecond⟩
    · exact ⟨_, hquantified hboth⟩
    · exact ⟨_, hquantified heither⟩
  · have hpasses : both.passes style = fun item => first.passes style item &&
        second.passes style item := funext fun item => hbothPasses style item
    rw [matches_iff_passes (hquantified hboth), matches_iff_passes (hquantified hfirst),
      matches_iff_passes (hquantified hsecond)]
    simp only [Test.passes_quantified, hpasses]
    exact Test.quantify_all_and_iff
  · have hpasses : either.passes style = fun item => first.passes style item ||
        second.passes style item := funext fun item => heitherPasses style item
    rw [matches_iff_passes (hquantified heither), matches_iff_passes (hquantified hfirst),
      matches_iff_passes (hquantified hsecond)]
    simp only [Test.passes_quantified, hpasses]
    exact Test.quantify_any_or_iff

/-- Any of the two cheap orders costs more than ten or has a key, since one has a key. -/
theorem quantifiers_distribute_cheap :
    Sample.schema.resolveCollection "employee" "orders" =
        .ok (.related "employee" ⟨"orders", .hasMany, "order", false, false, false, none⟩) ∧
      (quantified "orders" .any
        ((simple "price" .gt (.int 10)).or (simple "id" .neq .null))).Matches Sample.schema
          "employee" .standard cheapOrders := by
  have hcollection : Sample.schema.resolveCollection "employee" "orders" =
      .ok (.related "employee" ⟨"orders", .hasMany, "order", false, false, false, none⟩) := by
    decide +kernel
  obtain ⟨_, hmatches⟩ := quantifiers_distribute (p := simple "price" .gt (.int 10))
    (q := simple "id" .neq .null) hcollection (exists_eq_ok_of_isOk (by decide +kernel))
    (exists_eq_ok_of_isOk (by decide +kernel))
  refine ⟨hcollection, (hmatches .standard cheapOrders).2.mpr (.inr ?_)⟩
  refine ⟨.quantified ["orders"] .any (.compare (.path ["id"]) .neq (.fixed .null) .values),
    rfl, ?_⟩
  decide +kernel

/-- An employee whose one order is a bare key. -/
def bareOrder : Record := [("id", .string "e1"), ("orders", .list [.int 7])]

/-- A bare key passes neither a test nor its negation, so on a collection of bare keys neither
quantifier holds of anything. -/
theorem bare_order_passes_nothing :
    (not (quantified "orders" .any (.const true))).Matches Sample.schema "employee" .standard
        bareOrder ∧
      ¬(quantified "orders" .all (not (.const true))).Matches Sample.schema "employee" .standard
        bareOrder ∧
      ¬(quantified "orders" .all (.const true)).Matches Sample.schema "employee" .standard
        bareOrder ∧
      bareOrder.itemsAt ["orders"] ≠ [] ∧
      ¬(quantified "orders" .any (.const true)).Matches Sample.schema "employee" .standard
        bareOrder := by
  have htest : ∀ quantifier, Test.ofPredicate Sample.schema
      (quantified "orders" quantifier (.const true)) "employee" =
        .ok (.quantified ["orders"] quantifier (.const true)) := fun _ => rfl
  have hallNot : Test.ofPredicate Sample.schema (quantified "orders" .all (not (.const true)))
      "employee" = .ok (.quantified ["orders"] .all (.not (.const true))) := rfl
  rw [matches_iff_passes (Test.ofPredicate_not (htest .any)), matches_iff_passes hallNot,
    matches_iff_passes (htest .all), matches_iff_passes (htest .any)]
  decide +kernel

end Predicate

end EntityQuery
