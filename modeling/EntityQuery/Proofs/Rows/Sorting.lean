import EntityQuery.Proofs.Query.Construction
import EntityQuery.Proofs.Rows.Stages
import EntityQuery.Proofs.Schema.Paths
import EntityQuery.Proofs.StableSort
import EntityQuery.Proofs.Value.Sorting
import EntityQuery.Rows.Pipeline

/-!
# Sorting records by the keys of a clause

By a clause one record stands before another if the first key by which they do not tie says so.
Sorting records in which no key reads a double gives the same records so that none stands behind
one that it should stand before, and records that tie by every key stay as they were, whatever
the directions of the keys.
-/

namespace EntityQuery

namespace SortKey

/-- The value that a key compares. -/
def read (key : SortKey) (record : Record) : Value :=
  record.read ((Text.pieces '.' key.path).map Text.trim)

/-- The values of two records have one place. -/
def Ties (key : SortKey) (a b : Record) : Prop := (key.read a).sortCompare (key.read b) = .eq

/-- The value of the first record is the lesser one, or the greater one if the key is
descending. -/
def Precedes (key : SortKey) (a b : Record) : Prop :=
  (key.read a).sortCompare (key.read b) =
    if key.direction = some .descending then .gt else .lt

/-- The first key by which two records do not tie puts the first record before the second. -/
inductive Before : List SortKey → Record → Record → Prop where
  /-- The most important key decides. -/
  | here {key : SortKey} {keys : List SortKey} {a b : Record} (h : key.Precedes a b) :
      Before (key :: keys) a b
  /-- The records tie by the most important key. -/
  | later {key : SortKey} {keys : List SortKey} {a b : Record} (htie : key.Ties a b)
      (h : Before keys a b) : Before (key :: keys) a b

end SortKey

namespace OrderClause

/-- Two records tie by every key. -/
def Ties (clause : OrderClause) (a b : Record) : Prop := ∀ key ∈ clause.keys, key.Ties a b

instance (clause : OrderClause) (a b : Record) : Decidable (clause.Ties a b) :=
  inferInstanceAs (Decidable (∀ key ∈ clause.keys,
    (key.read a).sortCompare (key.read b) = .eq))

/-- Records are sorted by a clause, and those that tie are left as they were. -/
structure SortsStably (clause : OrderClause) (records sorted : List Record) : Prop where
  /-- The same records. -/
  perm : sorted.Perm records
  /-- No record stands behind one that it should stand before. -/
  ordered : sorted.Pairwise fun a b => ¬ SortKey.Before clause.keys b a
  /-- The records that tie with one of them stand in their old sequence. -/
  stable : ∀ record ∈ records,
    sorted.filter (clause.Ties · record) = records.filter (clause.Ties · record)

end OrderClause

namespace Rows

variable {schema : Schema} {type : String} {records : List Record}

/-- A key that was looked up has the path and the direction that were given. -/
theorem Order.keyOf_eq_ok {key : SortKey} {compiled : Key}
    (h : Order.keyOf schema type key = .ok compiled) :
    compiled = ⟨(Text.pieces '.' key.path).map Text.trim, key.isDescending⟩ := by
  obtain ⟨segments, hpath, h⟩ := bind_eq_ok_iff.mp h
  obtain rfl := pure_eq_ok_iff.mp h
  obtain ⟨_, rfl⟩ := Schema.pathSegments_eq_ok_iff.mp (checkedPath_eq_ok hpath)
  rfl

/-- By a key that was looked up a record comes first exactly if it should. -/
theorem Key.compare_eq_lt_iff {key : SortKey} {compiled : Key}
    (h : Order.keyOf schema type key = .ok compiled) (a b : Record) :
    compiled.compare a b = .lt ↔ key.Precedes a b := by
  obtain rfl := Order.keyOf_eq_ok h
  rw [SortKey.Precedes, Key.compare, SortKey.isDescending, SortKey.read, SortKey.read]
  cases key.direction with
  | none => rfl
  | some direction =>
    cases direction with
    | ascending => rfl
    | descending => exact Ordering.swap_eq_lt

/-- By a key that was looked up two records tie exactly if their values have one place. -/
theorem Key.compare_eq_eq_iff {key : SortKey} {compiled : Key}
    (h : Order.keyOf schema type key = .ok compiled) (a b : Record) :
    compiled.compare a b = .eq ↔ key.Ties a b := by
  obtain rfl := Order.keyOf_eq_ok h
  rw [SortKey.Ties, Key.compare, SortKey.read, SortKey.read]
  cases key.isDescending with
  | false => rfl
  | true => exact Ordering.swap_eq_eq

/-- Records in which a key reads no double are totally preordered by it. -/
theorem Key.transOn_compare {key : Key}
    (h : ∀ record ∈ records, (record.read key.path).isFloat = false) :
    TransOn key.compare records := by
  have hhides : ∀ a b c : {record // record ∈ records},
      ¬ Value.Hides (b.val.read key.path) (a.val.read key.path) (c.val.read key.path) := by
    intro a b c hhides
    have hfloat := hhides.isFloat
    rw [h b.val b.property] at hfloat
    cases hfloat
  cases hdescending : key.descending with
  | false =>
    have hcompare : ∀ a b, key.compare a b =
        (a.read key.path).sortCompare (b.read key.path) := by
      intro a b
      rw [Key.compare, hdescending]
      rfl
    simp only [TransOn, hcompare]
    exact
      { eq_swap := Value.sortCompare_swap _ _
        isLE_trans := fun {a b c} hab hbc => Value.isLE_sortCompare_trans hab hbc (hhides a b c) }
  | true =>
    have hcompare : ∀ a b, key.compare a b =
        (b.read key.path).sortCompare (a.read key.path) := by
      intro a b
      rw [Key.compare, hdescending]
      exact (Value.sortCompare_swap _ _).symm
    simp only [TransOn, hcompare]
    exact
      { eq_swap := Value.sortCompare_swap _ _
        isLE_trans := fun {a b c} hab hbc => Value.isLE_sortCompare_trans hbc hab (hhides c b a) }

/-- A query pages and shapes the records that it admits in their order. -/
theorem Pipeline.run_eq {dates : DateStyle} {query : Query} {pipeline : Pipeline}
    (h : ofQuery schema dates query = .ok pipeline) (stored : List Record) :
    pipeline.run stored =
      (paginate query.skip query.top (pipeline.order.sort (stored.filter pipeline.admits))).map
        (shape query.outputTree) := by
  rw [ofQuery] at h
  obtain ⟨test, _, h⟩ := bind_eq_ok_iff.mp h
  obtain ⟨order, _, h⟩ := bind_eq_ok_iff.mp h
  obtain rfl := pure_eq_ok_iff.mp h
  rfl

namespace Order

/-- Keys that each preorder some records totally do so together. -/
theorem transOn_compareBy {keys : List Key} (h : ∀ key ∈ keys, TransOn key.compare records) :
    TransOn (compareBy keys) records := by
  induction keys with
  | nil => exact { eq_swap := rfl, isLE_trans := fun _ _ => rfl }
  | cons key keys ih =>
    have hkey : TransOn key.compare records := h key List.mem_cons_self
    have hkeys := ih fun other hother => h other (List.mem_cons_of_mem key hother)
    exact Std.instTransCmpCompareLex

/-- Keys put one record before another exactly if the first one that tells them apart does. -/
theorem compareBy_eq_lt_iff {keys : List SortKey} {compiled : List Key}
    (h : keys.mapM (keyOf schema type) = .ok compiled) (a b : Record) :
    compareBy compiled a b = .lt ↔ SortKey.Before keys a b := by
  induction keys generalizing compiled with
  | nil =>
    obtain rfl := pure_eq_ok_iff.mp h
    constructor <;> intro h <;> cases h
  | cons key keys ih =>
    obtain ⟨first, others, hfirst, hothers, rfl⟩ := mapM_cons_eq_ok_iff.mp h
    rw [compareBy, Ordering.then_eq_lt, Key.compare_eq_lt_iff hfirst,
      Key.compare_eq_eq_iff hfirst, ih hothers]
    constructor
    · rintro (hhere | ⟨htie, hlater⟩)
      · exact .here hhere
      · exact .later htie hlater
    · rintro (hhere | ⟨htie, hlater⟩)
      · exact .inl hhere
      · exact .inr ⟨htie, hlater⟩

/-- By keys two records tie exactly if they tie by each. -/
theorem compareBy_eq_eq_iff {keys : List SortKey} {compiled : List Key}
    (h : keys.mapM (keyOf schema type) = .ok compiled) (a b : Record) :
    compareBy compiled a b = .eq ↔ ∀ key ∈ keys, key.Ties a b := by
  induction keys generalizing compiled with
  | nil =>
    obtain rfl := pure_eq_ok_iff.mp h
    simp [compareBy]
  | cons key keys ih =>
    obtain ⟨first, others, hfirst, hothers, rfl⟩ := mapM_cons_eq_ok_iff.mp h
    rw [compareBy, Ordering.then_eq_eq, Key.compare_eq_eq_iff hfirst, ih hothers,
      List.forall_mem_cons]

/-- Records in which the keys of a clause read no doubles are totally preordered by it. -/
theorem transOn_compare {clause : OrderClause} {order : Order}
    (h : ofClause schema type clause = .ok order)
    (hvalues : ∀ key ∈ clause.keys, ∀ record ∈ records, (key.read record).isFloat = false) :
    TransOn order.compare records := by
  obtain ⟨compiled, hcompiled, h⟩ := bind_eq_ok_iff.mp h
  obtain rfl := pure_eq_ok_iff.mp h
  refine transOn_compareBy fun key hkey => ?_
  obtain ⟨given, hgiven, hkeyOf⟩ := exists_of_mem_mapM hcompiled hkey
  obtain rfl := keyOf_eq_ok hkeyOf
  exact Key.transOn_compare (hvalues given hgiven)

/-- An order that was looked up puts one record before another as its clause does. -/
theorem compare_eq_lt_iff {clause : OrderClause} {order : Order}
    (h : ofClause schema type clause = .ok order) (a b : Record) :
    order.compare a b = .lt ↔ SortKey.Before clause.keys a b := by
  obtain ⟨compiled, hcompiled, h⟩ := bind_eq_ok_iff.mp h
  obtain rfl := pure_eq_ok_iff.mp h
  exact compareBy_eq_lt_iff hcompiled a b

/-- By an order that was looked up records tie as by its clause. -/
theorem compare_eq_eq_iff {clause : OrderClause} {order : Order}
    (h : ofClause schema type clause = .ok order) (a b : Record) :
    order.compare a b = .eq ↔ clause.Ties a b := by
  obtain ⟨compiled, hcompiled, h⟩ := bind_eq_ok_iff.mp h
  obtain rfl := pure_eq_ok_iff.mp h
  exact compareBy_eq_eq_iff hcompiled a b

/-- An order that was looked up and totally preorders some records sorts them by its clause. -/
theorem sortsStably_of_transOn {clause : OrderClause} {order : Order}
    (h : ofClause schema type clause = .ok order) (htrans : TransOn order.compare records) :
    clause.SortsStably records (order.sort records) where
  perm := stableSort_perm order.compare records
  ordered := by
    refine (pairwise_stableSort_of_transOn htrans).imp ?_
    intro a b hnot hbefore
    exact hnot ((compare_eq_lt_iff h b a).mpr hbefore)
  stable := by
    intro record hrecord
    have hsame : ∀ list : List Record, list.filter (clause.Ties · record) =
        list.filter (order.compare · record = .eq) := by
      intro list
      exact List.filter_congr fun a _ => decide_eq_decide.mpr (compare_eq_eq_iff h a record).symm
    rw [hsame, hsame]
    exact filter_stableSort_of_transOn htrans hrecord

/-- A clause whose keys have paths puts one record before another if the first key that tells
them apart does, and lets them tie if no key does. If the keys read no doubles in some records,
these are totally preordered and sorting them is stable, which is what a query does with the
records that it admits before it pages them. -/
theorem sortsStably_sort {clause : OrderClause} {order : Order}
    (h : ofClause schema type clause = .ok order)
    (hvalues : ∀ key ∈ clause.keys, ∀ record ∈ records, (key.read record).isFloat = false) :
    (∀ a b, (order.compare a b = .lt ↔ SortKey.Before clause.keys a b) ∧
        (order.compare a b = .eq ↔ clause.Ties a b)) ∧
      TransOn order.compare records ∧ clause.SortsStably records (order.sort records) ∧
      ∀ (dates : DateStyle) (query : Query) (pipeline : Pipeline) (stored : List Record),
        Pipeline.ofQuery schema dates query = .ok pipeline → query.entityType = type →
          query.order = some clause → stored.filter pipeline.admits = records →
            pipeline.run stored = (paginate query.skip query.top (order.sort records)).map
              (shape query.outputTree) := by
  have htrans := transOn_compare h hvalues
  refine ⟨fun a b => ⟨compare_eq_lt_iff h a b, compare_eq_eq_iff h a b⟩, htrans,
    sortsStably_of_transOn h htrans, ?_⟩
  intro dates query pipeline stored hpipeline htype horder hadmitted
  have hstage := (Pipeline.exists_stages_of_ofQuery hpipeline).2.1
  rw [horder, htype] at hstage
  have hsame : order = pipeline.order := Except.ok.inj (h.symm.trans hstage)
  rw [Pipeline.run_eq hpipeline, hadmitted, hsame]

/-- Employees from the oldest to the youngest, those of one age by their names. -/
def eldestFirst : OrderClause := ⟨[⟨"age", some .descending⟩, ⟨" name", none⟩]⟩

/-- An employee with a number, a name and an age. -/
def employee (id name : String) (age : Value) : Record :=
  [("id", .string id), ("name", .string name), ("age", age)]

/-- Employees of which two are told apart by neither key and one has no age. -/
def employees : List Record :=
  [employee "e1" "Ivan" (.int 30), employee "e2" "Olga" .null, employee "e3" "Ivan" (.int 41),
    employee "e4" "Anna" (.int 30), employee "e5" "Ivan" (.int 30)]

theorem sortsStably_sort_employees :
    ∃ order, ofClause Sample.schema "employee" eldestFirst = .ok order ∧
      (∀ key ∈ eldestFirst.keys, ∀ record ∈ employees, (key.read record).isFloat = false) ∧
      TransOn order.compare employees ∧ eldestFirst.SortsStably employees (order.sort employees) ∧
      order.sort employees =
        [employee "e3" "Ivan" (.int 41), employee "e4" "Anna" (.int 30),
          employee "e1" "Ivan" (.int 30), employee "e5" "Ivan" (.int 30),
          employee "e2" "Olga" .null] := by
  have h : ofClause Sample.schema "employee" eldestFirst =
      .ok ⟨[⟨["age"], true⟩, ⟨["name"], false⟩]⟩ := rfl
  have hvalues : ∀ key ∈ eldestFirst.keys, ∀ record ∈ employees,
      (key.read record).isFloat = false := by
    decide +kernel
  obtain ⟨_, htrans, hsorts, _⟩ := sortsStably_sort h hvalues
  exact ⟨_, h, hvalues, htrans, hsorts, by rfl⟩

end Order

end Rows

end EntityQuery
