import EntityQuery.Proofs.Rows.Sorting

/-!
# The pages of an answer

The records that a query admits are sorted before they are paged, and every page of a query is cut
from the same sorted records. So the pages of one size, put one behind the other, are the answer
without paging, wherever records that tie meet the end of a page.
-/

namespace EntityQuery.Rows

/-- The rows of page after page from the one with a number on, as long as a page begins before the
end of what there is in total. -/
def gather (size total : Nat) (page : Nat → List Record) (number : Nat) : List Record :=
  if 0 < size ∧ number * size < total then
    page number ++ gather size total page (number + 1)
  else []
termination_by total - number * size
decreasing_by
  rw [Nat.succ_mul]
  omega

/-- Pages that are cut from a list one behind the other, gathered from one of them on, give what the
pages before it have left. -/
theorem gather_eq_drop {size : Nat} {page : Nat → List Record} {rows : List Record}
    (hsize : 0 < size) (hpage : ∀ number, page number = (rows.drop (number * size)).take size)
    (number : Nat) : gather size rows.length page number = rows.drop (number * size) := by
  fun_induction gather size rows.length page number with
  | case1 number hmore ih =>
    rw [ih, hpage, Nat.succ_mul, ← List.drop_drop, List.take_append_drop]
  | case2 number hdone =>
    have hpassed : rows.length ≤ number * size := by omega
    exact (List.drop_eq_nil_of_le hpassed).symm

namespace Pipeline

variable {schema : Schema} {dates : DateStyle} {query : Query} {pipeline : Pipeline}

/-- What is looked up for a query does not depend on the page that is wanted. -/
theorem ofQuery_paged (h : ofQuery schema dates query = .ok pipeline) (skip top : Option Nat) :
    ofQuery schema dates { query with skip, top } = .ok { pipeline with skip, top } := by
  rw [ofQuery] at h ⊢
  obtain ⟨test, htest, h⟩ := bind_eq_ok_iff.mp h
  obtain ⟨order, horder, h⟩ := bind_eq_ok_iff.mp h
  obtain rfl := pure_eq_ok_iff.mp h
  exact bind_eq_ok_iff.mpr ⟨test, htest, bind_eq_ok_iff.mpr ⟨order, horder, rfl⟩⟩

/-- The answer without paging has a row for every record that is admitted. -/
theorem length_run_unpaged (pipeline : Pipeline) (records : List Record) :
    ({ pipeline with skip := none, top := none }.run records).length =
      (records.filter pipeline.admits).length := by
  have hsort := stableSort_perm pipeline.order.compare (records.filter pipeline.admits)
  exact (List.length_map _).trans hsort.length_eq

/-- A page is a part of the answer without paging. -/
theorem run_page (pipeline : Pipeline) (skip top : Nat) (records : List Record) :
    { pipeline with skip := some skip, top := some top }.run records =
      (({ pipeline with skip := none, top := none }.run records).drop skip).take top := by
  simp only [run, finish, paginate, Option.getD_some, Option.getD_none, List.drop_zero,
    List.map_take, List.map_drop]
  rfl

/-- If a query can be run, so can each of its pages of some size, and it can be run without paging.
Every page is its part of the answer without paging, and all pages that begin before the number of
admitted records, one behind the other, are the whole of it. -/
theorem pages_tile_answer (h : ofQuery schema dates query = .ok pipeline) {size : Nat}
    (hsize : 0 < size) :
    ∃ (whole : Pipeline) (page : Nat → Pipeline),
      ofQuery schema dates { query with skip := none, top := none } = .ok whole ∧
      (∀ number, ofQuery schema dates
        { query with skip := some (number * size), top := some size } = .ok (page number)) ∧
      ∀ records : List Record,
        (∀ number, (page number).run records =
          ((whole.run records).drop (number * size)).take size) ∧
        gather size (records.filter pipeline.admits).length
          (fun number => (page number).run records) 0 = whole.run records := by
  refine ⟨{ pipeline with skip := none, top := none },
    fun number => { pipeline with skip := some (number * size), top := some size },
    ofQuery_paged h none none, fun number => ofQuery_paged h _ _, fun records => ?_⟩
  have hpage := fun number => run_page pipeline (number * size) size records
  refine ⟨hpage, ?_⟩
  rw [← length_run_unpaged, gather_eq_drop hsize hpage, Nat.zero_mul, List.drop_zero]

/-- A query for the names of all employees, the eldest first. -/
def eldestNames : Query where
  entityType := "employee"
  identity := none
  projectionName := none
  predicate := none
  order := some Order.eldestFirst
  top := some 10
  skip := none
  count := false
  dataType := none
  selectMode := .explicit
  selectTree := ⟨"employee", "id", ["id", "name"], [], none⟩
  extendTree := ⟨"employee", "id", ["id", "age"], [], none⟩
  customParams := []

/-- Five employees make a page of three and a page of two. The two who tie are on both sides of
the border. -/
theorem pages_tile_employees :
    let row (id name : String) : Record := [("id", .string id), ("name", .string name)]
    ∃ (pipeline whole : Pipeline) (page : Nat → Pipeline),
      ofQuery Sample.schema .standard eldestNames = .ok pipeline ∧
      (Order.employees.filter pipeline.admits).length = 5 ∧
      gather 3 5 (fun number => (page number).run Order.employees) 0 =
        whole.run Order.employees ∧
      (page 0).run Order.employees = [row "e3" "Ivan", row "e4" "Anna", row "e1" "Ivan"] ∧
      (page 1).run Order.employees = [row "e5" "Ivan", row "e2" "Olga"] := by
  intro row
  have h : ofQuery Sample.schema .standard eldestNames =
      .ok ⟨.standard, none, ⟨[⟨["age"], true⟩, ⟨["name"], false⟩]⟩, none, some 10,
        eldestNames.selectTree⟩ := rfl
  obtain ⟨whole, page, hwhole, hpages, htile⟩ := pages_tile_answer h (show 0 < 3 by decide)
  refine ⟨_, whole, page, h, rfl, (htile Order.employees).2, ?_, ?_⟩
  · have hfirst := Except.ok.inj ((ofQuery_paged h (some 0) (some 3)).symm.trans (hpages 0))
    rw [← hfirst]
    rfl
  · have hsecond := Except.ok.inj ((ofQuery_paged h (some 3) (some 3)).symm.trans (hpages 1))
    rw [← hsecond]
    rfl

end Pipeline

end EntityQuery.Rows
