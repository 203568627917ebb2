import EntityQuery.Proofs.Outcome
import EntityQuery.Rows.Pipeline

/-!
# Tests of joined predicates

Joining extends a group on the left or makes a new one, so the same predicates can end
up in trees of different shapes. The verdict does not depend on the shape: a joined
predicate has a test exactly when both parts have one, and its verdict is that of the
connective on theirs. The filter of a query with a wanted identity is such a predicate.
-/

namespace EntityQuery

/-- The verdict of a connective on two verdicts. -/
def Connective.apply : Connective → Bool → Bool → Bool
  | and, a, b => a && b
  | or, a, b => a || b

namespace Predicate

/-- The paths of a group are those of its members. -/
theorem pathsOfMembers_eq_flatMap (outer : String) (members : List Predicate) :
    pathsOfMembers outer members = members.flatMap (pathsBelow outer) := by
  induction members with
  | nil => rfl
  | cons member members ih => rw [pathsOfMembers, ih, List.flatMap_cons]

/-- What holds of a group if it holds of the members holds of joined predicates if it holds of
both, whether a group was extended or a new one was made. -/
theorem join_iff {P : Predicate → Prop}
    (hgroup : ∀ connective members, P (group connective members) ↔ ∀ member ∈ members, P member)
    {connective : Connective} {left right : Predicate} :
    P (join connective left right) ↔ P left ∧ P right := by
  have hpair : P (group connective [left, right]) ↔ P left ∧ P right := by simp [hgroup]
  cases left with
  | group inner members =>
    by_cases hinner : inner = connective
    · simp only [join, hinner, if_true, hgroup, List.forall_mem_append, List.forall_mem_singleton]
    · simp only [join, hinner, if_false]
      exact hpair
  | _ => exact hpair

end Predicate

/-- What holds of joined predicates if it holds of both holds of the filter with the wanted
identity if it holds of the filter and of the comparison with the identity. -/
theorem Query.forall_effectivePredicate_iff {query : Query} {P : Predicate → Prop}
    (hgroup : ∀ connective members,
      P (.group connective members) ↔ ∀ member ∈ members, P member) :
    (∀ predicate, query.effectivePredicate = some predicate → P predicate) ↔
      (∀ predicate, query.predicate = some predicate → P predicate) ∧
        ∀ predicate, query.identityPredicate = some predicate → P predicate := by
  unfold effectivePredicate
  cases query.predicate <;> cases query.identityPredicate <;>
    simp [Predicate.conjoin?, Predicate.and, Predicate.join_iff hgroup]

namespace Rows

namespace Test

@[simp] theorem passes_group_nil_and (style : DateStyle) (record : Record) :
    (group .and []).passes style record = true := rfl

@[simp] theorem passes_group_nil_or (style : DateStyle) (record : Record) :
    (group .or []).passes style record = false := rfl

/-- A group tests its first member and the others. -/
theorem passes_group_cons (style : DateStyle) (connective : Connective) (member : Test)
    (members : List Test) (record : Record) :
    (group connective (member :: members)).passes style record =
      connective.apply (member.passes style record)
        ((group connective members).passes style record) := by
  cases connective <;> rfl

/-- A group of one member has its verdict. -/
@[simp] theorem passes_group_singleton (style : DateStyle) (connective : Connective)
    (member : Test) (record : Record) :
    (group connective [member]).passes style record = member.passes style record := by
  rw [passes_group_cons]
  cases connective <;> simp [Connective.apply]

/-- Groups of one connective can be put together. -/
theorem passes_group_append (style : DateStyle) (connective : Connective)
    (members others : List Test) (record : Record) :
    (group connective (members ++ others)).passes style record =
      connective.apply ((group connective members).passes style record)
        ((group connective others).passes style record) := by
  induction members with
  | nil => cases connective <;> simp [Connective.apply]
  | cons member members ih =>
    rw [List.cons_append, passes_group_cons, passes_group_cons, ih]
    cases connective <;> simp only [Connective.apply, Bool.and_assoc, Bool.or_assoc]

/-- The members of a list have tests when the first and all others have. -/
theorem ofMembers_cons_eq_ok_iff {schema : Schema} {member : Predicate}
    {members : List Predicate} {type : String} {tests : List Test} :
    ofMembers schema (member :: members) type = .ok tests ↔
      ∃ first, ofPredicate schema member type = .ok first ∧
        ∃ rest, ofMembers schema members type = .ok rest ∧ first :: rest = tests := by
  rw [ofMembers, bind_eq_ok_iff]
  simp only [bind_eq_ok_iff, pure_eq_ok_iff]

/-- The members of a list that was put together have tests when both parts have. -/
theorem ofMembers_append_eq_ok_iff {schema : Schema} {members others : List Predicate}
    {type : String} {tests : List Test} :
    ofMembers schema (members ++ others) type = .ok tests ↔
      ∃ front, ofMembers schema members type = .ok front ∧
        ∃ back, ofMembers schema others type = .ok back ∧ front ++ back = tests := by
  induction members generalizing tests with
  | nil => simp [ofMembers]
  | cons member members ih =>
    simp only [List.cons_append, ofMembers_cons_eq_ok_iff, ih]
    constructor
    · rintro ⟨first, hfirst, _, ⟨front, hfront, back, hback, rfl⟩, rfl⟩
      exact ⟨first :: front, ⟨first, hfirst, front, hfront, rfl⟩, back, hback, rfl⟩
    · rintro ⟨_, ⟨first, hfirst, front, hfront, rfl⟩, back, hback, rfl⟩
      exact ⟨first, hfirst, front ++ back, ⟨front, hfront, back, hback, rfl⟩, rfl⟩

/-- One predicate alone has the list of its test. -/
theorem ofMembers_singleton_eq_ok_iff {schema : Schema} {member : Predicate} {type : String}
    {tests : List Test} :
    ofMembers schema [member] type = .ok tests ↔
      ∃ test, ofPredicate schema member type = .ok test ∧ [test] = tests := by
  rw [ofMembers_cons_eq_ok_iff]
  simp [ofMembers]

/-- The test of a group is the group of the tests. -/
theorem ofPredicate_group_eq_ok_iff {schema : Schema} {connective : Connective}
    {members : List Predicate} {type : String} {test : Test} :
    ofPredicate schema (.group connective members) type = .ok test ↔
      ∃ tests, ofMembers schema members type = .ok tests ∧ group connective tests = test := by
  rw [ofPredicate, bind_eq_ok_iff]
  simp only [pure_eq_ok_iff]

/-- A group of members with one more behind them has the verdict of the connective on
those of the shorter group and of the last member. -/
theorem ofPredicate_group_concat {schema : Schema} {connective : Connective}
    {members : List Predicate} {last : Predicate} {type : String} {test : Test}
    (h : ofPredicate schema (.group connective (members ++ [last])) type = .ok test) :
    ∃ front back, ofMembers schema members type = .ok front ∧
      ofPredicate schema last type = .ok back ∧
      ∀ style record, test.passes style record =
        connective.apply ((group connective front).passes style record)
          (back.passes style record) := by
  obtain ⟨tests, htests, rfl⟩ := ofPredicate_group_eq_ok_iff.mp h
  obtain ⟨front, hfront, _, hlast, rfl⟩ := ofMembers_append_eq_ok_iff.mp htests
  obtain ⟨back, hback, rfl⟩ := ofMembers_singleton_eq_ok_iff.mp hlast
  refine ⟨front, back, hfront, hback, fun style record => ?_⟩
  rw [passes_group_append, passes_group_singleton]

/-- A new group of two has the verdict of the connective on theirs. -/
theorem ofPredicate_pair {schema : Schema} {connective : Connective} {left right : Predicate}
    {type : String} {test : Test}
    (h : ofPredicate schema (.group connective [left, right]) type = .ok test) :
    ∃ leftTest rightTest, ofPredicate schema left type = .ok leftTest ∧
      ofPredicate schema right type = .ok rightTest ∧
      ∀ style record, test.passes style record =
        connective.apply (leftTest.passes style record) (rightTest.passes style record) := by
  have hconcat : ofPredicate schema (.group connective ([left] ++ [right])) type = .ok test := h
  obtain ⟨front, back, hfront, hback, hpasses⟩ := ofPredicate_group_concat hconcat
  obtain ⟨leftTest, hleft, rfl⟩ := ofMembers_singleton_eq_ok_iff.mp hfront
  refine ⟨leftTest, back, hleft, hback, fun style record => ?_⟩
  rw [hpasses, passes_group_singleton]

/-- The test of a joined predicate has the verdict of the connective on the tests of its
parts, whether a group was extended or a new one was made. -/
theorem ofPredicate_join {schema : Schema} {connective : Connective} {left right : Predicate}
    {type : String} {test : Test}
    (h : ofPredicate schema (Predicate.join connective left right) type = .ok test) :
    ∃ leftTest rightTest, ofPredicate schema left type = .ok leftTest ∧
      ofPredicate schema right type = .ok rightTest ∧
      ∀ style record, test.passes style record =
        connective.apply (leftTest.passes style record) (rightTest.passes style record) := by
  cases left with
  | group inner members =>
    by_cases hinner : inner = connective
    · subst hinner
      simp only [Predicate.join, if_true] at h
      obtain ⟨front, back, hfront, hback, hpasses⟩ := ofPredicate_group_concat h
      exact ⟨group inner front, back, ofPredicate_group_eq_ok_iff.mpr ⟨front, hfront, rfl⟩,
        hback, hpasses⟩
    · simp only [Predicate.join, hinner, if_false] at h
      exact ofPredicate_pair h
  | _ => exact ofPredicate_pair h

end Test

end Rows

end EntityQuery
