import EntityQuery.Predicate.Validity
import EntityQuery.Proofs.Outcome

/-!
# What valid predicates are made of

A predicate is valid exactly if its own operands and paths pass their checks and its parts are
valid; a group has to have two members besides.
-/

namespace EntityQuery

/-- A check passes together with what follows it if both pass. -/
theorem check_bind_eq_ok_iff {check : Except Fault Unit} {rest : Unit → Except Fault Unit} :
    (check >>= rest) = .ok () ↔ check = .ok () ∧ rest () = .ok () := by
  rw [bind_eq_ok_iff]
  exact ⟨fun ⟨_, hcheck, hrest⟩ => ⟨hcheck, hrest⟩, fun h => ⟨(), h⟩⟩

namespace Predicate

variable {left right : Operand} {op : Comparison}

/-- A comparison is valid if its operands pass their checks. -/
theorem validate_compare_iff : (compare left op right).validate = .ok () ↔
    checkOperand left = .ok () ∧ checkOperand right = .ok () := by
  rw [validate, check_bind_eq_ok_iff]

/-- A comparison of dates is valid if its operands pass the checks of any operand and those of
dates. -/
theorem validate_compareDates_iff {timeless : Bool} :
    (compareDates left op right timeless).validate = .ok () ↔
      (checkOperand left = .ok () ∧ checkOperand right = .ok ()) ∧
        checkDateOperand left = .ok () ∧ checkDateOperand right = .ok () := by
  rw [validate, check_bind_eq_ok_iff, check_bind_eq_ok_iff, check_bind_eq_ok_iff, and_assoc]

/-- The members of a group are checked one by one. -/
theorem validateMembers_iff {members : List Predicate} :
    validateMembers members = .ok () ↔ ∀ member ∈ members, member.validate = .ok () := by
  induction members with
  | nil => simp [validateMembers]
  | cons member members ih =>
    rw [validateMembers, check_bind_eq_ok_iff, List.forall_mem_cons, ih]

/-- A group is valid if it has two members and all of them are valid. -/
theorem validate_group_iff {connective : Connective} {members : List Predicate} :
    (group connective members).validate = .ok () ↔
      2 ≤ members.length ∧ ∀ member ∈ members, member.validate = .ok () := by
  rw [validate, ← validateMembers_iff]
  by_cases hfew : members.length < 2
  · simp only [hfew, if_true, throw_bind_ne_ok, Nat.not_le.mpr hfew, false_and]
  · simp only [hfew, if_false, Nat.not_lt.mp hfew, true_and]

/-- A quantified predicate is valid if its path passes its check and its body is valid. -/
theorem validate_quantified_iff {path : String} {quantifier : Quantifier} {body : Predicate} :
    (quantified path quantifier body).validate = .ok () ↔
      checkPath path = .ok () ∧ body.validate = .ok () := by
  rw [validate, check_bind_eq_ok_iff]

/-- The expression of a valid type assertion passes the check of a path. -/
theorem checkPath_of_validate_isOf {path typeName : String}
    (h : (isOf (some path) typeName).validate = .ok ()) : checkPath path = .ok () := by
  rw [validate] at h
  by_cases hblank : Text.isBlankText typeName = true
  · simp [hblank] at h
  · rwa [if_neg hblank] at h

end Predicate

end EntityQuery
