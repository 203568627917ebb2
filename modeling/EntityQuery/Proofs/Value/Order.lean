import EntityQuery.Value.Order

/-!
# Values that do not compare

Lists compare with nothing, and only null compares with null. So a list can be replaced
by any other list without a comparison or an order of sorting noticing.
-/

namespace EntityQuery.Value

/-- The value is an instant. -/
def isInstant (value : Value) : Bool := value.asInstant?.isSome

/-- The value is a list. -/
def isList (value : Value) : Bool := value.asList?.isSome

/-- Nothing but null compares with null. -/
theorem compare?_null_left {value : Value} (h : value.isNull = false) :
    Value.null.compare? value = none := by
  cases value with
  | null => cases h
  | _ => rfl

/-- Null is of a kind of its own. -/
theorem kindRank_ne_of_isNull {left right : Value} (hleft : left.isNull = false)
    (hright : right.isNull = true) : left.kindRank ≠ right.kindRank := by
  cases right with
  | null => cases left <;> simp_all [kindRank, isNull]
  | _ => cases hright

/-- A list is a list of some items. -/
theorem exists_list_of_isList {value : Value} (h : value.isList = true) :
    ∃ items, value = .list items := by
  cases value with
  | list items => exact ⟨items, rfl⟩
  | _ => cases h

/-- A list compares with nothing on its right. -/
theorem compare?_list_left (items : List Value) (value : Value) :
    (Value.list items).compare? value = none := by
  cases value <;> rfl

/-- A list compares with nothing on its left. -/
theorem compare?_list_right (value : Value) (items : List Value) :
    value.compare? (Value.list items) = none := by
  cases value <;> rfl

/-- Two values are equal, or both are lists. -/
def EqualOrLists (before after : Value) : Prop :=
  after = before ∨ before.isList = true ∧ after.isList = true

namespace EqualOrLists

variable {before after other : Value}

theorem refl (value : Value) : EqualOrLists value value := .inl rfl

theorem compare?_left (h : EqualOrLists before after) :
    after.compare? other = before.compare? other := by
  rcases h with rfl | ⟨hbefore, hafter⟩
  · rfl
  · obtain ⟨_, rfl⟩ := exists_list_of_isList hbefore
    obtain ⟨_, rfl⟩ := exists_list_of_isList hafter
    rw [compare?_list_left, compare?_list_left]

theorem compare?_right (h : EqualOrLists before after) :
    other.compare? after = other.compare? before := by
  rcases h with rfl | ⟨hbefore, hafter⟩
  · rfl
  · obtain ⟨_, rfl⟩ := exists_list_of_isList hbefore
    obtain ⟨_, rfl⟩ := exists_list_of_isList hafter
    rw [compare?_list_right, compare?_list_right]

theorem kindRank_eq (h : EqualOrLists before after) : after.kindRank = before.kindRank := by
  rcases h with rfl | ⟨hbefore, hafter⟩
  · rfl
  · obtain ⟨_, rfl⟩ := exists_list_of_isList hbefore
    obtain ⟨_, rfl⟩ := exists_list_of_isList hafter
    rfl

theorem isNull_eq (h : EqualOrLists before after) : after.isNull = before.isNull := by
  rcases h with rfl | ⟨hbefore, hafter⟩
  · rfl
  · obtain ⟨_, rfl⟩ := exists_list_of_isList hbefore
    obtain ⟨_, rfl⟩ := exists_list_of_isList hafter
    rfl

theorem asInstant?_eq (h : EqualOrLists before after) :
    after.asInstant? = before.asInstant? := by
  rcases h with rfl | ⟨hbefore, hafter⟩
  · rfl
  · obtain ⟨_, rfl⟩ := exists_list_of_isList hbefore
    obtain ⟨_, rfl⟩ := exists_list_of_isList hafter
    rfl

end EqualOrLists

/-- Sorting does not tell lists apart. -/
theorem sortCompare_of_equalOrLists {a a' b b' : Value} (ha : EqualOrLists a a')
    (hb : EqualOrLists b b') : a'.sortCompare b' = a.sortCompare b := by
  rw [sortCompare, sortCompare, ha.compare?_left, hb.compare?_right, ha.kindRank_eq,
    hb.kindRank_eq]

end EntityQuery.Value
