import Mathlib.Order.Compare
import Mathlib.Data.Int.Order.Basic
import Mathlib.Data.Char
import Mathlib.Tactic.Linarith

/-!
# Comparing place by place

Numbers that are made of a high and a low place compare by the high place first, and texts that
begin with equally long parts compare by those parts first. So a number and the text that spells
it can be compared side by side, one place after the other.
-/

namespace EntityQuery

/-- Natural numbers compare as whole numbers. -/
theorem compare_natCast (a b : Nat) : compare (a : Int) (b : Int) = compare a b := by
  rcases lt_trichotomy a b with h | rfl | h
  · rw [compare_lt_iff_lt.mpr h, compare_lt_iff_lt.mpr (Int.ofNat_lt.mpr h)]
  · rw [compare_eq_iff_eq.mpr rfl, compare_eq_iff_eq.mpr rfl]
  · rw [compare_gt_iff_gt.mpr h, compare_gt_iff_gt.mpr (Int.ofNat_lt.mpr h)]

/-- Adding the same to two numbers does not change how they compare. -/
theorem compare_add_right (a b shift : Int) : compare (a + shift) (b + shift) = compare a b := by
  rcases lt_trichotomy a b with h | rfl | h
  · rw [compare_lt_iff_lt.mpr h, compare_lt_iff_lt.mpr (Int.add_lt_add_right h shift)]
  · rw [compare_eq_iff_eq.mpr rfl, compare_eq_iff_eq.mpr rfl]
  · rw [compare_gt_iff_gt.mpr h, compare_gt_iff_gt.mpr (Int.add_lt_add_right h shift)]

/-- Numbers with a high and a low place compare by the high place first. -/
theorem compare_places {base high high' low low' : Int} (hlow : 0 ≤ low ∧ low < base)
    (hlow' : 0 ≤ low' ∧ low' < base) :
    compare (high * base + low) (high' * base + low') =
      (compare high high').then (compare low low') := by
  have hstep : ∀ {a b c d : Int}, a < b → c < base → 0 ≤ d → a * base + c < b * base + d := by
    intro a b c d hab hc hd
    nlinarith
  rcases lt_trichotomy high high' with h | rfl | h
  · rw [compare_lt_iff_lt.mpr h, compare_lt_iff_lt.mpr (hstep h hlow.2 hlow'.1)]
    rfl
  · rw [Int.add_comm, Int.add_comm (high * base), compare_add_right, compare_eq_iff_eq.mpr rfl]
    rfl
  · rw [compare_gt_iff_gt.mpr h, compare_gt_iff_gt.mpr (hstep h hlow'.2 hlow.1)]
    rfl

/-- The same for natural numbers. -/
theorem compare_natPlaces {base high high' low low' : Nat} (hlow : low < base)
    (hlow' : low' < base) :
    compare (base * high + low) (base * high' + low') =
      (compare high high').then (compare low low') := by
  have hbounds : ∀ n : Nat, n < base → (0 : Int) ≤ n ∧ (n : Int) < base := by
    intro n hn
    constructor <;> omega
  have hplaces : compare ((high : Int) * base + low) ((high' : Int) * base + low') = _ :=
    compare_places (hbounds low hlow) (hbounds low' hlow')
  rw [← compare_natCast, ← compare_natCast high, ← compare_natCast low, ← hplaces]
  push_cast
  rw [Int.mul_comm, Int.mul_comm (base : Int) high']

/-- Lists of characters compare by their order. -/
theorem compare_chars (cs ds : List Char) : compare cs ds = compareOfLessAndEq cs ds := by
  induction cs generalizing ds with
  | nil => cases ds <;> rfl
  | cons c cs ih =>
    cases ds with
    | nil => rfl
    | cons d ds =>
      rw [List.compare_eq_compareLex, List.compareLex_cons_cons, ← List.compare_eq_compareLex, ih]
      rcases lt_trichotomy c d with h | rfl | h
      · have hless : c :: cs < d :: ds := List.cons_lt_cons_iff.mpr (.inl h)
        simp [compareOfLessAndEq, hless, compare_lt_iff_lt.mpr h]
      · simp [compareOfLessAndEq]
      · have hless : ¬(c :: cs < d :: ds) := by
          rw [List.cons_lt_cons_iff]
          rintro (hother | ⟨rfl, _⟩)
          · exact lt_asymm h hother
          · exact lt_irrefl _ h
        have hne : c :: cs ≠ d :: ds := by
          intro heq
          exact ne_of_gt h (List.cons.inj heq).1
        simp [compareOfLessAndEq, hless, hne, compare_gt_iff_gt.mpr h]

/-- Texts compare as the lists of their characters. -/
theorem Text.compare_eq_compare_toList (first second : String) :
    compare first second = compare first.toList second.toList := by
  rw [compare_chars]
  by_cases h : first.toList < second.toList
  · exact (if_pos h).trans (if_pos h).symm
  · refine (if_neg h).trans (Eq.trans ?_ (if_neg h).symm)
    by_cases heq : first = second
    · rw [if_pos heq, if_pos (congrArg String.toList heq)]
    · rw [if_neg heq, if_neg fun hsame => heq (String.ext hsame)]

/-- A text compares by its first character and then by the rest. -/
theorem compare_cons (c d : Char) (cs ds : List Char) :
    compare (c :: cs) (d :: ds) = (compare c d).then (compare cs ds) := by
  rw [List.compare_eq_compareLex, List.compareLex_cons_cons]

/-- A text that begins like another one compares by what follows. -/
theorem compare_cons_self (c : Char) (cs ds : List Char) :
    compare (c :: cs) (c :: ds) = compare cs ds := by
  rw [compare_cons, compare_eq_iff_eq.mpr rfl]
  rfl

/-- Texts that begin with equally long parts compare by these first. -/
theorem compare_append {front front' : List Char} (back back' : List Char)
    (h : front.length = front'.length) :
    compare (front ++ back) (front' ++ back') =
      (compare front front').then (compare back back') := by
  induction front generalizing front' with
  | nil =>
    obtain rfl := List.length_eq_zero_iff.mp h.symm
    rfl
  | cons c front ih =>
    cases front' with
    | nil => cases h
    | cons c' front' =>
      rw [List.cons_append, List.cons_append, compare_cons, compare_cons,
        ih (Nat.succ.inj h), Ordering.then_assoc]

/-- A text compares equal with itself. -/
theorem compare_chars_self (cs : List Char) : compare cs cs = .eq := by
  induction cs with
  | nil => rfl
  | cons c cs ih => rw [compare_cons_self, ih]

end EntityQuery
