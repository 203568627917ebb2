import EntityQuery.Proofs.Decimal.WholeNumbers
import EntityQuery.Value.Json
import EntityQuery.Value.Order

/-!
# Numbers with one text

A whole number and a double with the same text compare alike with every double, because both
are nearest to what the text denotes. With another whole number they compare alike unless both
whole numbers round to one double, which the comparison with the double does not tell apart.
-/

namespace EntityQuery.Value

open Decimal

/-- The value is a whole number or a double. -/
inductive IsNumber : Value → Prop where
  /-- A whole number. -/
  | int (n : Int64) : IsNumber (.int n)
  /-- A double. -/
  | float (x : Float) : IsNumber (.float x)

/-- A whole number is compared with a whole number and with a double, and another whole number
in the place of the first has the same nearest double. -/
def Blurs (stored first second : Value) : Prop :=
  ∃ m n x, stored = .int m ∧ m ≠ n ∧ rank (floatOfInt m) = rank (floatOfInt n) ∧
    (first = .int n ∧ second = .float x ∨ first = .float x ∧ second = .int n)

/-- The nearest double of a whole number. -/
theorem nearest_floatOfInt (n : Int64) : Nearest n.toInt (floatOfInt n) := by
  have hlow := n.le_toInt
  have hhigh := n.toInt_lt
  exact nearest_ofInt (by omega)

/-- A whole number and a double that are written alike have one rank. -/
theorem rank_floatOfInt_of_text_eq {n : Int64} {x : Float}
    (h : (Value.int n).text = (Value.float x).text) : rank (floatOfInt n) = rank x := by
  have hquantity : quantity? (FloatFormat.plain.text x).toList = some (n.toInt : ℚ) := by
    rw [← quantity?_toString]
    exact congrArg (fun text : String => quantity? text.toList) h.symm
  exact (nearest_floatOfInt n).rank_eq (nearest_of_quantity? hquantity)

/-- Whole numbers that are written alike are equal. -/
theorem int_eq_of_text_eq {m n : Int64} (h : (Value.int m).text = (Value.int n).text) :
    m = n := by
  have hquantity := congrArg (fun text : String => quantity? text.toList) h
  have hsame : some (m.toInt : ℚ) = some (n.toInt : ℚ) := by
    rw [← quantity?_toString, ← quantity?_toString]
    exact hquantity
  exact Int64.toInt_inj.mp (by exact_mod_cast Option.some.inj hsame)

/-- Doubles of one rank compare alike. -/
theorem compareFloats_congr {x y : Float} (z : Float) (h : rank x = rank y) :
    compareFloats z x = compareFloats z y := by
  rw [compareFloats, compareFloats, h]

/-- Of a larger whole number the nearest double has a larger rank, if it is another one. -/
theorem rank_floatOfInt_lt {m n : Int64} {i j : Int} (hlt : m.toInt < n.toInt)
    (hne : rank (floatOfInt m) ≠ rank (floatOfInt n)) (hi : rank (floatOfInt m) = some i)
    (hj : rank (floatOfInt n) = some j) : i < j := by
  obtain ⟨i', j', hi', hj', hle⟩ :=
    (nearest_floatOfInt m).rank_le (nearest_floatOfInt n) (Int.cast_le.mpr hlt.le)
  obtain rfl := Option.some.inj (hi.symm.trans hi')
  obtain rfl := Option.some.inj (hj.symm.trans hj')
  refine lt_of_le_of_ne hle ?_
  rintro rfl
  exact hne (hi.trans hj.symm)

/-- Whole numbers compare as their nearest doubles do if they are equal or these differ. -/
theorem compareFloats_floatOfInt {m n : Int64}
    (h : m = n ∨ rank (floatOfInt m) ≠ rank (floatOfInt n)) :
    compareFloats (floatOfInt m) (floatOfInt n) = some (compare m.toInt n.toInt) := by
  obtain ⟨i, hi⟩ := (nearest_floatOfInt m).exists_rank
  obtain ⟨j, hj⟩ := (nearest_floatOfInt n).exists_rank
  rw [compareFloats, hi, hj]
  refine congrArg some ?_
  rcases h with rfl | hne
  · obtain rfl := Option.some.inj (hi.symm.trans hj)
    rw [compare_eq_iff_eq.mpr rfl, compare_eq_iff_eq.mpr rfl]
  · rcases lt_trichotomy m.toInt n.toInt with hlt | heq | hgt
    · rw [compare_lt_iff_lt.mpr hlt, compare_lt_iff_lt.mpr (rank_floatOfInt_lt hlt hne hi hj)]
    · exact absurd (congrArg (fun k => rank (floatOfInt k)) (Int64.toInt_inj.mp heq)) hne
    · rw [compare_gt_iff_gt.mpr hgt,
        compare_gt_iff_gt.mpr (rank_floatOfInt_lt hgt hne.symm hj hi)]

/-- A number compares alike with a whole number and with a double that is written alike, unless
it is a whole number itself that the double does not tell from the other one. -/
theorem compare?_int_eq_float {stored : Value} (hstored : IsNumber stored) {n : Int64} {x : Float}
    (htext : (Value.int n).text = (Value.float x).text)
    (h : ∀ m, stored = .int m → m = n ∨ rank (floatOfInt m) ≠ rank (floatOfInt n)) :
    stored.compare? (.int n) = stored.compare? (.float x) := by
  have hrank := rank_floatOfInt_of_text_eq htext
  cases hstored with
  | int m =>
    have hexact := compareFloats_floatOfInt (h m rfl)
    exact hexact.symm.trans (compareFloats_congr (floatOfInt m) hrank)
  | float y => exact compareFloats_congr y hrank

/-- A number compares alike with two numbers that are written alike. -/
theorem compare?_eq_of_text_eq {stored first second : Value} (hstored : IsNumber stored)
    (hfirst : IsNumber first) (hsecond : IsNumber second) (htext : first.text = second.text)
    (h : ¬ Blurs stored first second) : stored.compare? first = stored.compare? second := by
  cases hfirst with
  | int n =>
    cases hsecond with
    | int k => rw [int_eq_of_text_eq htext]
    | float x =>
      refine compare?_int_eq_float hstored htext fun m hm => ?_
      by_contra hblurs
      rw [not_or, not_not] at hblurs
      exact h ⟨m, n, x, hm, hblurs.1, hblurs.2, .inl ⟨rfl, rfl⟩⟩
  | float x =>
    cases hsecond with
    | int n =>
      refine (compare?_int_eq_float hstored htext.symm fun m hm => ?_).symm
      by_contra hblurs
      rw [not_or, not_not] at hblurs
      exact h ⟨m, n, x, hm, hblurs.1, hblurs.2, .inr ⟨rfl, rfl⟩⟩
    | float y =>
      have hrank : rank x = rank y := rank_eq_of_text_eq htext
      cases hstored with
      | int m => exact compareFloats_congr (floatOfInt m) hrank
      | float z => exact compareFloats_congr z hrank

end EntityQuery.Value
