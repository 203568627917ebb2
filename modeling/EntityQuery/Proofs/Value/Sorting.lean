import EntityQuery.Proofs.Value.Numbers

/-!
# The order of sorting

For sorting, values stand by their kinds and within one kind as they compare. Two whole numbers
compare exactly, a whole number and a double after rounding, and a double that is not a number
compares with nothing, so that it ties with every number. A double can therefore tie with two
numbers of which one comes before the other. Values among which no double does so are sorted by
a total preorder, and other values are not.
-/

namespace EntityQuery.Value

open Decimal

/-- A value hides that two numbers differ: it ties with both for sorting. A double that is not a
number hides every difference, and any other double the one between whole numbers that round to
it. -/
inductive Hides : Value → Value → Value → Prop where
  /-- Nothing compares with what is not a number. -/
  | undefined {x : Float} {a c : Value} {o : Ordering} (hx : rank x = none) (ha : IsNumber a)
      (hc : IsNumber c) (hcompare : a.compare? c = some o) (hdiffer : o ≠ .eq) :
      Hides (.float x) a c
  /-- Whole numbers round to the double. -/
  | rounded {x : Float} {m n : Int64} (hm : rank (floatOfInt m) = rank x)
      (hn : rank (floatOfInt n) = rank x) (hdiffer : m ≠ n) : Hides (.float x) (.int m) (.int n)

/-- The value is a double. -/
def isFloat : Value → Bool
  | float _ => true
  | _ => false

/-- Only doubles hide differences. -/
theorem Hides.isFloat {a b c : Value} (h : Hides b a c) : b.isFloat = true := by
  cases h <;> rfl

/-- The double that a number stands for in comparisons with doubles. -/
def double : Value → Float
  | int n => floatOfInt n
  | float x => x
  | _ => 0

/-- Doubles for sorting: what is not a number ties with every number. -/
def sortFloats (x y : Float) : Ordering := (compareFloats x y).getD .eq

/-- Doubles with ranks are sorted by their ranks. -/
theorem sortFloats_of_rank {x y : Float} {i j : Int} (hx : rank x = some i)
    (hy : rank y = some j) : sortFloats x y = compare i j := by
  rw [sortFloats, compareFloats, hx, hy]
  rfl

/-- A double without a rank ties with every double. -/
theorem sortFloats_of_rank_none {x y : Float} (h : rank x = none ∨ rank y = none) :
    sortFloats x y = .eq := by
  rw [sortFloats, compareFloats]
  rcases h with hx | hy
  · rw [hx]
    rfl
  · rw [hy]
    cases rank x <;> rfl

/-- Around a double that has a rank the order of doubles is transitive. -/
theorem isLE_sortFloats_trans {x y z : Float} {j : Int} (hy : rank y = some j)
    (hxy : (sortFloats x y).isLE = true) (hyz : (sortFloats y z).isLE = true) :
    (sortFloats x z).isLE = true := by
  cases hx : rank x with
  | none => rw [sortFloats_of_rank_none (.inl hx)]; rfl
  | some i =>
    cases hz : rank z with
    | none => rw [sortFloats_of_rank_none (.inr hz)]; rfl
    | some k =>
      rw [sortFloats_of_rank hx hy] at hxy
      rw [sortFloats_of_rank hy hz] at hyz
      rw [sortFloats_of_rank hx hz]
      exact Std.TransCmp.isLE_trans hxy hyz

/-- Numbers of which one is a double are sorted as doubles. -/
theorem sortCompare_eq_sortFloats {a b : Value} (ha : IsNumber a) (hb : IsNumber b)
    (hdouble : (∃ x, a = .float x) ∨ ∃ y, b = .float y) :
    a.sortCompare b = sortFloats a.double b.double := by
  cases ha with
  | int m =>
    cases hb with
    | int n => rcases hdouble with ⟨_, h⟩ | ⟨_, h⟩ <;> cases h
    | float y => rfl
  | float x => cases hb <;> rfl

/-- Rounding keeps the order of whole numbers. -/
theorem isLE_sortFloats_floatOfInt {m n : Int64} (h : m.toInt ≤ n.toInt) :
    (sortFloats (floatOfInt m) (floatOfInt n)).isLE = true := by
  obtain ⟨i, j, hi, hj, hle⟩ :=
    (nearest_floatOfInt m).rank_le (nearest_floatOfInt n) (Int.cast_le.mpr h)
  rw [sortFloats_of_rank hi hj, Ordering.isLE_iff_ne_gt]
  intro hgt
  have hlt := compare_gt_iff_gt.mp hgt
  omega

/-- Whole numbers are sorted by their size. -/
theorem isLE_sortCompare_int {m n : Int64} :
    ((Value.int m).sortCompare (.int n)).isLE = true ↔ m.toInt ≤ n.toInt := by
  have hcompare : (Value.int m).sortCompare (.int n) = compare m.toInt n.toInt := rfl
  rw [hcompare, Ordering.isLE_iff_ne_gt]
  exact (not_congr compare_gt_iff_gt).trans not_lt

/-- Numbers that are sorted as doubles or exactly are in the same order as doubles. -/
theorem isLE_sortFloats_of_sortCompare {a b : Value} (ha : IsNumber a) (hb : IsNumber b)
    (h : (a.sortCompare b).isLE = true) : (sortFloats a.double b.double).isLE = true := by
  cases ha with
  | int m =>
    cases hb with
    | int n => exact isLE_sortFloats_floatOfInt (isLE_sortCompare_int.mp h)
    | float y => exact h
  | float x => cases hb <;> exact h

/-- The numbers are the values of one kind. -/
theorem isNumber_iff_kindRank {a : Value} : IsNumber a ↔ a.kindRank = 2 := by
  constructor
  · intro h
    cases h <;> rfl
  · intro h
    cases a with
    | int n => exact .int n
    | float x => exact .float x
    | null | bool _ | string _ | instant _ | list _ | record _ => cases h

/-- The order of numbers is transitive unless the number between two others hides that they
differ: rounding keeps the order, so if a double stands between two whole numbers the wrong way,
both are rounded to it. -/
theorem isLE_trans_of_isNumber {a b c : Value} (ha : IsNumber a) (hb : IsNumber b)
    (hc : IsNumber c) (hab : (a.sortCompare b).isLE = true) (hbc : (b.sortCompare c).isLE = true)
    (hhides : ¬ Hides b a c) : (a.sortCompare c).isLE = true := by
  have habDouble := isLE_sortFloats_of_sortCompare ha hb hab
  have hbcDouble := isLE_sortFloats_of_sortCompare hb hc hbc
  cases hrank : rank b.double with
  | none =>
    have hnoInteger : ∃ x, b = .float x := by
      cases hb with
      | int n =>
        obtain ⟨i, hi⟩ := (nearest_floatOfInt n).exists_rank
        cases hrank.symm.trans hi
      | float x => exact ⟨x, rfl⟩
    obtain ⟨x, rfl⟩ := hnoInteger
    rw [sortCompare, isNumber_iff_kindRank.mp ha, isNumber_iff_kindRank.mp hc]
    cases hcompare : a.compare? c with
    | none => rfl
    | some o =>
      by_cases hdiffer : o = .eq
      · rw [hdiffer]
        rfl
      · exact absurd (.undefined hrank ha hc hcompare hdiffer) hhides
  | some j =>
    by_cases hdouble : (∃ x, a = .float x) ∨ ∃ z, c = .float z
    · rw [sortCompare_eq_sortFloats ha hc hdouble]
      exact isLE_sortFloats_trans hrank habDouble hbcDouble
    · cases ha with
      | float x => exact absurd (.inl ⟨x, rfl⟩) hdouble
      | int m =>
        cases hc with
        | float z => exact absurd (.inr ⟨z, rfl⟩) hdouble
        | int n =>
          rw [isLE_sortCompare_int]
          by_contra hgt
          have hle : n.toInt ≤ m.toInt := by omega
          cases hb with
          | int k =>
            have hmk := isLE_sortCompare_int.mp hab
            have hkn := isLE_sortCompare_int.mp hbc
            omega
          | float x =>
            obtain ⟨i, k, hi, hk, hik⟩ :=
              (nearest_floatOfInt n).rank_le (nearest_floatOfInt m) (Int.cast_le.mpr hle)
            have hx : rank x = some j := hrank
            have hkj : k ≤ j := by
              rw [double, double, sortFloats_of_rank hk hx] at habDouble
              simpa [Ordering.isLE_iff_ne_gt, compare_gt_iff_gt] using habDouble
            have hji : j ≤ i := by
              rw [double, double, sortFloats_of_rank hx hi] at hbcDouble
              simpa [Ordering.isLE_iff_ne_gt, compare_gt_iff_gt] using hbcDouble
            have hne : m ≠ n := by
              rintro rfl
              omega
            refine hhides (.rounded ?_ ?_ hne)
            · rw [hk, hx, show k = j by omega]
            · rw [hi, hx, show i = j by omega]

/-- A value that is not after another one is not of a later kind. -/
theorem kindRank_le_of_isLE {a b : Value} (h : (a.sortCompare b).isLE = true) :
    a.kindRank ≤ b.kindRank := by
  cases hcompare : a.compare? b with
  | some o => exact (kindRank_eq_of_compare? hcompare).le
  | none =>
    rw [sortCompare, hcompare, Option.getD_none] at h
    exact Std.isLE_compare.mp h

/-- Values of an earlier kind come first. -/
theorem sortCompare_of_kindRank_lt {a b : Value} (h : a.kindRank < b.kindRank) :
    a.sortCompare b = .lt := by
  cases hcompare : a.compare? b with
  | some o =>
    have hkind := kindRank_eq_of_compare? hcompare
    omega
  | none =>
    rw [sortCompare, hcompare, Option.getD_none]
    exact compare_lt_iff_lt.mpr h

/-- The order of values of one kind is transitive unless the value between two others hides that
they differ. -/
theorem isLE_trans_of_kindRank_eq {a b c : Value} (hkindAB : a.kindRank = b.kindRank)
    (hkindBC : b.kindRank = c.kindRank) (hab : (a.sortCompare b).isLE = true)
    (hbc : (b.sortCompare c).isLE = true) (hhides : ¬ Hides b a c) :
    (a.sortCompare c).isLE = true := by
  cases b with
  | null | list _ | record _ => cases a <;> cases c <;> first | rfl | contradiction
  | int n =>
    exact isLE_trans_of_isNumber (isNumber_iff_kindRank.mpr hkindAB) (.int n)
      (isNumber_iff_kindRank.mpr hkindBC.symm) hab hbc hhides
  | float y =>
    exact isLE_trans_of_isNumber (isNumber_iff_kindRank.mpr hkindAB) (.float y)
      (isNumber_iff_kindRank.mpr hkindBC.symm) hab hbc hhides
  | bool y =>
    cases a with
    | bool x =>
      cases c with
      | bool z => exact Std.TransOrd.isLE_trans (b := y) hab hbc
      | _ => cases hkindBC
    | _ => cases hkindAB
  | string y =>
    cases a with
    | string x =>
      cases c with
      | string z => exact Std.TransOrd.isLE_trans (b := y) hab hbc
      | _ => cases hkindBC
    | _ => cases hkindAB
  | instant s =>
    cases a with
    | instant r =>
      cases c with
      | instant t => exact Std.TransOrd.isLE_trans (b := s.nanos) hab hbc
      | _ => cases hkindBC
    | _ => cases hkindAB

/-- The order of sorting is transitive unless the value between two others hides that they
differ. -/
theorem isLE_sortCompare_trans {a b c : Value} (hab : (a.sortCompare b).isLE = true)
    (hbc : (b.sortCompare c).isLE = true) (hhides : ¬ Hides b a c) :
    (a.sortCompare c).isLE = true := by
  have hkindAB := kindRank_le_of_isLE hab
  have hkindBC := kindRank_le_of_isLE hbc
  by_cases hkind : a.kindRank < c.kindRank
  · rw [sortCompare_of_kindRank_lt hkind]
    rfl
  · exact isLE_trans_of_kindRank_eq (by omega) (by omega) hab hbc hhides

/-- A value that hides a difference ties with both of the values that do not tie. -/
theorem Hides.ties {a b c : Value} (h : Hides b a c) :
    a.sortCompare b = .eq ∧ b.sortCompare c = .eq ∧ a.sortCompare c ≠ .eq := by
  cases h with
  | @undefined x _ _ o hx ha hc hcompare hdiffer =>
    refine ⟨?_, ?_, ?_⟩
    · rw [sortCompare_eq_sortFloats ha (.float x) (.inr ⟨x, rfl⟩)]
      exact sortFloats_of_rank_none (.inr hx)
    · rw [sortCompare_eq_sortFloats (.float x) hc (.inl ⟨x, rfl⟩)]
      exact sortFloats_of_rank_none (.inl hx)
    · rw [sortCompare, hcompare]
      exact hdiffer
  | @rounded x m n hm hn hdiffer =>
    obtain ⟨i, hi⟩ := (nearest_floatOfInt m).exists_rank
    have hx : rank x = some i := hm ▸ hi
    refine ⟨?_, ?_, ?_⟩
    · exact (sortFloats_of_rank hi hx).trans (compare_eq_iff_eq.mpr rfl)
    · exact (sortFloats_of_rank hx (hn.trans hx)).trans (compare_eq_iff_eq.mpr rfl)
    · intro htie
      exact hdiffer (Int64.toInt_inj.mp (compare_eq_iff_eq.mp htie))

/-- Values among which no value hides that two others differ are sorted by a total preorder. -/
theorem transCmp_sortCompare {P : Value → Prop}
    (h : ∀ a b c, P a → P b → P c → ¬ Hides b a c) :
    Std.TransCmp fun a b : {value // P value} => a.val.sortCompare b.val where
  eq_swap {a b} := sortCompare_swap b.val a.val
  isLE_trans {a b c} hab hbc :=
    isLE_sortCompare_trans hab hbc (h a.val b.val c.val a.property b.property c.property)

/-- Swapping two values always swaps their places for sorting. The order is a total preorder on
the values of a class, transitive in its ties and in what is not after, exactly if among them no
double ties with two numbers that differ. -/
theorem transCmp_sortCompare_iff (P : Value → Prop) :
    (∀ a b : Value, b.sortCompare a = (a.sortCompare b).swap) ∧
      (Std.TransCmp (fun a b : {value // P value} => a.val.sortCompare b.val) ↔
        ∀ a b c, P a → P b → P c → ¬ Hides b a c) := by
  refine ⟨sortCompare_swap, ?_, transCmp_sortCompare⟩
  intro htrans a b c ha hb hc hhides
  obtain ⟨hab, hbc, hac⟩ := hhides.ties
  exact hac (htrans.eq_trans (a := ⟨a, ha⟩) (b := ⟨b, hb⟩) (c := ⟨c, hc⟩) hab hbc)

/-- Two whole numbers can tie with the double that both round to and be in order. -/
theorem sortCompare_ties_not_transitive :
    let first := Value.int 9007199254740993
    let second := Value.float 9007199254740992
    let third := Value.int 9007199254740992
    first.sortCompare second = .eq ∧ second.sortCompare third = .eq ∧
      first.sortCompare third = .gt := by
  decide +kernel

end EntityQuery.Value
