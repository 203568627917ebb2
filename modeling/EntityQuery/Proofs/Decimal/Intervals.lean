import EntityQuery.Decimal.Binary64
import Mathlib.Algebra.Order.Field.Power
import Mathlib.Tactic.Linarith
import Mathlib.Tactic.Positivity
import Mathlib.Tactic.Ring

/-!
# The quantities that round to a double

The quantities that round to a double form an interval around it, which has its ends
exactly if the mantissa is even. The intervals of different doubles have no quantity in
common and lie in the order of the doubles, so rounding keeps the order of quantities.
-/

namespace EntityQuery.Decimal

/-- A mantissa and an exponent as doubles have them: the mantissa is full unless the
exponent is the least one. -/
structure Canonical (mantissa : Nat) (exponent : Int) : Prop where
  mantissa_lt : mantissa < 2 * fractionUnit
  le_exponent : -1074 ≤ exponent
  full : fractionUnit ≤ mantissa ∨ exponent = -1074

/-- The place of the double `mantissa * 2 ^ exponent` among those that are not negative. -/
def place (mantissa : Nat) (exponent : Int) : Int :=
  (exponent + 1074) * fractionUnit + mantissa

/-- How far below the double its interval begins, in quarters of the spacing above it. -/
def gap (mantissa : Nat) (exponent : Int) : Nat :=
  if mantissa = fractionUnit ∧ exponent ≠ -1074 then 1 else 2

/-- The lower end of the interval of a double. -/
def lowEnd (mantissa : Nat) (exponent : Int) : ℚ :=
  (4 * mantissa - gap mantissa exponent) * 2 ^ (exponent - 2)

/-- The upper end of the interval of a double. -/
def highEnd (mantissa : Nat) (exponent : Int) : ℚ :=
  (4 * mantissa + 2) * 2 ^ (exponent - 2)

/-- A quantity lies in the interval of a double. -/
structure RoundsTo (q : ℚ) (mantissa : Nat) (exponent : Int) : Prop where
  lowEnd_le : lowEnd mantissa exponent ≤ q
  le_highEnd : q ≤ highEnd mantissa exponent
  inside : mantissa % 2 = 0 ∨ lowEnd mantissa exponent < q ∧ q < highEnd mantissa exponent

variable {m m' : Nat} {e e' : Int} {q q' : ℚ}

theorem gap_le_two (m : Nat) (e : Int) : gap m e ≤ 2 := by
  rw [gap]
  split_ifs <;> decide

/-- A larger double is at least one step larger: in quarters of the smaller spacing, its
interval begins where that of the smaller one ends or above, and where both meet one of the
two is odd. Above the least exponent a mantissa is full, and only the least full one has the
shorter gap. -/
theorem Canonical.quarters_le {d : Nat} (h : Canonical m (e + d)) (h' : Canonical m' e)
    (hlt : place m' e < place m (e + d)) :
    4 * (m' : ℤ) + 2 ≤ (4 * m - gap m (e + d)) * 2 ^ d ∧
      (4 * (m' : ℤ) + 2 = (4 * m - gap m (e + d)) * 2 ^ d → m % 2 = 1 ∨ m' % 2 = 1) := by
  obtain ⟨-, -, hfull⟩ := h
  obtain ⟨hsmall', hleast', -⟩ := h'
  have hgap := gap_le_two m (e + d)
  simp only [place, fractionUnit] at hlt hfull hsmall'
  cases d with
  | zero =>
    rw [pow_zero]
    omega
  | succ k =>
    have hwide : (2 ^ 54 - 1 : ℤ) ≤ 4 * m - gap m (e + (k + 1 : Nat)) := by
      rw [gap, fractionUnit]
      split_ifs <;> omega
    have hpow : (1 : ℤ) ≤ 2 ^ k := one_le_pow₀ (by decide)
    have hscaled : 4 * (m : ℤ) - gap m (e + (k + 1 : Nat)) ≤
        (4 * m - gap m (e + (k + 1 : Nat))) * 2 ^ k :=
      le_mul_of_one_le_right (by omega) hpow
    rw [pow_succ, ← mul_assoc]
    omega

/-- The interval of a larger double begins where that of a smaller one ends or above. -/
theorem Canonical.highEnd_le_lowEnd (h : Canonical m e) (h' : Canonical m' e')
    (hlt : place m' e' < place m e) :
    highEnd m' e' ≤ lowEnd m e ∧ (highEnd m' e' = lowEnd m e → m % 2 = 1 ∨ m' % 2 = 1) := by
  have hexponent : e' ≤ e := by
    have hsmall := h.mantissa_lt
    have hleast := h.le_exponent
    have hfull' := h'.full
    simp only [place, fractionUnit] at hlt hsmall hfull'
    omega
  obtain ⟨d, rfl⟩ : ∃ d : Nat, e = e' + d := ⟨(e - e').toNat, by omega⟩
  obtain ⟨hle, hmeet⟩ := h.quarters_le h' hlt
  have hspacing : (2 : ℚ) ^ (e' + d - 2) = 2 ^ d * 2 ^ (e' - 2) := by
    rw [show e' + d - 2 = d + (e' - 2) by ring, zpow_add₀ two_ne_zero, zpow_natCast]
  have hpos : (0 : ℚ) < 2 ^ (e' - 2) := zpow_pos two_pos _
  rw [highEnd, lowEnd, hspacing, ← mul_assoc]
  constructor
  · refine mul_le_mul_of_nonneg_right ?_ hpos.le
    exact_mod_cast hle
  · intro hequal
    have hquarters := mul_right_cancel₀ hpos.ne' hequal
    exact hmeet (by exact_mod_cast hquarters)

/-- Rounding keeps the order of quantities: the intervals of two doubles can meet in one point
only, and one of the two does not have it. -/
theorem RoundsTo.place_le (hq : RoundsTo q m e) (hq' : RoundsTo q' m' e') (h : Canonical m e)
    (h' : Canonical m' e') (hle : q ≤ q') : place m e ≤ place m' e' := by
  by_contra hlt
  obtain ⟨hends, hmeet⟩ := h.highEnd_le_lowEnd h' (not_le.mp hlt)
  have hmeetInPoint : highEnd m' e' = lowEnd m e :=
    le_antisymm hends (hq.lowEnd_le.trans (hle.trans hq'.le_highEnd))
  rcases hmeet hmeetInPoint with hodd | hodd
  · have hinside := hq.inside.resolve_left (by omega)
    have := hq'.le_highEnd
    linarith [hinside.1]
  · have hinside := hq'.inside.resolve_left (by omega)
    have := hq.lowEnd_le
    linarith [hinside.2]

end EntityQuery.Decimal
