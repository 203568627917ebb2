import EntityQuery.Decimal.Shortest
import EntityQuery.Proofs.Decimal.Intervals

/-!
# The shortest decimal rounds to its double

A grid point that the search accepts lies in the interval of the double. The finest of the
grids that are tried is finer than that interval, so the search always accepts one.
-/

namespace EntityQuery.Decimal

variable {m p : Nat} {e g : Int} {tie : Tie}

/-- A power with a whole exponent times the power that makes it integral. -/
theorem pow_toNat {a : ℚ} (ha : a ≠ 0) (b : Int) : a ^ b.toNat = a ^ b * a ^ (-b).toNat := by
  obtain ⟨n, rfl | rfl⟩ := Int.eq_nat_or_neg b
  · have hzero : (-(n : Int)).toNat = 0 := by omega
    rw [hzero, pow_zero, mul_one, Int.toNat_natCast, zpow_natCast]
  · have hzero : (-(n : Int)).toNat = 0 := by omega
    rw [hzero, pow_zero, neg_neg, Int.toNat_natCast, zpow_neg, zpow_natCast,
      inv_mul_cancel₀ (pow_ne_zero n ha)]

/-- What makes the ends of an interval and the points of a grid integral. -/
def denominator (e g : Int) : ℚ := 2 ^ (-(e - 2)).toNat * 10 ^ (-g).toNat

theorem denominator_pos (e g : Int) : 0 < denominator e g := by
  rw [denominator]
  positivity

namespace Cell

/-- The worth of a quarter of the spacing of doubles. -/
theorem scale_eq (e g : Int) :
    ((Nat.pow 2 (e - 2).toNat * Nat.pow 10 (-g).toNat : Nat) : ℚ) =
      2 ^ (e - 2) * denominator e g := by
  have htwo := pow_toNat (two_ne_zero : (2 : ℚ) ≠ 0) (e - 2)
  simp only [Nat.pow_eq, Nat.cast_mul, Nat.cast_pow, Nat.cast_ofNat, denominator]
  rw [htwo, mul_assoc]

/-- The worth of a step of the grid. -/
theorem unit_eq (m : Nat) (e g : Int) :
    ((Cell.of m e g).unit : ℚ) = 10 ^ g * denominator e g := by
  have hten := pow_toNat (by norm_num : (10 : ℚ) ≠ 0) g
  simp only [Cell.of, Nat.pow_eq, Nat.cast_mul, Nat.cast_pow, Nat.cast_ofNat, denominator]
  rw [hten]
  ring

theorem low_eq (hm : 0 < m) (e g : Int) :
    ((Cell.of m e g).low : ℚ) = lowEnd m e * denominator e g := by
  have hgap := gap_le_two m e
  have hlow : (Cell.of m e g).low =
      (4 * m - gap m e) * (Nat.pow 2 (e - 2).toNat * Nat.pow 10 (-g).toNat) := rfl
  rw [hlow, Nat.cast_mul, scale_eq, Nat.cast_sub (by omega), lowEnd]
  push_cast
  ring

theorem high_eq (m : Nat) (e g : Int) :
    ((Cell.of m e g).high : ℚ) = highEnd m e * denominator e g := by
  have hhigh : (Cell.of m e g).high =
      (4 * m + 2) * (Nat.pow 2 (e - 2).toNat * Nat.pow 10 (-g).toNat) := rfl
  rw [hhigh, Nat.cast_mul, scale_eq, highEnd]
  push_cast
  ring

/-- The points of the grid that a cell holds are those that round to the double. -/
theorem holds_of_iff (hm : 0 < m) :
    (Cell.of m e g).holds p = true ↔ RoundsTo (p * 10 ^ g) m e := by
  have hpos := denominator_pos e g
  have hpoint : ((p * (Cell.of m e g).unit : Nat) : ℚ) = p * 10 ^ g * denominator e g := by
    rw [Nat.cast_mul, unit_eq, mul_assoc]
  have hlow : (Cell.of m e g).low < p * (Cell.of m e g).unit ↔ lowEnd m e < p * 10 ^ g := by
    rw [← @Nat.cast_lt ℚ, hpoint, low_eq hm, mul_lt_mul_iff_left₀ hpos]
  have hlow' : (Cell.of m e g).low ≤ p * (Cell.of m e g).unit ↔ lowEnd m e ≤ p * 10 ^ g := by
    rw [← @Nat.cast_le ℚ, hpoint, low_eq hm, mul_le_mul_iff_left₀ hpos]
  have hhigh : p * (Cell.of m e g).unit < (Cell.of m e g).high ↔ p * 10 ^ g < highEnd m e := by
    rw [← @Nat.cast_lt ℚ, hpoint, high_eq, mul_lt_mul_iff_left₀ hpos]
  have hhigh' : p * (Cell.of m e g).unit ≤ (Cell.of m e g).high ↔ p * 10 ^ g ≤ highEnd m e := by
    rw [← @Nat.cast_le ℚ, hpoint, high_eq, mul_le_mul_iff_left₀ hpos]
  have hclosed : (Cell.of m e g).closed = decide (m % 2 = 0) := rfl
  simp only [holds, hclosed, decide_eq_true_eq]
  split_ifs with heven
  · simp only [Bool.and_eq_true, decide_eq_true_eq, hlow', hhigh']
    exact ⟨fun ⟨hle, hge⟩ => ⟨hle, hge, .inl heven⟩, fun h => ⟨h.lowEnd_le, h.le_highEnd⟩⟩
  · simp only [Bool.and_eq_true, decide_eq_true_eq, hlow, hhigh]
    exact ⟨fun ⟨hlt, hgt⟩ => ⟨hlt.le, hgt.le, .inr ⟨hlt, hgt⟩⟩,
      fun h => h.inside.resolve_left heven⟩

/-- The grid point that is chosen is one that the cell holds. -/
theorem holds_of_nearest? {cell : Cell} (h : cell.nearest? tie = some p) :
    cell.holds p = true := by
  simp only [nearest?] at h
  split at h
  · cases h
  · next hbelow _ => exact Option.some.inj h ▸ hbelow
  · next _ habove => exact Option.some.inj h ▸ habove
  · next hbelow habove =>
    have hp : p = cell.value / cell.unit ∨ p = cell.value / cell.unit + 1 := by
      cases tie <;> dsimp only at h <;> split_ifs at h
      all_goals
        have := Option.some.inj h
        omega
    rcases hp with rfl | rfl
    · exact hbelow
    · exact habove

/-- In a grid that is finer than half the spacing of doubles the point above the double lies
in the interval. -/
theorem holds_above (hfine : (10 : ℚ) ^ g < 2 ^ (e - 1)) :
    (Cell.of m e g).holds ((Cell.of m e g).value / (Cell.of m e g).unit + 1) = true := by
  generalize hscale : Nat.pow 2 (e - 2).toNat * Nat.pow 10 (-g).toNat = scale
  have hunit : (Cell.of m e g).unit < 2 * scale := by
    rw [← @Nat.cast_lt ℚ, unit_eq, Nat.cast_mul, ← hscale, scale_eq, Nat.cast_ofNat,
      ← mul_assoc, mul_lt_mul_iff_left₀ (denominator_pos e g), ← zpow_one_add₀ two_ne_zero]
    exact hfine.trans_eq (by ring_nf)
  have hpos : 0 < (Cell.of m e g).unit := by
    have : (0 : ℚ) < (Cell.of m e g).unit := by
      rw [unit_eq]
      exact mul_pos (by positivity) (denominator_pos e g)
    exact_mod_cast this
  have hvalue : (Cell.of m e g).value = 4 * m * scale := by rw [← hscale]; rfl
  have hlow : (Cell.of m e g).low ≤ 4 * m * scale := by
    rw [← hscale]
    exact Nat.mul_le_mul_right _ (Nat.sub_le _ _)
  have hhigh : (Cell.of m e g).high = 4 * m * scale + 2 * scale := by
    rw [← hscale, ← Nat.add_mul]
    rfl
  have hbelow := Nat.div_mul_le_self (Cell.of m e g).value (Cell.of m e g).unit
  have habove := Nat.lt_div_mul_add (a := (Cell.of m e g).value) hpos
  rw [← Nat.succ_mul, Nat.succ_eq_add_one] at habove
  have hnear : ((Cell.of m e g).value / (Cell.of m e g).unit + 1) * (Cell.of m e g).unit <
      (Cell.of m e g).high := by
    rw [Nat.succ_mul]
    omega
  have hfar : (Cell.of m e g).low <
      ((Cell.of m e g).value / (Cell.of m e g).unit + 1) * (Cell.of m e g).unit := by
    omega
  rw [holds]
  split_ifs <;> simp only [Bool.and_eq_true, decide_eq_true_eq]
  · exact ⟨hfar.le, hnear.le⟩
  · exact ⟨hfar, hnear⟩

/-- Such a grid has a point to choose. -/
theorem nearest?_ne_none (hfine : (10 : ℚ) ^ g < 2 ^ (e - 1)) :
    (Cell.of m e g).nearest? tie ≠ none := by
  have habove := holds_above (m := m) hfine
  intro hnone
  simp only [nearest?, habove] at hnone
  split at hnone <;> try contradiction
  cases tie <;> split_ifs at hnone

end Cell

/-- The search ends with a decimal in the interval if its last grid is fine enough. -/
theorem shortestFrom_roundsTo (hm : 0 < m) (steps : Nat) :
    ∀ {g : Int}, (10 : ℚ) ^ (g - steps) < 2 ^ (e - 1) →
      RoundsTo ((shortestFrom tie m e (steps + 1) g).digits *
        10 ^ (shortestFrom tie m e (steps + 1) g).exponent) m e := by
  induction steps with
  | zero =>
    intro g hfine
    rw [Nat.cast_zero, sub_zero] at hfine
    rw [shortestFrom]
    cases hnearest : (Cell.of m e g).nearest? tie with
    | none => exact absurd hnearest (Cell.nearest?_ne_none hfine)
    | some digits => exact (Cell.holds_of_iff hm).mp (Cell.holds_of_nearest? hnearest)
  | succ steps ih =>
    intro g hfine
    rw [shortestFrom]
    cases hnearest : (Cell.of m e g).nearest? tie with
    | none =>
      refine ih ?_
      rwa [show g - 1 - (steps : Int) = g - (steps + 1 : Nat) by push_cast; ring]
    | some digits => exact (Cell.holds_of_iff hm).mp (Cell.holds_of_nearest? hnearest)

/-- A power of ten lies below a power of two if its exponent does by bounds of the logarithm
from both sides. -/
theorem ten_zpow_lt_two_zpow {b : Int} (hupper : 10 * g < 3 * b) (hlower : 93 * g < 28 * b) :
    (10 : ℚ) ^ g < 2 ^ b := by
  have htwo : (0 : ℚ) ≤ 2 ^ b := (zpow_pos two_pos b).le
  rcases le_total 0 g with hg | hg
  · refine lt_of_pow_lt_pow_left₀ 3 htwo ?_
    calc ((10 : ℚ) ^ g) ^ 3 = (10 ^ 3) ^ g := by rw [← zpow_natCast, ← zpow_natCast, zpow_comm]
      _ ≤ (2 ^ 10) ^ g := zpow_le_zpow_left₀ hg (by norm_num) (by norm_num)
      _ = 2 ^ (10 * g) := by rw [zpow_mul]; norm_num
      _ < 2 ^ (b * 3) := zpow_lt_zpow_right₀ one_lt_two (by omega)
      _ = (2 ^ b) ^ 3 := by rw [zpow_mul]; norm_cast
  · refine lt_of_pow_lt_pow_left₀ 28 htwo ?_
    have hanti : ((10 : ℚ) ^ 28) ^ g ≤ (2 ^ 93) ^ g := by
      obtain ⟨n, rfl⟩ : ∃ n : Nat, g = -n := ⟨(-g).toNat, by omega⟩
      rw [zpow_neg, zpow_neg, zpow_natCast, zpow_natCast]
      exact inv_anti₀ (by positivity) (pow_le_pow_left₀ (by norm_num) (by norm_num) n)
    calc ((10 : ℚ) ^ g) ^ 28 = (10 ^ 28) ^ g := by rw [← zpow_natCast, ← zpow_natCast, zpow_comm]
      _ ≤ (2 ^ 93) ^ g := hanti
      _ = 2 ^ (93 * g) := by rw [zpow_mul]; norm_num
      _ < 2 ^ (b * 28) := zpow_lt_zpow_right₀ one_lt_two (by omega)
      _ = (2 ^ b) ^ 28 := by rw [zpow_mul]; norm_cast

/-- The shortest decimal of a double rounds to it. -/
theorem shortest_roundsTo (h : Canonical m e) (hm : 0 < m) (he : e ≤ 971) :
    RoundsTo ((shortest tie m e).digits * 10 ^ (shortest tie m e).exponent) m e := by
  have hleast := h.le_exponent
  have hlog : m.log2 < 53 := by
    rw [Nat.log2_lt hm.ne']
    exact h.mantissa_lt
  refine shortestFrom_roundsTo hm 20 (ten_zpow_lt_two_zpow ?_ ?_)
  all_goals rw [Nat.cast_ofNat]; omega

end EntityQuery.Decimal
