import EntityQuery.Proofs.Decimal.Intervals
import Mathlib

/-!
# Rounding of the built-in doubles

The built-in arithmetic of doubles rounds a mantissa by shifting out its last bits, keeping
only whether they make up half a step and whether anything is left beside it. A quantity lies
in the interval of the double that results.
-/

namespace EntityQuery.Decimal

open Float.Model Float.Model.UnpackedFloat

variable {em : ExtendedMantissa} {x : ℚ}

/-- The quantity lies above the mantissa, and as far as the two bits say. -/
def Keeps (em : ExtendedMantissa) (x : ℚ) : Prop :=
  match em.roundBit, em.stickyBit with
  | false, false => 2 * x = 2 * em.mantissa
  | false, true => 2 * em.mantissa < 2 * x ∧ 2 * x < 2 * em.mantissa + 1
  | true, false => 2 * x = 2 * em.mantissa + 1
  | true, true => 2 * em.mantissa + 1 < 2 * x ∧ 2 * x < 2 * em.mantissa + 2

/-- Shifting out one bit halves the quantity. -/
theorem Keeps.shiftRightOne (h : Keeps em (2 * x)) : Keeps em.shiftRightOne x := by
  obtain ⟨mantissa, roundBit, stickyBit⟩ := em
  have hsplit : (2 * (mantissa / 2 : Nat) : ℚ) + (mantissa % 2 : Nat) = mantissa := by
    exact_mod_cast Nat.div_add_mod mantissa 2
  have hlast : mantissa % 2 = 0 ∨ mantissa % 2 = 1 := by omega
  rcases hlast with hlast | hlast
  · have hround : (mantissa % 2 != 0) = false := by rw [hlast]; rfl
    simp only [hlast, Nat.cast_zero] at hsplit
    cases roundBit <;> cases stickyBit <;>
      simp only [Keeps, ExtendedMantissa.shiftRightOne, hround, Bool.or_false, Bool.or_true] at h ⊢
    · linarith
    all_goals exact ⟨by linarith, by linarith⟩
  · have hround : (mantissa % 2 != 0) = true := by rw [hlast]; rfl
    simp only [hlast, Nat.cast_one] at hsplit
    cases roundBit <;> cases stickyBit <;>
      simp only [Keeps, ExtendedMantissa.shiftRightOne, hround, Bool.or_false, Bool.or_true] at h ⊢
    · linarith
    all_goals exact ⟨by linarith, by linarith⟩

/-- Shifting out several bits. -/
theorem Keeps.shiftRight {k : Nat} : ∀ {x : ℚ}, Keeps em (2 ^ k * x) → Keeps (em >>> k) x := by
  induction k with
  | zero =>
    intro x h
    rw [pow_zero, one_mul] at h
    exact h
  | succ k ih =>
    intro x h
    have hstep : em >>> (k + 1) = (em >>> k).shiftRightOne := rfl
    rw [pow_succ, mul_assoc] at h
    rw [hstep]
    exact (ih h).shiftRightOne

/-- The mantissa is what is left of the quantity without its fraction. -/
theorem Keeps.mantissa_le (h : Keeps em x) : em.mantissa ≤ x ∧ x < em.mantissa + 1 := by
  obtain ⟨mantissa, roundBit, stickyBit⟩ := em
  cases roundBit <;> cases stickyBit <;> simp only [Keeps] at h ⊢
  all_goals exact ⟨by linarith, by linarith⟩

/-- The rounded mantissa is the mantissa or the next one. -/
theorem roundedMantissa_bounds (em : ExtendedMantissa) :
    em.mantissa ≤ em.roundedMantissa ∧ em.roundedMantissa ≤ em.mantissa + 1 := by
  obtain ⟨mantissa, roundBit, stickyBit⟩ := em
  cases roundBit <;> cases stickyBit <;>
    simp only [ExtendedMantissa.roundedMantissa, ExtendedMantissa.accuracy,
      Accuracy.roundToNearestEven] <;> omega

/-- A whole number is at most half a step from a quantity, and less than that unless it is
even. -/
structure NearestEven (m : Nat) (x : ℚ) : Prop where
  low : 2 * (m : ℚ) - 1 ≤ 2 * x
  high : 2 * x ≤ 2 * m + 1
  inside : m % 2 = 0 ∨ 2 * (m : ℚ) - 1 < 2 * x ∧ 2 * x < 2 * m + 1

/-- The bits that are kept are enough to round to the nearest whole number. Halfway between two
of them the last bit of the lower one decides, so that the even one is taken. -/
theorem Keeps.nearestEven (h : Keeps em x) : NearestEven em.roundedMantissa x := by
  obtain ⟨mantissa, roundBit, stickyBit⟩ := em
  cases roundBit <;> cases stickyBit <;>
    simp only [Keeps, ExtendedMantissa.roundedMantissa, ExtendedMantissa.accuracy,
      Accuracy.roundToNearestEven] at h ⊢
  · exact ⟨by linarith, by linarith, .inr ⟨by linarith, by linarith⟩⟩
  · exact ⟨by linarith, by linarith, .inr ⟨by linarith, by linarith⟩⟩
  · rcases Nat.mod_two_eq_zero_or_one mantissa with hparity | hparity
    · rw [hparity, Nat.add_zero]
      exact ⟨by linarith, by linarith, .inl hparity⟩
    · rw [hparity]
      refine ⟨?_, ?_, .inl (by omega)⟩
      all_goals push_cast; linarith
  · refine ⟨?_, ?_, .inr ⟨?_, ?_⟩⟩
    all_goals push_cast; linarith

/-- A quantity in steps of a full mantissa lies in the interval of the double with the nearest
mantissa. -/
theorem NearestEven.roundsTo {m : Nat} (h : NearestEven m x) (hfull : (fractionUnit : ℚ) ≤ x)
    (e : Int) : RoundsTo (x * 2 ^ e) m e := by
  obtain ⟨hlow, hhigh, hinside⟩ := h
  have hpos : (0 : ℚ) < 2 ^ e := zpow_pos two_pos e
  have hquarter : (2 : ℚ) ^ (e - 2) = 2 ^ e / 4 := by
    rw [zpow_sub₀ two_ne_zero]
    norm_num
  have hhighEnd : highEnd m e = (2 * m + 1) / 2 * 2 ^ e := by
    rw [highEnd, hquarter]
    ring
  have hlowEnd : lowEnd m e = (4 * m - gap m e) / 4 * 2 ^ e := by
    rw [lowEnd, hquarter]
    ring
  rw [gap] at hlowEnd
  split_ifs at hlowEnd with hshort
  · obtain ⟨rfl, -⟩ := hshort
    refine ⟨?_, ?_, .inl (by decide)⟩
    · rw [hlowEnd]
      exact mul_le_mul_of_nonneg_right (by push_cast; linarith) hpos.le
    · rw [hhighEnd]
      exact mul_le_mul_of_nonneg_right (by linarith) hpos.le
  · refine ⟨?_, ?_, hinside.imp_right fun hstrict => ⟨?_, ?_⟩⟩
    · rw [hlowEnd]
      exact mul_le_mul_of_nonneg_right (by push_cast; linarith) hpos.le
    · rw [hhighEnd]
      exact mul_le_mul_of_nonneg_right (by linarith) hpos.le
    · have hlt := hstrict.1
      rw [hlowEnd]
      exact mul_lt_mul_of_pos_right (by push_cast; linarith) hpos
    · have hgt := hstrict.2
      rw [hhighEnd]
      exact mul_lt_mul_of_pos_right (by linarith) hpos

/-- Where the nearest mantissa has one bit too many, it is the least one of the next exponent. -/
theorem NearestEven.roundsTo_next (h : NearestEven (2 * fractionUnit) x) (e : Int) :
    RoundsTo (x * 2 ^ e) fractionUnit (e + 1) := by
  obtain ⟨hlow, hhigh, -⟩ := h
  have hpos : (0 : ℚ) < 2 ^ e := zpow_pos two_pos e
  have hhalf : (2 : ℚ) ^ (e + 1 - 2) = 2 ^ e / 2 := by
    rw [zpow_sub₀ two_ne_zero, zpow_add_one₀ two_ne_zero]
    ring
  have hgap : 1 ≤ gap fractionUnit (e + 1) := by
    rw [gap]
    split_ifs <;> decide
  have hgap' : (1 : ℚ) ≤ gap fractionUnit (e + 1) := by exact_mod_cast hgap
  push_cast at hlow hhigh
  refine ⟨?_, ?_, .inl (by decide)⟩
  · rw [lowEnd, hhalf]
    calc (4 * (fractionUnit : ℚ) - gap fractionUnit (e + 1)) * (2 ^ e / 2)
        = (2 * fractionUnit - gap fractionUnit (e + 1) / 2) * 2 ^ e := by ring
      _ ≤ x * 2 ^ e := mul_le_mul_of_nonneg_right (by linarith) hpos.le
  · rw [highEnd, hhalf]
    calc x * 2 ^ e ≤ (2 * fractionUnit + 1) * 2 ^ e :=
          mul_le_mul_of_nonneg_right (by linarith) hpos.le
      _ = (4 * fractionUnit + 2) * (2 ^ e / 2) := by ring

/-- The bits of a mantissa that do not fit. -/
theorem shiftToTargetExponent_exact {M : Nat} {E : Int} (hM : 52 ≤ M.log2) (hE : -1074 ≤ E) :
    shiftToTargetExponent Format.binary64 M E .exact =
      ((⟨M, false, false⟩ : ExtendedMantissa) >>> (M.log2 - 52), E + (M.log2 - 52 : Nat)) := by
  have htarget : Format.binary64.targetExponent (totalExponent M E) - E = (M.log2 - 52 : Nat) := by
    have hleast : Format.binary64.minExponent = -1074 := rfl
    have hbits : (Format.binary64.mantissaBits : ℤ) = 53 := rfl
    rw [Format.targetExponent, totalExponent, hleast, hbits]
    omega
  simp only [shiftToTargetExponent, shiftToExponent, htarget, Int.toNat_natCast]
  rfl

/-- Rounding takes the nearest mantissa, or where that has one bit too many the least one of
the next exponent. -/
theorem roundWithAccuracy_exact {M m : Nat} {E e : Int} (sign : Sign) (hM : 52 ≤ M.log2)
    (hE : -1074 ≤ E)
    (hm : ((⟨M, false, false⟩ : ExtendedMantissa) >>> (M.log2 - 52)).roundedMantissa = m)
    (he : E + (M.log2 - 52 : Nat) = e) (hfull : fractionUnit ≤ m) :
    (m < 2 * fractionUnit → ∃ hpos,
      roundWithAccuracy Format.binary64 sign M E .exact = .finite sign m e hpos) ∧
    (m = 2 * fractionUnit → ∃ hpos,
      roundWithAccuracy Format.binary64 sign M E .exact =
        .finite sign fractionUnit (e + 1) hpos) := by
  have hleast : -1074 ≤ e := by omega
  have hne : m ≠ 0 := by
    rw [fractionUnit] at hfull
    omega
  constructor
  · intro hsmall
    have hlog : m.log2 = 52 := (Nat.log2_eq_iff hne).mpr ⟨hfull, hsmall⟩
    have hagain : shiftToTargetExponent Format.binary64 m e .exact = (⟨m, false, false⟩, e) := by
      rw [shiftToTargetExponent_exact (by omega) hleast, hlog]
      exact congrArg (Prod.mk _) (Int.add_zero e)
    refine ⟨Nat.pos_of_ne_zero hne, ?_⟩
    simp only [roundWithAccuracy, shiftToTargetExponent_exact hM hE, hm, he, hagain, hne,
      dite_false]
  · rintro rfl
    have hlog : (2 * fractionUnit).log2 = 53 := by decide
    have hagain : shiftToTargetExponent Format.binary64 (2 * fractionUnit) e .exact =
        (⟨fractionUnit, false, false⟩, e + 1) := by
      rw [shiftToTargetExponent_exact (by omega) hleast, hlog]
      rfl
    refine ⟨by decide, ?_⟩
    simp only [roundWithAccuracy, shiftToTargetExponent_exact hM hE, hm, he, hagain]
    rfl

/-- A full mantissa is not rounded. -/
theorem roundWithAccuracy_full {m : Nat} {e : Int} (sign : Sign) (hfull : fractionUnit ≤ m)
    (hsmall : m < 2 * fractionUnit) (he : -1074 ≤ e) :
    ∃ hpos, roundWithAccuracy Format.binary64 sign m e .exact = .finite sign m e hpos := by
  have hne : m ≠ 0 := by
    rw [fractionUnit] at hfull
    omega
  have hlog : m.log2 = 52 := (Nat.log2_eq_iff hne).mpr ⟨hfull, hsmall⟩
  refine (roundWithAccuracy_exact sign (by omega) he ?_ ?_ hfull).1 hsmall
  · rw [hlog]
    rfl
  · rw [hlog]
    exact Int.add_zero e

/-- In steps of the double that it rounds to, a mantissa with too many bits is full. -/
theorem full_steps {M k : Nat} (hk : M.log2 = 52 + k) :
    (fractionUnit : ℚ) ≤ M / 2 ^ k ∧ (M : ℚ) / 2 ^ k < 2 * fractionUnit := by
  have hne : M ≠ 0 := by
    rintro rfl
    exact absurd hk (by rw [Nat.log2_zero]; omega)
  obtain ⟨hfloor, hceiling⟩ := (Nat.log2_eq_iff hne).mp hk
  have hstep : (0 : ℚ) < 2 ^ k := by positivity
  constructor
  · rw [le_div_iff₀ hstep]
    exact_mod_cast (Nat.pow_add 2 52 k).symm.trans_le hfloor
  · rw [div_lt_iff₀ hstep]
    exact_mod_cast hceiling.trans_eq (by rw [Nat.add_right_comm, Nat.pow_add]; rfl)

/-- A quantity rounds to the double that the built-in rounding makes of it. -/
theorem exists_roundWithAccuracy {M : Nat} {E : Int} (sign : Sign) (hM : 52 ≤ M.log2)
    (hE : -1074 ≤ E) :
    ∃ m e hpos, roundWithAccuracy Format.binary64 sign M E .exact = .finite sign m e hpos ∧
      fractionUnit ≤ m ∧ m < 2 * fractionUnit ∧ -1074 ≤ e ∧ e ≤ E + M.log2 - 51 ∧
      RoundsTo (M * 2 ^ E) m e := by
  obtain ⟨k, hk⟩ : ∃ k, M.log2 = 52 + k := ⟨M.log2 - 52, by omega⟩
  obtain ⟨hfull, hsmall⟩ := full_steps hk
  have hstep : (0 : ℚ) < 2 ^ k := by positivity
  have hsteps : (M : ℚ) = 2 ^ k * (M / 2 ^ k) := (mul_div_cancel₀ _ hstep.ne').symm
  have hvalue : (M : ℚ) * 2 ^ E = M / 2 ^ k * 2 ^ (E + k) := by
    rw [zpow_add₀ two_ne_zero, zpow_natCast, mul_comm ((2 : ℚ) ^ E), ← mul_assoc,
      div_mul_cancel₀ _ hstep.ne']
  generalize hx : (M : ℚ) / 2 ^ k = x at hsteps hvalue hfull hsmall
  have hkeeps : Keeps ((⟨M, false, false⟩ : ExtendedMantissa) >>> (M.log2 - 52)) x := by
    rw [hk, Nat.add_sub_cancel_left]
    exact Keeps.shiftRight (congrArg (2 * ·) hsteps.symm)
  obtain ⟨hmantissa, hmantissa'⟩ := hkeeps.mantissa_le
  obtain ⟨hrounded, hrounded'⟩ := roundedMantissa_bounds
    ((⟨M, false, false⟩ : ExtendedMantissa) >>> (M.log2 - 52))
  have hnearest := hkeeps.nearestEven
  generalize ((⟨M, false, false⟩ : ExtendedMantissa) >>> (M.log2 - 52)).mantissa = kept at *
  generalize hm : ((⟨M, false, false⟩ : ExtendedMantissa) >>> (M.log2 - 52)).roundedMantissa = m
    at *
  have hkept : fractionUnit < kept + 1 := by exact_mod_cast hfull.trans_lt hmantissa'
  have hkept' : kept < 2 * fractionUnit := by exact_mod_cast hmantissa.trans_lt hsmall
  have hexponent : E + (M.log2 - 52 : Nat) = E + k := by omega
  obtain ⟨hfits, hcarries⟩ := roundWithAccuracy_exact sign hM hE hm hexponent (by omega)
  rcases Nat.lt_or_ge m (2 * fractionUnit) with hlt | hge
  · obtain ⟨hpos, hresult⟩ := hfits hlt
    refine ⟨m, E + k, hpos, hresult, by omega, hlt, by omega, by omega, ?_⟩
    exact hvalue ▸ hnearest.roundsTo hfull (E + k)
  · obtain rfl : m = 2 * fractionUnit := by omega
    obtain ⟨hpos, hresult⟩ := hcarries rfl
    refine ⟨fractionUnit, E + k + 1, hpos, hresult, le_rfl, by decide, by omega, by omega, ?_⟩
    exact hvalue ▸ hnearest.roundsTo_next (E + k)

end EntityQuery.Decimal
