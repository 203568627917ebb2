import EntityQuery.Proofs.Decimal.Nearest
import EntityQuery.Proofs.Decimal.Rounding

/-!
# Whole numbers as doubles

The built-in doubles are packed into bits and unpacked again around every operation. A double
with a full mantissa survives this, and its bits say what was packed. So the double that is
made of a whole number is one that is nearest to it.
-/

namespace EntityQuery.Decimal

open Float.Model Float.Model.UnpackedFloat

variable {sign : Sign} {m : Nat} {e : Int} {hpos : 0 < m}

/-- The bits of the fields of a double. -/
theorem toNat_packComponents (sign : Sign) (exponent : BitVec 11) (mantissa : BitVec 52) :
    (packComponents Format.binary64 sign exponent mantissa).toNat =
      (sign.toBitVec.toNat * exponentUnit + exponent.toNat) * fractionUnit + mantissa.toNat := by
  have hunfold : packComponents Format.binary64 sign exponent mantissa =
      sign.toBitVec ++ exponent ++ mantissa := rfl
  rw [hunfold, BitVec.toNat_append, ← Nat.shiftLeft_add_eq_or_of_lt mantissa.isLt,
    BitVec.toNat_append, ← Nat.shiftLeft_add_eq_or_of_lt exponent.isLt, Nat.shiftLeft_eq,
    Nat.shiftLeft_eq]
  rfl

/-- The packed form of a double with a full mantissa. -/
theorem pack_eq (hfull : fractionUnit ≤ m) (hsmall : m < 2 * fractionUnit) (he : -1074 ≤ e)
    (he' : e ≤ 971) :
    UnpackedFloat.pack Format.binary64 (.finite sign m e hpos) =
      packComponents Format.binary64 sign (BitVec.ofNat 11 (e + 1075).toNat)
        (BitVec.ofNat 52 (m - fractionUnit)) := by
  have hlog : m.log2 = 52 := (Nat.log2_eq_iff hpos.ne').mpr ⟨hfull, hsmall⟩
  have hbias : e + (1023 : Nat) + (52 : Nat) = e + 1075 := by omega
  have hfinite : ¬ 2 ^ 11 ≤ (e + (1023 : Nat) + (52 : Nat)).toNat + 1 := by omega
  have hmantissa : BitVec.ofNat 52 m = BitVec.ofNat 52 (m - fractionUnit) := by
    apply BitVec.eq_of_toNat_eq
    rw [BitVec.toNat_ofNat, BitVec.toNat_ofNat]
    rw [fractionUnit] at hfull ⊢
    omega
  change (if 2 ^ 11 ≤ (e + (1023 : Nat) + (52 : Nat)).toNat + 1 then _
    else if m.log2 + 1 = 53 then
      packComponents Format.binary64 sign
        (BitVec.ofNat 11 (e + (1023 : Nat) + (52 : Nat)).toNat) (BitVec.ofNat 52 m)
    else _) = _
  rw [if_neg hfinite, hlog, if_pos rfl, hbias, hmantissa]

/-- The bits of a double with a full mantissa. -/
theorem toNat_toBits_pack (hfull : fractionUnit ≤ m) (hsmall : m < 2 * fractionUnit)
    (he : -1074 ≤ e) (he' : e ≤ 971) :
    (Float.ofModel (.pack (.finite sign m e hpos))).toBits.toNat =
      (sign.toBitVec.toNat * exponentUnit + (e + 1075).toNat) * fractionUnit +
        (m - fractionUnit) := by
  have hbits : (Float.ofModel (.pack (.finite sign m e hpos))).toBits.toNat =
      (UnpackedFloat.pack Format.binary64 (.finite sign m e hpos)).toNat := rfl
  have hexponent : (BitVec.ofNat 11 (e + 1075).toNat).toNat = (e + 1075).toNat := by
    rw [BitVec.toNat_ofNat]
    omega
  have hmantissa : (BitVec.ofNat 52 (m - fractionUnit)).toNat = m - fractionUnit := by
    rw [BitVec.toNat_ofNat]
    rw [fractionUnit] at hsmall ⊢
    omega
  rw [hbits, pack_eq hfull hsmall he he', toNat_packComponents, hexponent, hmantissa]

/-- The bits of a double with a full mantissa say what was packed. -/
theorem binary64_pack (hfull : fractionUnit ≤ m) (hsmall : m < 2 * fractionUnit)
    (he : -1074 ≤ e) (he' : e ≤ 971) :
    binary64 (.ofModel (.pack (.finite sign m e hpos))) =
      .finite (sign == .negative) m e := by
  have hbits : (Float.ofModel (.pack (.finite sign m e hpos))).toBits.toNat = _ :=
    toNat_toBits_pack hfull hsmall he he'
  generalize Float.ofModel (.pack (.finite sign m e hpos)) = x at hbits
  have hsign : sign.toBitVec.toNat < 2 := sign.toBitVec.isLt
  have hfraction : fractionBits x = m - fractionUnit := by
    rw [fractionBits, hbits]
    rw [fractionUnit] at *
    omega
  have hexponent : exponentBits x = (e + 1075).toNat := by
    rw [exponentBits, hbits]
    rw [fractionUnit, exponentUnit] at *
    omega
  have hsignBit : signBit x = (sign == .negative) := by
    have hquotient : x.toBits.toNat / signUnit = sign.toBitVec.toNat := by
      rw [hbits, signUnit]
      rw [fractionUnit, exponentUnit] at *
      omega
    rw [signBit, hquotient]
    cases sign <;> rfl
  have hspecial : (e + 1075).toNat ≠ 2047 := by omega
  have hleast : (e + 1075).toNat ≠ 0 := by omega
  rw [binary64, hexponent, hfraction, hsignBit, if_neg hspecial, if_neg hleast,
    Nat.add_sub_cancel' hfull, Int.toNat_of_nonneg (by omega), Int.add_sub_assoc]
  simp

/-- A double with a full mantissa survives packing. -/
theorem unpack_pack (hfull : fractionUnit ≤ m) (hsmall : m < 2 * fractionUnit)
    (he : -1074 ≤ e) (he' : e ≤ 971) :
    (Float.Model.pack (.finite sign m e hpos)).unpack = .finite sign m e hpos := by
  have hunfold : (Float.Model.pack (.finite sign m e hpos)).unpack =
      UnpackedFloat.unpack Format.binary64
        (UnpackedFloat.pack Format.binary64 (.finite sign m e hpos)) := rfl
  have hexponent : (BitVec.ofNat 11 (e + 1075).toNat).toNat = (e + 1075).toNat := by
    rw [BitVec.toNat_ofNat]
    omega
  have hspecial : BitVec.ofNat 11 (e + 1075).toNat ≠ -1#11 := by
    intro hequal
    have := hexponent.symm.trans (congrArg BitVec.toNat hequal)
    rw [show (-1#11).toNat = 2047 from rfl] at this
    omega
  have hleast : BitVec.ofNat 11 (e + 1075).toNat ≠ 0#11 := by
    intro hequal
    have := hexponent.symm.trans (congrArg BitVec.toNat hequal)
    rw [show (0#11).toNat = 0 from rfl] at this
    omega
  have hmantissa : (1#1 ++ BitVec.ofNat 52 (m - fractionUnit)).toNat = m := by
    have hlt : m - fractionUnit < 2 ^ 52 := by
      simp only [fractionUnit] at hsmall ⊢
      omega
    have hfraction : (BitVec.ofNat 52 (m - fractionUnit)).toNat = m - fractionUnit := by
      rw [BitVec.toNat_ofNat, Nat.mod_eq_of_lt hlt]
    have himplicit : (1#1).toNat <<< 52 = fractionUnit := rfl
    rw [BitVec.toNat_append, ← Nat.shiftLeft_add_eq_or_of_lt (BitVec.isLt _), hfraction,
      himplicit, Nat.add_sub_cancel' hfull]
  rw [hunfold, pack_eq hfull hsmall he he']
  simp only [UnpackedFloat.unpack, unpackMantissa_packComponents, unpackExponent_packComponents,
    unpackSign_packComponents, Sign.ofBitVec_toBitVec, hspecial, hleast, if_false, hexponent,
    hmantissa]
  have hbias : ((e + 1075).toNat : ℤ) - ((1023 : Nat) + (52 : Nat)) = e := by omega
  exact (UnpackedFloat.finite.injEq ..).mpr ⟨rfl, rfl, hbias⟩

/-- A whole number with fewer bits than a full mantissa is a double. -/
theorem exists_ofNat_of_lt {n : Nat} (hn : 0 < n) (hsmall : n < 2 * fractionUnit) :
    ∃ m e hpos, UnpackedFloat.ofNat Format.binary64 n = .finite .positive m e hpos ∧
      fractionUnit ≤ m ∧ m < 2 * fractionUnit ∧ -52 ≤ e ∧ e ≤ 0 ∧ (m * 2 ^ e : ℚ) = n := by
  have hlog : n.log2 < 53 := (Nat.log2_lt hn.ne').mpr hsmall
  obtain ⟨k, hk⟩ : ∃ k, n.log2 + k = 52 := ⟨52 - n.log2, by omega⟩
  obtain ⟨hfloor, hceiling⟩ := (Nat.log2_eq_iff hn.ne').mp rfl
  have hfull : fractionUnit ≤ n <<< k := by
    rw [Nat.shiftLeft_eq]
    calc fractionUnit = 2 ^ n.log2 * 2 ^ k := by rw [← Nat.pow_add, hk]; rfl
      _ ≤ n * 2 ^ k := Nat.mul_le_mul_right _ hfloor
  have hfull' : n <<< k < 2 * fractionUnit := by
    rw [Nat.shiftLeft_eq]
    calc n * 2 ^ k < 2 ^ (n.log2 + 1) * 2 ^ k :=
          Nat.mul_lt_mul_of_pos_right hceiling (by positivity)
      _ = 2 * fractionUnit := by rw [← Nat.pow_add, Nat.add_right_comm, hk]; rfl
  obtain ⟨hpos, hround⟩ :=
    roundWithAccuracy_full (e := -k) .positive hfull hfull' (by omega)
  refine ⟨n <<< k, -k, hpos, ?_, hfull, hfull', by omega, by omega, ?_⟩
  · have hcompare : compare (n : ℤ) 0 = .gt := compare_gt_iff_gt.mpr (by omega)
    have htarget : Format.binary64.targetExponent (totalExponent n 0) = -k := by
      have hleast : Format.binary64.minExponent = -1074 := rfl
      have hbits : (Format.binary64.mantissaBits : ℤ) = 53 := rfl
      rw [Format.targetExponent, totalExponent, hleast, hbits]
      omega
    rw [UnpackedFloat.ofNat, UnpackedFloat.ofInt, UnpackedFloat.normalize, hcompare]
    simp only [Int.toNat_natCast, UnpackedFloat.round, htarget, decreaseExponent, zero_sub, neg_neg]
    exact hround
  · rw [Nat.shiftLeft_eq, zpow_neg, zpow_natCast]
    push_cast
    rw [mul_assoc, mul_inv_cancel₀ (by positivity), mul_one]

theorem log2_mul_two_pow {n : Nat} (hn : n ≠ 0) (k : Nat) : (n * 2 ^ k).log2 = n.log2 + k := by
  obtain ⟨hfloor, hceiling⟩ := (Nat.log2_eq_iff hn).mp rfl
  refine (Nat.log2_eq_iff (Nat.mul_ne_zero hn (Nat.two_pow_pos k).ne')).mpr ⟨?_, ?_⟩
  · rw [Nat.pow_add]
    exact Nat.mul_le_mul_right _ hfloor
  · rw [Nat.add_right_comm, Nat.pow_add]
    exact Nat.mul_lt_mul_of_pos_right hceiling (Nat.two_pow_pos k)

/-- The double that is made of a whole number is the rounded product of a mantissa and a power
of two. -/
def MadeByRounding (n : Nat) : Prop :=
  ∃ (M : Nat) (E : Int), 52 ≤ M.log2 ∧ M.log2 ≤ 117 ∧ -1074 ≤ E ∧ E ≤ 0 ∧
    (M * 2 ^ E : ℚ) = n ∧
    Float.ofNat n = .ofModel (.pack (roundWithAccuracy Format.binary64 .positive M E .exact))

/-- A small number is converted without rounding and then multiplied by one. -/
theorem madeByRounding_of_lt {n : Nat} (hn : 0 < n) (hsmall : n < 2 ^ 53) : MadeByRounding n := by
  obtain ⟨m, e, hpos, hnat, hfull, hfull', he, he', hvalue⟩ := exists_ofNat_of_lt hn hsmall
  have hone : (Float.ofBits 0x3FF0000000000000).toModel.unpack =
      .finite .positive (2 ^ 52) (-52) (by decide) := rfl
  have hconverted : n.toUInt64.toFloat.toModel.unpack = .finite .positive m e hpos := by
    have hword : n.toUInt64.toNat = n := Nat.mod_eq_of_lt (hsmall.trans (by decide))
    have hmodel : n.toUInt64.toFloat.toModel =
        .pack (UnpackedFloat.ofNat Format.binary64 n.toUInt64.toNat) := rfl
    rw [hmodel, hword, hnat]
    exact unpack_pack hfull hfull' (by omega) (by omega)
  have hproduct : Float.ofNat n =
      .ofModel (.pack (UnpackedFloat.mul Format.binary64 n.toUInt64.toFloat.toModel.unpack
        (Float.ofBits 0x3FF0000000000000).toModel.unpack)) := by
    have hscientific : Float.ofNat n = Float.ofScientific n false 0 := rfl
    rw [hscientific, Float.ofScientific, dif_pos ⟨hsmall, by decide⟩]
    rfl
  have hlog : m.log2 = 52 := (Nat.log2_eq_iff hpos.ne').mpr ⟨hfull, hfull'⟩
  have hlog' : (m * 2 ^ 52).log2 = 104 := by rw [log2_mul_two_pow hpos.ne', hlog]
  refine ⟨m * 2 ^ 52, e + -52, by omega, by omega, by omega, by omega, ?_, ?_⟩
  · rw [← hvalue, zpow_add₀ two_ne_zero]
    push_cast
    ring
  · rw [hproduct, hconverted, hone]
    rfl

/-- A large number is shifted before it is rounded. -/
theorem madeByRounding_of_le {n : Nat} (hlarge : 2 ^ 53 ≤ n) (hbound : n < 2 ^ 64) :
    MadeByRounding n := by
  have hn : n ≠ 0 := by
    rintro rfl
    exact absurd hlarge (by decide)
  have hlog : (n * 2 ^ 53).log2 = n.log2 + 53 := log2_mul_two_pow hn 53
  have hlog' : n.log2 < 64 := (Nat.log2_lt hn).mpr hbound
  have hproduct : Float.ofNat n =
      .ofModel (.pack (UnpackedFloat.ofScientific Format.binary64 n 0)) := by
    have hscientific : Float.ofNat n = Float.ofScientific n false 0 := rfl
    rw [hscientific, Float.ofScientific, dif_neg (fun h => absurd h.1 (not_lt.mpr hlarge))]
    rfl
  refine ⟨n * 2 ^ 53, -53, by omega, by omega, by omega, by omega, ?_, ?_⟩
  · push_cast
    rw [mul_assoc]
    norm_num
  · have hlow : ¬ (0 : ℤ) < -((2 : ℤ) ^ 11 + n.log2) := by omega
    rw [hproduct, UnpackedFloat.ofScientific, dif_neg hn, if_neg (by decide), if_neg hlow,
      if_pos le_rfl]
    have hshift : n <<< 53 * 1 = n * 2 ^ 53 := by rw [Nat.shiftLeft_eq, Nat.mul_one]
    rw [← hshift]
    rfl

/-- The double that is made of a positive whole number is packed from one to which the number
rounds. -/
theorem exists_ofNat {n : Nat} (hn : 0 < n) (hbound : n < 2 ^ 64) :
    ∃ m e hpos, Float.ofNat n = .ofModel (.pack (.finite .positive m e hpos)) ∧
      fractionUnit ≤ m ∧ m < 2 * fractionUnit ∧ -1074 ≤ e ∧ e ≤ 971 ∧ RoundsTo n m e := by
  have hmade : MadeByRounding n := by
    rcases Nat.lt_or_ge n (2 ^ 53) with hsmall | hlarge
    · exact madeByRounding_of_lt hn hsmall
    · exact madeByRounding_of_le hlarge hbound
  obtain ⟨M, E, hM, hM', hE, hE', hvalue, hrounded⟩ := hmade
  obtain ⟨m, e, hpos, hround, hfull, hfull', hleast, hgreatest, hrounds⟩ :=
    exists_roundWithAccuracy .positive hM hE
  refine ⟨m, e, hpos, ?_, hfull, hfull', hleast, by omega, hvalue ▸ hrounds⟩
  rw [hrounded, hround]

/-- The double that is made of a whole number is nearest to it. -/
theorem nearest_ofInt {n : Int} (hbound : n.natAbs < 2 ^ 64) : Nearest n (Float.ofInt n) := by
  cases n with
  | ofNat k =>
    have hunfold : Float.ofInt (Int.ofNat k) = Float.ofNat k := rfl
    have hcast : ((Int.ofNat k : ℤ) : ℚ) = k := rfl
    rw [hunfold, hcast]
    rcases Nat.eq_zero_or_pos k with rfl | hk
    · have hzero : binary64 (Float.ofNat 0) = .finite false 0 (-1074) := by decide +kernel
      rw [Nat.cast_zero]
      exact ⟨false, 0, -1074, hzero, le_rfl, roundsTo_zero⟩
    · obtain ⟨m, e, hpos, hnat, hfull, hsmall, he, he', hrounds⟩ := exists_ofNat hk hbound
      rw [hnat]
      exact ⟨false, m, e, binary64_pack hfull hsmall he he', Nat.cast_nonneg k, hrounds⟩
  | negSucc k =>
    obtain ⟨m, e, hpos, hnat, hfull, hsmall, he, he', hrounds⟩ :=
      exists_ofNat (Nat.succ_pos k) hbound
    have hunfold : Float.ofInt (Int.negSucc k) =
        .ofModel (.pack (Float.ofNat (k + 1)).toModel.unpack.neg) := rfl
    have hnegated : Float.ofInt (Int.negSucc k) =
        .ofModel (.pack (.finite .negative m e hpos)) := by
      rw [hunfold, hnat, unpack_pack hfull hsmall he he']
      rfl
    have hcast : -((Int.negSucc k : ℤ) : ℚ) = (k + 1 : Nat) := by
      rw [Int.cast_negSucc, neg_neg]
    rw [hnegated]
    refine ⟨true, m, e, binary64_pack hfull hsmall he he', ?_, ?_⟩
    · rw [signed, if_pos rfl, hcast]
      exact Nat.cast_nonneg _
    · rw [signed, if_pos rfl, hcast]
      exact hrounds

end EntityQuery.Decimal
