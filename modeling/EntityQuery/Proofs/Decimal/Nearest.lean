import EntityQuery.Proofs.Decimal.Reading
import EntityQuery.Proofs.Decimal.Shortest

/-!
# The double nearest to a quantity

Every finite double is the nearest one to the quantity that its text denotes. Of larger
quantities the nearest doubles have larger ranks, so two doubles that are nearest to one
quantity have one rank, and so have two doubles with one text.
-/

namespace EntityQuery.Decimal

variable {x y : Float} {m : Nat} {e : Int} {negative : Bool} {q q' : ℚ}

/-- Negate if told so. -/
def signed {α : Type} [Neg α] (negative : Bool) (a : α) : α := if negative then -a else a

/-- A double is finite and a quantity of its sign rounds to it. -/
def Nearest (q : ℚ) (x : Float) : Prop :=
  ∃ negative m e, binary64 x = .finite negative m e ∧ 0 ≤ signed negative q ∧
    RoundsTo (signed negative q) m e

/-- What the fields of a finite double say about its mantissa and exponent. -/
theorem canonical_of_binary64 (h : binary64 x = .finite negative m e) :
    Canonical m e ∧ e ≤ 971 := by
  have hfraction : fractionBits x < fractionUnit := Nat.mod_lt _ (by decide)
  have hexponent : exponentBits x < exponentUnit := Nat.mod_lt _ (by decide)
  rw [exponentUnit] at hexponent
  rw [fractionUnit] at hfraction
  unfold binary64 at h
  split_ifs at h
  · cases h
    exact ⟨⟨by rw [fractionUnit]; omega, le_rfl, .inr rfl⟩, by decide⟩
  · cases h
    exact ⟨⟨by rw [fractionUnit]; omega, by omega, .inl (Nat.le_add_right _ _)⟩, by omega⟩

/-- The rank of a finite double is its place among those of its sign. -/
theorem rank_of_binary64 (h : binary64 x = .finite negative m e) :
    rank x = some (signed negative (place m e)) := by
  have hbits : x.toBits.toNat < 2 ^ 64 := x.toBits.toNat_lt
  have hfields : ((x.toBits.toNat % signUnit : Nat) : ℤ) =
      exponentBits x * fractionUnit + fractionBits x := by
    simp only [exponentBits, fractionBits, signUnit, fractionUnit, exponentUnit]
    omega
  unfold binary64 at h
  split_ifs at h with hspecial hfraction hleast
  · obtain ⟨rfl, rfl, rfl⟩ := Binary64.finite.inj h
    simp only [rank, hfields, place, hleast]
    rfl
  · obtain ⟨rfl, rfl, rfl⟩ := Binary64.finite.inj h
    have hplace : place (fractionUnit + fractionBits x) (exponentBits x - 1075) =
        exponentBits x * fractionUnit + fractionBits x := by
      rw [place]
      push_cast
      ring
    simp only [rank, hspecial, false_and, if_false, signed, hfields, hplace]

theorem rank_of_nan (h : binary64 x = .nan) : rank x = none := by
  unfold binary64 at h
  split_ifs at h with hspecial hfraction
  simp only [rank, hspecial, hfraction, ne_eq, not_false_eq_true, and_self, if_true]

theorem rank_of_infinite (h : binary64 x = .infinite negative) :
    rank x = some (signed negative (2047 * fractionUnit : ℤ)) := by
  have hbits : x.toBits.toNat < 2 ^ 64 := x.toBits.toNat_lt
  unfold binary64 at h
  split_ifs at h with hspecial hfraction
  obtain rfl := Binary64.infinite.inj h
  have hmagnitude : ((x.toBits.toNat % signUnit : Nat) : ℤ) = 2047 * fractionUnit := by
    simp only [exponentBits, fractionBits, signUnit, fractionUnit, exponentUnit] at *
    omega
  simp only [rank, hfraction, ne_eq, not_true_eq_false, and_false, if_false, hmagnitude, signed]

/-- Zero and its interval. -/
theorem roundsTo_zero : RoundsTo 0 0 (-1074) := by
  have hlow : lowEnd 0 (-1074) ≤ 0 := by
    rw [lowEnd, gap]
    norm_num
  have hhigh : 0 ≤ highEnd 0 (-1074) := by
    rw [highEnd]
    positivity
  exact ⟨hlow, hhigh, .inl rfl⟩

theorem canonical_zero : Canonical 0 (-1074) := ⟨by decide, le_rfl, .inr rfl⟩

theorem place_nonneg (h : Canonical m e) : 0 ≤ place m e := by
  have hleast := h.le_exponent
  rw [place, fractionUnit]
  omega

theorem place_zero : place 0 (-1074) = 0 := rfl

theorem Nearest.exists_rank (h : Nearest q x) : ∃ i, rank x = some i := by
  obtain ⟨negative, m, e, hx, -⟩ := h
  exact ⟨_, rank_of_binary64 hx⟩

/-- Of larger quantities the nearest doubles have larger ranks. -/
theorem Nearest.rank_le (hx : Nearest q x) (hy : Nearest q' y) (hle : q ≤ q') :
    ∃ i j, rank x = some i ∧ rank y = some j ∧ i ≤ j := by
  obtain ⟨negative, m, e, hxe, hsign, hq⟩ := hx
  obtain ⟨negative', m', e', hye, hsign', hq'⟩ := hy
  refine ⟨_, _, rank_of_binary64 hxe, rank_of_binary64 hye, ?_⟩
  obtain ⟨hcanonical, -⟩ := canonical_of_binary64 hxe
  obtain ⟨hcanonical', -⟩ := canonical_of_binary64 hye
  have hnonneg := place_nonneg hcanonical
  have hnonneg' := place_nonneg hcanonical'
  cases negative with
  | false =>
    cases negative' with
    | false => exact hq.place_le hq' hcanonical hcanonical' hle
    | true =>
      simp only [signed, if_true, Bool.false_eq_true, if_false] at hsign hsign' hq hq' ⊢
      have hzero := hq.place_le roundsTo_zero hcanonical canonical_zero (by linarith)
      have hzero' := hq'.place_le roundsTo_zero hcanonical' canonical_zero (by linarith)
      simp only [place_zero] at hzero hzero'
      omega
  | true =>
    cases negative' with
    | false =>
      simp only [signed, if_true, Bool.false_eq_true, if_false]
      omega
    | true =>
      have hplace := hq'.place_le hq hcanonical' hcanonical (neg_le_neg hle)
      simp only [signed, if_true]
      omega

/-- Doubles that are nearest to one quantity have one rank. -/
theorem Nearest.rank_eq (hx : Nearest q x) (hy : Nearest q y) : rank x = rank y := by
  obtain ⟨i, j, hi, hj, hle⟩ := hx.rank_le hy le_rfl
  obtain ⟨j', i', hj', hi', hge⟩ := hy.rank_le hx le_rfl
  obtain rfl := Option.some.inj (hi.symm.trans hi')
  obtain rfl := Option.some.inj (hj.symm.trans hj')
  rw [hi, hj, le_antisymm hle hge]

/-- A sign before the text of a quantity that rounds to a double, up to the sign, denotes a
quantity to which the double is nearest. -/
theorem exists_quantity_of_sign {cs : List Char} (h : binary64 x = .finite negative m e)
    (hstarts : StartsWithDigit cs) (hq : quantity? cs = some q) (hnonneg : 0 ≤ q)
    (hrounds : RoundsTo q m e) :
    ∃ q, quantity? ((if negative then "-" else "") ++ String.ofList cs).toList = some q ∧
      Nearest q x := by
  rw [String.toList_append, String.toList_ofList]
  cases negative with
  | false => exact ⟨q, hq, false, m, e, h, hnonneg, hrounds⟩
  | true =>
    refine ⟨-q, ?_, true, m, e, h, ?_, ?_⟩
    · exact (quantity?_minus hstarts).trans (congrArg (Option.map Neg.neg) hq)
    · exact hnonneg.trans_eq (neg_neg q).symm
    · rw [signed, if_pos rfl, neg_neg]
      exact hrounds

/-- The text of a finite double denotes a quantity, and the double is nearest to it. -/
theorem exists_quantity_of_binary64 (h : binary64 x = .finite negative m e) :
    ∃ q, quantity? (FloatFormat.plain.text x).toList = some q ∧ Nearest q x := by
  obtain ⟨hcanonical, hbound⟩ := canonical_of_binary64 h
  by_cases hzero : m = 0
  · subst hzero
    obtain rfl : e = -1074 := hcanonical.full.resolve_left (by decide)
    have hall : ∀ c ∈ ['0'], c.isDigit = true := List.all_eq_true.mp (by decide)
    have htext : FloatFormat.plain.text x =
        (if negative then "-" else "") ++ String.ofList (positionalText false ['0'] 0) := by
      simp only [FloatFormat.text, h]
      rfl
    have hquantity : quantity? (positionalText false ['0'] 0) = some 0 := by
      rw [quantity?_positionalText (List.cons_ne_nil _ _) hall]
      simp [spelled, digitValue]
    rw [htext]
    exact exists_quantity_of_sign h (startsWithDigit_positionalText (List.cons_ne_nil _ _) hall 0)
      hquantity le_rfl roundsTo_zero
  · generalize hdecimal : shortest .up m e = decimal
    have hrounds : RoundsTo (decimal.digits * 10 ^ decimal.exponent) m e :=
      hdecimal ▸ shortest_roundsTo hcanonical (Nat.pos_of_ne_zero hzero) hbound
    have hall : ∀ c ∈ digitsOf decimal.digits, c.isDigit = true :=
      fun _ => isDigit_of_mem_digitsOf
    have htext : FloatFormat.plain.text x = (if negative then "-" else "") ++
        String.ofList (positionalText false (digitsOf decimal.digits) decimal.exponent) := by
      simp only [FloatFormat.text, h, if_neg hzero, ← hdecimal]
      rfl
    have hquantity := quantity?_positionalText digitsOf_ne_nil hall decimal.exponent
    rw [spelled_digitsOf] at hquantity
    rw [htext]
    exact exists_quantity_of_sign h (startsWithDigit_positionalText digitsOf_ne_nil hall _)
      hquantity (by positivity) hrounds

/-- No other double has such a text. -/
theorem quantity?_eq_none (h : ∀ negative m e, binary64 x ≠ .finite negative m e) :
    quantity? (FloatFormat.plain.text x).toList = none := by
  have htexts : ∀ text ∈ ["NaN", "inf", "-inf"], quantity? text.toList = none := by
    have hread : ∀ text ∈ ["NaN", "inf", "-inf"], Numeral.read? text.toList = none := by decide
    intro text hmem
    rw [quantity?, hread text hmem]
    rfl
  apply htexts
  cases hx : binary64 x with
  | nan => simp [FloatFormat.text, hx, FloatFormat.plain]
  | infinite negative => cases negative <;> simp [FloatFormat.text, hx, FloatFormat.plain]
  | finite negative m e => exact absurd hx (h negative m e)

/-- A double is nearest to the quantity that its text denotes. -/
theorem nearest_of_quantity? (h : quantity? (FloatFormat.plain.text x).toList = some q) :
    Nearest q x := by
  cases hx : binary64 x with
  | finite negative m e =>
    obtain ⟨q', hq', hnearest⟩ := exists_quantity_of_binary64 hx
    obtain rfl := Option.some.inj (hq'.symm.trans h)
    exact hnearest
  | _ =>
    rw [quantity?_eq_none (by simp [hx])] at h
    cases h

/-- Doubles that are written alike have one rank. -/
theorem rank_eq_of_text_eq (h : FloatFormat.plain.text x = FloatFormat.plain.text y) :
    rank x = rank y := by
  cases hquantity : quantity? (FloatFormat.plain.text x).toList with
  | some q =>
    have hx := nearest_of_quantity? hquantity
    have hy := nearest_of_quantity? (h ▸ hquantity)
    exact hx.rank_eq hy
  | none =>
    have hfinite : ∀ {z : Float}, quantity? (FloatFormat.plain.text z).toList = none →
        ∀ negative m e, binary64 z ≠ .finite negative m e := by
      intro z hnone negative m e hz
      obtain ⟨q, hq, -⟩ := exists_quantity_of_binary64 hz
      cases hnone.symm.trans hq
    cases hx : binary64 x with
    | finite negative m e => exact absurd hx (hfinite hquantity negative m e)
    | nan =>
      cases hy : binary64 y with
      | finite negative m e => exact absurd hy (hfinite (h ▸ hquantity) negative m e)
      | nan => rw [rank_of_nan hx, rank_of_nan hy]
      | infinite negative =>
        exfalso
        cases negative <;> simp [FloatFormat.text, hx, hy, FloatFormat.plain] at h
    | infinite negative =>
      cases hy : binary64 y with
      | finite negative m e => exact absurd hy (hfinite (h ▸ hquantity) negative m e)
      | nan =>
        exfalso
        cases negative <;> simp [FloatFormat.text, hx, hy, FloatFormat.plain] at h
      | infinite negative' =>
        have hsign : negative = negative' := by
          by_contra hdiffer
          cases negative <;> cases negative' <;>
            simp [FloatFormat.text, hx, hy, FloatFormat.plain] at h hdiffer
        rw [rank_of_infinite hx, rank_of_infinite hy, hsign]

end EntityQuery.Decimal
