import Reckoner.Double.Shortest
import Reckoner.Proofs.Double.Sign

namespace Reckoner.Double

theorem nearestRung_mul_right (numerator denominator : Nat) {factor : Nat} (positive : 0 < factor) :
    nearestRung (numerator * factor) (denominator * factor) =
      nearestRung numerator denominator := by
  have scaled : (numerator * factor) <<< unitHalvings = numerator <<< unitHalvings * factor := by
    rw [Nat.shiftLeft_eq, Nat.shiftLeft_eq, Nat.mul_right_comm]
  have spaced : ∀ shift, (denominator * factor) <<< shift = denominator <<< shift * factor := by
    intro shift
    rw [Nat.shiftLeft_eq, Nat.shiftLeft_eq, Nat.mul_right_comm]
  unfold nearestRung
  simp only [scaled, spaced, Nat.mul_div_mul_right _ _ positive, roundDiv_mul_right _ _ positive]

theorem ofDecimal_trimmed (decimal : Decimal) : ofDecimal decimal.trimmed = ofDecimal decimal := by
  obtain ⟨coefficient, places⟩ := decimal
  have value := Decimal.trim_value coefficient places
  have fewer := Decimal.trim_places_le coefficient places
  simp only [Decimal.trimmed, ofDecimal]
  generalize Decimal.trim coefficient places = trimmed at value fewer
  rw [← nearestRung_mul_right _ _ (Decimal.scale_pos (places - trimmed.places)), value,
    ← Decimal.scale_add, Nat.add_sub_cancel' fewer]

theorem shift_mul_binade_add_significand (rung : Nat) :
    shift rung * binade + significand rung = rung := by
  have split := Nat.div_add_mod rung binade
  unfold shift significand
  by_cases lowest : rung < binade
  · rw [if_pos lowest, Nat.div_eq_of_lt lowest, Nat.zero_sub, Nat.zero_mul, Nat.zero_add]
  · have above : 0 < rung / binade := Nat.div_pos (Nat.le_of_not_lt lowest) (by decide)
    have whole : (rung / binade - 1) * binade + binade = rung / binade * binade := by
      rw [← Nat.succ_mul, Nat.succ_eq_add_one, Nat.sub_add_cancel above]
    rw [if_neg lowest, ← Nat.add_assoc, whole, Nat.mul_comm]
    exact split

theorem log2_units (rung : Nat) : (units rung).log2 - 52 = shift rung := by
  by_cases lowest : rung < binade
  · have flat : units rung = rung := by
      simp [units, significand, shift, lowest, Nat.div_eq_of_lt lowest]
    rw [flat, shift, Nat.div_eq_of_lt lowest]
    rcases Nat.eq_zero_or_pos rung with rfl | positive
    · rfl
    · have log := (Nat.log2_lt (Nat.ne_of_gt positive)).mpr (show rung < 2 ^ 52 from lowest)
      omega
  · have least : 2 ^ 52 ≤ significand rung := by
      rw [significand, if_neg lowest]
      exact Nat.le_add_right _ _
    have most : significand rung < 2 ^ 53 := by
      rw [significand, if_neg lowest]
      have rest : rung % binade < binade := Nat.mod_lt _ (by decide)
      exact Nat.add_lt_add_left rest binade
    have positive := Nat.two_pow_pos (shift rung)
    have log : (units rung).log2 = 52 + shift rung := by
      rw [units, Nat.shiftLeft_eq]
      refine (Nat.log2_eq_iff (Nat.ne_of_gt (Nat.mul_pos (by omega) positive))).mpr ⟨?_, ?_⟩
      · rw [Nat.pow_add]
        exact Nat.mul_le_mul_right _ least
      · rw [Nat.add_right_comm, Nat.pow_add]
        exact Nat.mul_lt_mul_of_pos_right most positive
    rw [log, Nat.add_sub_cancel_left]

theorem nearestRung_of_units {rung numerator denominator : Nat} (below : rung < infinityRung)
    (positive : 0 < denominator)
    (lies : numerator <<< unitHalvings = units rung * denominator) :
    nearestRung numerator denominator = rung := by
  have spaced : units rung * denominator = significand rung * (denominator <<< shift rung) := by
    rw [units, Nat.shiftLeft_eq, Nat.shiftLeft_eq, Nat.mul_assoc, Nat.mul_comm denominator]
  have wide : 0 < denominator <<< shift rung := by
    rw [Nat.shiftLeft_eq]
    exact Nat.mul_pos positive (Nat.two_pow_pos _)
  unfold nearestRung
  simp only [lies]
  rw [Nat.mul_div_cancel _ positive, log2_units, spaced, roundDiv_mul_self _ wide,
    shift_mul_binade_add_significand]
  exact Nat.min_eq_right (Nat.le_of_lt below)

theorem ofDecimal_exact {rung : Nat} (below : rung < infinityRung) :
    ofDecimal (exact rung) = rung :=
  nearestRung_of_units below (Decimal.scale_pos _) (exact_value rung)

/-- Digits are only left out where the rest reads back. -/
theorem ofDecimal_shorten {rung : Nat} {exact : Decimal} (reads : ofDecimal exact = rung)
    (dropped : Nat) : ofDecimal (shorten rung exact dropped) = rung := by
  induction dropped with
  | zero => exact reads
  | succ dropped ih =>
      unfold shorten
      dsimp only
      split
      next below =>
        split
        next above => exact eq_of_beq above.1
        next => exact eq_of_beq below
      next =>
        split
        next above => exact eq_of_beq above
        next => exact ih

theorem ofDecimal_shortest {rung : Nat} (below : rung < infinityRung) :
    ofDecimal (shortest rung) = rung := by
  unfold shortest
  rw [ofDecimal_trimmed]
  exact ofDecimal_shorten (ofDecimal_exact below) _

theorem toFloat_of_ofFloat {value : Float} {rung : Nat}
    (finite : ofFloat value = .finite false rung) :
    rung < infinityRung ∧ toFloat rung = value := by
  obtain ⟨below, same⟩ := ofFloat_eq_finite_iff.mp finite
  exact ⟨below, same.symm⟩

end Reckoner.Double
