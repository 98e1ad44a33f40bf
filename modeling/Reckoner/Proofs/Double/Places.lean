import Reckoner.Proofs.Decimal.Fixed
import Reckoner.Proofs.Double.Nearest

namespace Reckoner

/-- Whole numbers within a half of a quotient are neighbours, and one of them is
odd. -/
theorem roundDiv_eq_of_error {numerator denominator whole : Nat} (positive : 0 < denominator)
    (error : |(numerator / denominator : ℚ) - whole| ≤ 1 / 2)
    (even : |(numerator / denominator : ℚ) - whole| = 1 / 2 → whole % 2 = 0) :
    roundDiv numerator denominator = whole := by
  obtain ⟨error', even'⟩ := roundDiv_error numerator positive
  generalize roundDiv numerator denominator = rounded at error' even'
  by_contra unlike
  have triangle := abs_sub_le (rounded : ℚ) (numerator / denominator) whole
  rw [abs_sub_comm (rounded : ℚ) (numerator / denominator)] at triangle
  have apart := one_le_abs_sub unlike
  have near : |(rounded : ℤ) - whole| ≤ 1 := by
    have bound : |(rounded : ℚ) - whole| ≤ 1 := by linarith
    exact_mod_cast bound
  have both := even (by linarith)
  have both' := even' (by linarith)
  rw [abs_le] at near
  omega

namespace Double

theorem value_eq_exact (rung : Nat) :
    value rung = (exact rung).coefficient / Decimal.scale (exact rung).places := by
  have scale : (0 : ℚ) < Decimal.scale (exact rung).places :=
    Nat.cast_pos.mpr (Decimal.scale_pos _)
  have same := exact_value rung
  rw [Nat.shiftLeft_eq] at same
  rw [value, div_eq_div_iff (by positivity) scale.ne']
  exact_mod_cast same.symm

variable {precision rung : Nat}

theorem quotient_exact (precision rung : Nat) :
    (((exact rung).coefficient * Decimal.scale precision : Nat) /
        (Decimal.scale (exact rung).places : Nat) : ℚ) =
      value rung * Decimal.scale precision := by
  rw [value_eq_exact]
  push_cast
  ring

theorem unitsAt_exact_error (precision rung : Nat) :
    |value rung * Decimal.scale precision - (exact rung).unitsAt precision| ≤ 1 / 2 ∧
      (|value rung * Decimal.scale precision - (exact rung).unitsAt precision| = 1 / 2 →
        (exact rung).unitsAt precision % 2 = 0) := by
  rw [← quotient_exact]
  exact roundDiv_error _ (Decimal.scale_pos _)

/-- The rung that is read where `rung` was written with `precision` places. -/
def reread (precision rung : Nat) : Nat :=
  ofDecimal ⟨(exact rung).unitsAt precision, precision⟩

/-- What is read back is as near to what was written as what it was written for. -/
theorem reread_error (precision : Nat) (within : rung ≤ infinityRung) :
    |value (reread precision rung) * Decimal.scale precision -
        (exact rung).unitsAt precision| ≤
      |value rung * Decimal.scale precision - (exact rung).unitsAt precision| := by
  have scale : (0 : ℚ) < Decimal.scale precision := Nat.cast_pos.mpr (Decimal.scale_pos _)
  have scaled : ∀ number : ℚ, |number * Decimal.scale precision - (exact rung).unitsAt precision| =
      |((exact rung).unitsAt precision / Decimal.scale precision : ℚ) - number| *
        Decimal.scale precision := by
    intro number
    rw [← abs_of_pos scale, ← abs_mul, abs_of_pos scale, sub_mul, div_mul_cancel₀ _ scale.ne',
      abs_sub_comm]
  have nearest := isNearest_nearestRung ((exact rung).unitsAt precision)
    (Decimal.scale_pos precision)
  rw [scaled, scaled]
  refine mul_le_mul_of_nonneg_right ?_ scale.le
  by_cases same : rung = reread precision rung
  · rw [← same]
  · exact (nearest.preferred rung within same).le

/-- What is read back is written as what it was read from. -/
theorem unitsAt_reread (precision : Nat) (within : rung ≤ infinityRung) :
    (exact (reread precision rung)).unitsAt precision = (exact rung).unitsAt precision := by
  obtain ⟨error, even⟩ := unitsAt_exact_error precision rung
  have nearer := reread_error precision within
  refine roundDiv_eq_of_error (Decimal.scale_pos _) ?_ fun half => ?_
  · rw [quotient_exact]
    exact nearer.trans error
  · rw [quotient_exact] at half
    exact even (le_antisymm error (half ▸ nearer))

theorem value_succ (rung : Nat) :
    value (rung + 1) = value rung + 2 ^ shift rung / 2 ^ unitHalvings := by
  rw [value, value, units_succ, Nat.cast_add, add_div, Nat.cast_pow, Nat.cast_ofNat]

/-- Where the ladder ends, its steps are longer than one. -/
theorem value_add_one_lt (below : rung < infinityRung) : value rung + 1 < value infinityRung := by
  have spaced : shift (infinityRung - 1) = 971 + unitHalvings := by decide
  have last : infinityRung - 1 + 1 = infinityRung := by decide
  have lower := value_strictMono.monotone (Nat.le_pred_of_lt below)
  have wide : (1 : ℚ) < 2 ^ 971 := one_lt_pow₀ (by norm_num) (by decide)
  have step := value_succ (infinityRung - 1)
  rw [last, spaced, pow_add, mul_div_cancel_right₀ _ (by positivity)] at step
  rw [step]
  exact add_lt_add_of_le_of_lt lower wide

/-- Nothing finite is read back as infinite. -/
theorem reread_lt (precision : Nat) (below : rung < infinityRung) :
    reread precision rung < infinityRung := by
  refine lt_of_le_of_ne (Nat.min_le_left _ _) fun infinite => ?_
  have scale : (1 : ℚ) ≤ Decimal.scale precision := by
    exact_mod_cast Decimal.scale_pos precision
  have error := (unitsAt_exact_error precision rung).1
  have error' := (reread_error precision below.le).trans error
  rw [infinite] at error'
  have far : (value rung + 1) * Decimal.scale precision <
      value infinityRung * Decimal.scale precision :=
    mul_lt_mul_of_pos_right (value_add_one_lt below) (by linarith)
  have low := (abs_le.mp error).1
  have high := (abs_le.mp error').2
  linarith

theorem expand_places_le (significand halvings : Nat) :
    (expand significand halvings).places ≤ halvings := by
  induction halvings generalizing significand with
  | zero => exact le_rfl
  | succ halvings ih =>
      unfold expand
      split
      · exact (ih _).trans (Nat.le_succ _)
      · exact le_rfl

theorem exact_places_le (rung : Nat) : (exact rung).places ≤ unitHalvings := by
  unfold exact
  split
  · exact Nat.zero_le _
  · exact (expand_places_le _ _).trans (Nat.sub_le _ _)

theorem reread_eq_self (below : rung < infinityRung) (enough : unitHalvings ≤ precision) :
    reread precision rung = rung := by
  obtain ⟨more, rfl⟩ := Nat.exists_eq_add_of_le ((exact_places_le rung).trans enough)
  rw [reread, Decimal.unitsAt_add, ofDecimal, Decimal.scale_add,
    nearestRung_mul_right _ _ (Decimal.scale_pos more)]
  exact ofDecimal_exact below

end Double

end Reckoner
