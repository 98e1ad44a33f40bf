import Reckoner.Decimal

namespace Reckoner.Decimal

variable {coefficient places : Nat}

theorem leftpad_digitChar {digit : Nat} (small : digit < 10) (places : Nat) :
    (Nat.toDigits 10 digit).leftpad (places + 1) '0' =
      List.replicate places '0' ++ [Nat.digitChar digit] := by
  simp [List.leftpad, Nat.toDigits_of_lt_base small]

/-- The last place holds the last digit. -/
theorem fraction_succ (coefficient places : Nat) :
    fraction ⟨coefficient, places + 1⟩ =
      fraction ⟨coefficient / 10, places⟩ ++ [Nat.digitChar (coefficient % 10)] := by
  have digit : coefficient % scale (places + 1) % 10 = coefficient % 10 := by
    rw [scale_succ]
    exact Nat.mod_mul_left_mod _ _ _
  have others : coefficient % scale (places + 1) / 10 = coefficient / 10 % scale places := by
    rw [scale_succ, Nat.mul_comm]
    exact Nat.mod_mul_right_div_self _ _ _
  simp only [fraction, Nat.succ_ne_zero, if_false]
  rw [← digit, ← others]
  generalize size : coefficient % scale (places + 1) = rest
  cases places with
  | zero =>
      have small : rest < 10 := size ▸ Nat.mod_lt _ (by decide)
      rw [leftpad_digitChar small, Nat.mod_eq_of_lt small]
      rfl
  | succ places =>
      rw [if_neg (Nat.succ_ne_zero places)]
      rcases Nat.lt_or_ge rest 10 with small | large
      · rw [leftpad_digitChar small, Nat.mod_eq_of_lt small, Nat.div_eq_of_lt small,
          leftpad_digitChar (by decide), List.replicate_succ']
        rfl
      · rw [Nat.toDigits_of_base_le (by decide) large]
        simp [List.leftpad]

/-- One place more is a zero more, and nothing else. -/
theorem fraction_mul_scale (coefficient places more : Nat) :
    fraction ⟨coefficient * scale more, places + more⟩ =
      fraction ⟨coefficient, places⟩ ++ List.replicate more '0' := by
  induction more with
  | zero => simp [scale_zero]
  | succ more ih =>
      have last : coefficient * scale (more + 1) = coefficient * scale more * 10 := by
        rw [scale_succ, Nat.mul_assoc]
      rw [← Nat.add_assoc, fraction_succ, last, Nat.mul_div_cancel _ (by decide),
        Nat.mul_mod_left, ih, List.replicate_succ', List.append_assoc]
      rfl

theorem whole_mul_scale (coefficient places more : Nat) :
    whole ⟨coefficient * scale more, places + more⟩ = whole ⟨coefficient, places⟩ := by
  unfold whole
  dsimp only
  rw [scale_add, Nat.mul_div_mul_right _ _ (scale_pos more)]

/-- How many units of the last of `precision` places the decimal is nearest to. -/
def unitsAt (precision : Nat) (decimal : Decimal) : Nat :=
  roundDiv (decimal.coefficient * scale precision) (scale decimal.places)

/-- With places enough nothing is rounded. -/
theorem unitsAt_add (coefficient places more : Nat) :
    unitsAt (places + more) ⟨coefficient, places⟩ = coefficient * scale more := by
  have exactly : coefficient * scale (places + more) = coefficient * scale more * scale places := by
    rw [scale_add, Nat.mul_right_comm, Nat.mul_assoc]
  rw [unitsAt, exactly, roundDiv_mul_self _ (scale_pos places)]

theorem fixedText_eq_text (point : Char) (precision : Nat) (decimal : Decimal) :
    decimal.fixedText point precision = text point ⟨decimal.unitsAt precision, precision⟩ := by
  obtain ⟨coefficient, places⟩ := decimal
  unfold fixedText text roundTo
  dsimp only
  split
  case isTrue enough =>
    obtain ⟨more, rfl⟩ := Nat.exists_eq_add_of_le enough
    rw [unitsAt_add, whole_mul_scale, fraction_mul_scale, List.rightpad, length_fraction,
      Nat.add_sub_cancel_left]
  case isFalse fewer =>
    obtain ⟨more, rfl⟩ := Nat.exists_eq_add_of_le (Nat.le_of_not_le fewer)
    rw [unitsAt, Nat.add_sub_cancel_left, Nat.add_comm precision, scale_add,
      roundDiv_mul_right _ _ (scale_pos precision), List.rightpad, length_fraction, Nat.sub_self,
      List.replicate_zero, List.append_nil]

end Reckoner.Decimal
