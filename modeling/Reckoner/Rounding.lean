namespace Reckoner

/-- The natural number nearest to `numerator / denominator`, a half going to
the even neighbour. -/
def roundDiv (numerator denominator : Nat) : Nat :=
  let below := numerator / denominator
  let twice := 2 * (numerator % denominator)
  if twice < denominator ∨ (twice = denominator ∧ below % 2 = 0) then below else below + 1

theorem roundDiv_cases (numerator denominator : Nat) :
    (roundDiv numerator denominator = numerator / denominator ∧
        2 * (numerator % denominator) ≤ denominator) ∨
      (roundDiv numerator denominator = numerator / denominator + 1 ∧
        denominator ≤ 2 * (numerator % denominator)) := by
  unfold roundDiv
  dsimp only
  split
  · exact .inl ⟨rfl, by omega⟩
  · exact .inr ⟨rfl, by omega⟩

/-- Only the quotient counts, not the terms it is written with. -/
theorem roundDiv_mul_right (numerator denominator : Nat) {factor : Nat} (positive : 0 < factor) :
    roundDiv (numerator * factor) (denominator * factor) = roundDiv numerator denominator := by
  unfold roundDiv
  dsimp only
  rw [Nat.mul_div_mul_right _ _ positive, Nat.mul_mod_mul_right, ← Nat.mul_assoc]
  have less : 2 * (numerator % denominator) * factor < denominator * factor ↔
      2 * (numerator % denominator) < denominator := Nat.mul_lt_mul_right positive
  have equal : 2 * (numerator % denominator) * factor = denominator * factor ↔
      2 * (numerator % denominator) = denominator := Nat.mul_left_inj (Nat.ne_of_gt positive)
  simp only [less, equal]

theorem roundDiv_mul_self (quotient : Nat) {denominator : Nat} (positive : 0 < denominator) :
    roundDiv (quotient * denominator) denominator = quotient := by
  unfold roundDiv
  simp [Nat.mul_div_cancel _ positive, positive]

end Reckoner
