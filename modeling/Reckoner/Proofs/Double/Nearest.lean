import Mathlib.Algebra.Order.Ring.Rat
import Mathlib.Algebra.Order.Field.Basic
import Mathlib.Data.Nat.Cast.Order.Field
import Mathlib.Order.Monotone.Basic
import Mathlib.Tactic.Linarith
import Mathlib.Tactic.FieldSimp
import Mathlib.Tactic.Positivity
import Mathlib.Tactic.Ring
import Reckoner.Proofs.Double.ReadBack

namespace Reckoner

/-! The rung nearest to a number.  Main statement: every other rung than the one
that `nearestRung` finds is farther from the quotient, or as far if the one that
is found is even.  Only one rung is like that.
-/

/-- Of two marks of a scale the first is nearer to the number, or it is even and
as near. -/
def Preferred (scale : Nat → ℚ) (number : ℚ) (mark other : Nat) : Prop :=
  |number - scale mark| < |number - scale other| ∨
    |number - scale mark| = |number - scale other| ∧ mark % 2 = 0

theorem Preferred.le {scale : Nat → ℚ} {number : ℚ} {mark other : Nat}
    (preferred : Preferred scale number mark other) :
    |number - scale mark| ≤ |number - scale other| :=
  preferred.elim le_of_lt fun tie => tie.1.le

theorem one_le_abs_sub {whole other : Nat} (unlike : whole ≠ other) :
    (1 : ℚ) ≤ |(whole : ℚ) - other| := by
  have distinct : (1 : ℤ) ≤ |(whole : ℤ) - other| := by
    refine Int.one_le_abs (sub_ne_zero.mpr fun equal => unlike ?_)
    exact_mod_cast equal
  exact_mod_cast distinct

section

variable {numerator denominator : Nat}

theorem roundDiv_even (tie : 2 * (numerator % denominator) = denominator) :
    roundDiv numerator denominator % 2 = 0 := by
  unfold roundDiv
  dsimp only
  split <;> omega

theorem roundDiv_error (numerator : Nat) (positive : 0 < denominator) :
    |(numerator / denominator : ℚ) - roundDiv numerator denominator| ≤ 1 / 2 ∧
      (|(numerator / denominator : ℚ) - roundDiv numerator denominator| = 1 / 2 →
        roundDiv numerator denominator % 2 = 0) := by
  have wide : (0 : ℚ) < denominator := Nat.cast_pos.mpr positive
  have whole : (numerator : ℚ) =
      denominator * (numerator / denominator : Nat) + (numerator % denominator : Nat) := by
    exact_mod_cast (Nat.div_add_mod numerator denominator).symm
  have below : ((numerator % denominator : Nat) : ℚ) < denominator := by
    exact_mod_cast Nat.mod_lt numerator positive
  have quotient : (numerator / denominator : ℚ) =
      (numerator / denominator : Nat) + (numerator % denominator : Nat) / denominator := by
    rw [whole]
    field_simp
  have even : ((numerator % denominator : Nat) : ℚ) / denominator = 1 / 2 →
      roundDiv numerator denominator % 2 = 0 := by
    intro half
    refine roundDiv_even ?_
    rw [div_eq_iff wide.ne'] at half
    have twice : (2 * (numerator % denominator : Nat) : ℚ) = denominator := by linarith
    exact_mod_cast twice
  rcases roundDiv_cases numerator denominator with ⟨rounded, near⟩ | ⟨rounded, far⟩
  · have least : (0 : ℚ) ≤ (numerator % denominator : Nat) / denominator := by positivity
    have most : ((numerator % denominator : Nat) / denominator : ℚ) ≤ 1 / 2 := by
      rw [div_le_iff₀ wide]
      have twice : (2 * (numerator % denominator : Nat) : ℚ) ≤ denominator := by
        exact_mod_cast near
      linarith
    have error : |(numerator / denominator : ℚ) - roundDiv numerator denominator| =
        (numerator % denominator : Nat) / denominator := by
      rw [quotient, rounded, add_sub_cancel_left, abs_of_nonneg least]
    rw [error]
    exact ⟨most, even⟩
  · have least : (1 / 2 : ℚ) ≤ (numerator % denominator : Nat) / denominator := by
      rw [le_div_iff₀ wide]
      have twice : (denominator : ℚ) ≤ 2 * (numerator % denominator : Nat) := by
        exact_mod_cast far
      linarith
    have most : ((numerator % denominator : Nat) / denominator : ℚ) < 1 :=
      (div_lt_one wide).mpr below
    have error : |(numerator / denominator : ℚ) - roundDiv numerator denominator| =
        1 - (numerator % denominator : Nat) / denominator := by
      rw [quotient, rounded, abs_sub_comm, abs_of_nonneg] <;> push_cast <;> linarith
    rw [error]
    exact ⟨by linarith, fun half => even (by linarith)⟩

theorem roundDiv_preferred (positive : 0 < denominator) {other : Nat}
    (unlike : other ≠ roundDiv numerator denominator) :
    Preferred Nat.cast (numerator / denominator) (roundDiv numerator denominator) other := by
  obtain ⟨error, even⟩ := roundDiv_error numerator positive
  have apart := one_le_abs_sub unlike.symm
  have triangle := abs_sub_le (roundDiv numerator denominator : ℚ) (numerator / denominator) other
  rw [abs_sub_comm (roundDiv numerator denominator : ℚ) (numerator / denominator)] at triangle
  rcases error.lt_or_eq with near | half
  · exact .inl (by linarith)
  · rcases (show (1 / 2 : ℚ) ≤ |(numerator / denominator : ℚ) - other| by linarith).lt_or_eq
      with farther | tie
    · exact .inl (by linarith)
    · exact .inr ⟨half.trans tie, even half⟩

end

namespace Double

/-- The number on a rung.  The infinite rung stands where the next power of two
would be. -/
def value (rung : Nat) : ℚ :=
  units rung / 2 ^ unitHalvings

/-- The number is rounded to this rung. -/
structure IsNearest (rung : Nat) (number : ℚ) : Prop where
  within : rung ≤ infinityRung
  preferred : ∀ other ≤ infinityRung, other ≠ rung → Preferred value number rung other

theorem units_eq (rung : Nat) : units rung = significand rung * 2 ^ shift rung :=
  Nat.shiftLeft_eq _ _

/-- Up to the next power of two the rungs are evenly spaced. -/
theorem units_add {doublings steps : Nat} (least : doublings = 0 ∨ binade ≤ steps)
    (most : steps ≤ 2 * binade) :
    units (doublings * binade + steps) = steps * 2 ^ doublings := by
  rw [units_eq]
  by_cases lowest : steps < binade
  · obtain rfl : doublings = 0 := least.resolve_right (Nat.not_le_of_lt lowest)
    simp [significand, shift, lowest, Nat.div_eq_of_lt lowest]
  · obtain ⟨beyond, rfl⟩ := Nat.exists_eq_add_of_le (Nat.le_of_not_lt lowest)
    have place : doublings * binade + (binade + beyond) =
        beyond + (doublings + 1) * binade := by ring
    have above : ¬ beyond + (doublings + 1) * binade < binade := by
      have := Nat.le_mul_of_pos_left binade (Nat.succ_pos doublings)
      omega
    have quotient : (beyond + (doublings + 1) * binade) / binade =
        beyond / binade + (doublings + 1) :=
      Nat.add_mul_div_right _ _ (by decide)
    have remainder : (beyond + (doublings + 1) * binade) % binade = beyond % binade :=
      Nat.add_mul_mod_self_right _ _ _
    rw [place]
    simp only [significand, shift, if_neg above, quotient, remainder]
    rcases Nat.lt_or_ge beyond binade with inside | outside
    · rw [Nat.div_eq_of_lt inside, Nat.mod_eq_of_lt inside]
      simp
    · obtain rfl : beyond = binade := by omega
      rw [Nat.div_self (by decide), Nat.mod_self]
      simp only [Nat.add_zero]
      rw [Nat.add_comm 1, Nat.add_sub_cancel, Nat.pow_succ]
      ring

theorem significand_lt (rung : Nat) : significand rung < 2 * binade := by
  have rest : rung % binade < binade := Nat.mod_lt _ (by decide)
  unfold significand
  split <;> omega

theorem shift_eq_zero_or_le_significand (rung : Nat) :
    shift rung = 0 ∨ binade ≤ significand rung := by
  unfold significand shift
  by_cases lowest : rung < binade
  · exact .inl (by rw [Nat.div_eq_of_lt lowest])
  · rw [if_neg lowest]
    exact .inr (Nat.le_add_right _ _)

theorem units_succ (rung : Nat) : units (rung + 1) = units rung + 2 ^ shift rung := by
  have place : rung + 1 = shift rung * binade + (significand rung + 1) := by
    rw [← Nat.add_assoc, shift_mul_binade_add_significand]
  have least := (shift_eq_zero_or_le_significand rung).imp_right Nat.le_succ_of_le
  rw [place, units_add least (significand_lt rung), units_eq]
  exact Nat.succ_mul _ _

theorem units_strictMono : StrictMono units := by
  refine strictMono_nat_of_lt_succ fun rung => ?_
  rw [units_succ]
  exact Nat.lt_add_of_pos_right (Nat.two_pow_pos _)

/-- As often as the spacing is doubled around a number of units, the number is
between two powers of two of such steps, or below the second if it is not
doubled. -/
theorem steps_bounds (count : Nat) :
    (count.log2 - 52 = 0 ∨ binade ≤ count / 2 ^ (count.log2 - 52)) ∧
      count / 2 ^ (count.log2 - 52) < 2 * binade := by
  have positive := Nat.two_pow_pos (count.log2 - 52)
  constructor
  · by_cases wide : count.log2 ≤ 52
    · exact .inl (Nat.sub_eq_zero_of_le wide)
    · have nonzero : count ≠ 0 := by
        intro zero
        rw [zero] at wide
        exact wide (by decide)
      refine .inr ((Nat.le_div_iff_mul_le positive).mpr ?_)
      rw [show binade = 2 ^ 52 from rfl, ← Nat.pow_add]
      exact (Nat.pow_le_pow_right (by decide) (by omega)).trans (Nat.log2_self_le nonzero)
  · refine (Nat.div_lt_iff_lt_mul positive).mpr ?_
    rw [show 2 * binade = 2 ^ 53 from rfl, ← Nat.pow_add]
    exact Nat.lt_log2_self.trans_le (Nat.pow_le_pow_right (by decide) (by omega))

/-- Of the rungs whose spacing is not doubled as often, all stand below the
lower power of two. -/
theorem units_lt_of_shift_lt {rung doublings : Nat} (closer : shift rung < doublings) :
    units rung < binade * 2 ^ doublings := by
  obtain ⟨more, rfl⟩ := Nat.exists_eq_add_of_lt closer
  have power : binade * 2 ^ (shift rung + more + 1) = 2 * binade * 2 ^ (shift rung + more) := by
    rw [Nat.pow_succ]
    ring
  rw [units_eq, power]
  refine (Nat.mul_lt_mul_of_pos_right (significand_lt rung) (Nat.two_pow_pos _)).trans_le ?_
  exact Nat.mul_le_mul_left _ (Nat.pow_le_pow_right (by decide) (Nat.le_add_right _ _))

/-- On a ladder without an end, a number is rounded to a rung as it is rounded
to a multiple of the spacing there. -/
theorem units_preferred {number : ℚ} {doublings steps : Nat}
    (low : doublings = 0 ∨ (binade * 2 ^ doublings : Nat) ≤ number)
    (least : doublings = 0 ∨ binade ≤ steps) (most : steps ≤ 2 * binade)
    (preferred : ∀ other, other ≠ steps →
      Preferred (fun count => (count * 2 ^ doublings : Nat)) number steps other)
    {other : Nat} (unlike : other ≠ doublings * binade + steps) :
    Preferred (fun rung => units rung) number (doublings * binade + steps) other := by
  have even : (doublings * binade + steps) % 2 = steps % 2 := by
    have twice : binade % 2 = 0 := rfl
    rw [Nat.add_mod, Nat.mul_mod, twice]
    simp
  have here := units_add least most
  simp only [Preferred, here, even]
  rcases Nat.lt_or_ge (shift other) doublings with closer | aligned
  · have below : (units other : ℚ) < (binade * 2 ^ doublings : Nat) :=
      Nat.cast_lt.mpr (units_lt_of_shift_lt closer)
    have above := low.resolve_left (by omega)
    have near : |number - (steps * 2 ^ doublings : Nat)| ≤
        |number - (binade * 2 ^ doublings : Nat)| := by
      by_cases same : binade = steps
      · rw [same]
      · exact (preferred binade same).le
    refine .inl ?_
    calc |number - (steps * 2 ^ doublings : Nat)|
        ≤ |number - (binade * 2 ^ doublings : Nat)| := near
      _ = number - (binade * 2 ^ doublings : Nat) := abs_of_nonneg (by linarith)
      _ < number - units other := by linarith
      _ ≤ |number - units other| := le_abs_self _
  · obtain ⟨more, same⟩ := Nat.exists_eq_add_of_le aligned
    have multiple : units other = significand other * 2 ^ more * 2 ^ doublings := by
      rw [units_eq, same, Nat.pow_add]
      ring
    rw [multiple]
    refine preferred _ fun alike => unlike (units_strictMono.injective ?_)
    rw [multiple, here, alike]

/-- Where the ladder ends, it ends for all numbers beyond. -/
theorem units_preferred_min {number : ℚ} {rung : Nat}
    (preferred : ∀ other, other ≠ rung → Preferred (fun rung => units rung) number rung other)
    {other : Nat} (within : other ≤ infinityRung) (unlike : other ≠ min infinityRung rung) :
    Preferred (fun rung => units rung) number (min infinityRung rung) other := by
  rcases Nat.lt_or_ge infinityRung rung with beyond | inside
  · rw [Nat.min_eq_left beyond.le] at unlike ⊢
    have farther : (units infinityRung : ℚ) < units rung :=
      Nat.cast_lt.mpr (units_strictMono beyond)
    have lower : (units other : ℚ) < units infinityRung :=
      Nat.cast_lt.mpr (units_strictMono (lt_of_le_of_ne within unlike))
    have above : (units infinityRung : ℚ) ≤ number := by
      by_contra under
      have distance : |number - units rung| ≤ |number - units infinityRung| :=
        (preferred infinityRung beyond.ne).le
      rw [abs_of_nonpos (by linarith), abs_of_nonpos (by linarith)] at distance
      linarith
    refine .inl ?_
    rw [abs_of_nonneg (by linarith), abs_of_nonneg (by linarith)]
    linarith
  · rw [Nat.min_eq_right inside] at unlike ⊢
    exact preferred other unlike

/-- A change of the unit changes nothing about which mark is nearer. -/
theorem preferred_scale {scale : Nat → ℚ} {number unit : ℚ} (positive : 0 < unit)
    {mark other : Nat} :
    Preferred (fun mark => scale mark * unit) (number * unit) mark other ↔
      Preferred scale number mark other := by
  have distance : ∀ mark, |number * unit - scale mark * unit| = |number - scale mark| * unit := by
    intro mark
    rw [← sub_mul, abs_mul, abs_of_pos positive]
  simp only [Preferred, distance, mul_lt_mul_iff_left₀ positive, mul_left_inj' positive.ne']

theorem units_preferred_roundDiv (numerator : Nat) {denominator : Nat}
    (positive : 0 < denominator) {doublings : Nat}
    (spaced : doublings = (numerator / denominator).log2 - 52) {other : Nat}
    (unlike : other ≠ doublings * binade + roundDiv numerator (denominator <<< doublings)) :
    Preferred (fun rung => units rung) (numerator / denominator)
      (doublings * binade + roundDiv numerator (denominator <<< doublings)) other := by
  have spacing : (0 : ℚ) < 2 ^ doublings := by positivity
  have wide : 0 < denominator <<< doublings := by
    rw [Nat.shiftLeft_eq]
    exact Nat.mul_pos positive (Nat.two_pow_pos _)
  obtain ⟨least, most⟩ := steps_bounds (numerator / denominator)
  rw [← spaced] at least most
  have whole : numerator / denominator / 2 ^ doublings = numerator / denominator <<< doublings := by
    rw [Nat.div_div_eq_div_mul, Nat.shiftLeft_eq]
  have rounded := roundDiv_cases numerator (denominator <<< doublings)
  rw [← whole] at rounded
  refine units_preferred ?_ (by omega) (by omega) (fun step unlike => ?_) unlike
  · refine least.imp_right fun above => ?_
    rw [Nat.le_div_iff_mul_le (Nat.two_pow_pos _)] at above
    exact (Nat.cast_le.mpr above).trans Nat.cast_div_le
  · have quotient : (numerator / (denominator <<< doublings : Nat) : ℚ) * 2 ^ doublings =
        numerator / denominator := by
      rw [Nat.shiftLeft_eq]
      push_cast
      field_simp
    have preferred := (preferred_scale spacing).mpr (roundDiv_preferred wide unlike)
    rw [quotient] at preferred
    exact_mod_cast preferred

/-- `nearestRung` rounds to the nearest. -/
theorem isNearest_nearestRung (numerator : Nat) {denominator : Nat} (positive : 0 < denominator) :
    IsNearest (nearestRung numerator denominator) (numerator / denominator) := by
  have unit : (0 : ℚ) < 2 ^ unitHalvings := by positivity
  have scaled : (numerator / denominator : ℚ) * 2 ^ unitHalvings =
      (numerator <<< unitHalvings : Nat) / denominator := by
    rw [Nat.shiftLeft_eq]
    push_cast
    ring
  refine ⟨Nat.min_le_left _ _, fun other within unlike => (preferred_scale unit).mp ?_⟩
  simp only [value, div_mul_cancel₀ _ unit.ne', scaled]
  exact units_preferred_min (fun _ => units_preferred_roundDiv _ positive rfl) within unlike

theorem value_strictMono : StrictMono value := by
  intro rung other below
  exact div_lt_div_of_pos_right (Nat.cast_lt.mpr (units_strictMono below)) (by positivity)

/-- Between two even rungs there is an odd one, and nearer. -/
theorem IsNearest.not_lt {number : ℚ} {rung other : Nat} (nearest : IsNearest rung number)
    (alike : IsNearest other number) : ¬ rung < other := by
  intro below
  have up := value_strictMono below
  have tie : |number - value rung| = |number - value other| ∧ rung % 2 = 0 ∧ other % 2 = 0 := by
    rcases nearest.preferred other alike.within below.ne' with nearer | ⟨same, even⟩
    · rcases alike.preferred rung nearest.within below.ne with farther | ⟨same, _⟩ <;> linarith
    · rcases alike.preferred rung nearest.within below.ne with farther | ⟨_, evenToo⟩
      · linarith
      · exact ⟨same, even, evenToo⟩
  obtain ⟨same, even, evenToo⟩ := tie
  have middle : number - value rung = value other - number := by
    rcases abs_eq_abs.mp same with equal | opposite <;> linarith
  have between : rung + 1 < other := by omega
  have low := value_strictMono (Nat.lt_succ_self rung)
  have high := value_strictMono between
  have inside : |number - value (rung + 1)| < |number - value other| := by
    rw [abs_of_nonpos (by linarith : number - value other ≤ 0), abs_lt]
    constructor <;> linarith
  rcases alike.preferred (rung + 1) (between.le.trans alike.within) between.ne with
    farther | ⟨equal, _⟩ <;> linarith

theorem IsNearest.unique {number : ℚ} {rung other : Nat} (nearest : IsNearest rung number)
    (alike : IsNearest other number) : rung = other :=
  Nat.le_antisymm (Nat.le_of_not_lt (alike.not_lt nearest))
    (Nat.le_of_not_lt (nearest.not_lt alike))

end Double

end Reckoner
