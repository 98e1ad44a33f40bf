import Reckoner.Decimal

namespace Reckoner

/-! Double precision numbers seen as a ladder.  The bits of a nonnegative
double, read as a natural number, count the doubles below it: they are its
rung.  Every finite double is a natural multiple of `2 ^ -1074`, and `units`
says which; `nearestRung` goes the other way, from any quotient to the rung
whose number is nearest. -/

/-- What the bits of a double stand for. -/
inductive Double where
  | notANumber
  | infinite (negative : Bool)
  | finite (negative : Bool) (rung : Nat)
deriving Repr, DecidableEq

namespace Double

/-- One is halved this often to get the lowest unit. -/
def unitHalvings : Nat := 1074

/-- How many rungs there are from one power of two to the next. -/
def binade : Nat := 0x10000000000000

/-- The rung above all finite ones. -/
def infinityRung : Nat := 0x7FF0000000000000

/-- The bit above all rungs, which says that a double is negative. -/
def signBit : Nat := 0x8000000000000000

def ofFloat (value : Float) : Double :=
  let bits := value.toBits.toNat
  let negative := decide (signBit ≤ bits)
  let rung := bits % signBit
  if rung < infinityRung then .finite negative rung
  else if rung = infinityRung then .infinite negative
  else .notANumber

/-- The nonnegative double on a rung. -/
def toFloat (rung : Nat) : Float :=
  Float.ofBits (UInt64.ofNat rung)

def significand (rung : Nat) : Nat :=
  if rung < binade then rung else binade + rung % binade

/-- How often the spacing of the lowest rungs is doubled around this one. -/
def shift (rung : Nat) : Nat :=
  rung / binade - 1

/-- The number on a rung, in units of `2 ^ -1074`. -/
def units (rung : Nat) : Nat :=
  significand rung <<< shift rung

/-- The rung nearest to `numerator / denominator`, the even one of two equally
near.  A quotient half a step past the last finite rung, or higher, is taken
to the infinite one. -/
def nearestRung (numerator denominator : Nat) : Nat :=
  let scaled := numerator <<< unitHalvings
  let shift := (scaled / denominator).log2 - 52
  min infinityRung (shift * binade + roundDiv scaled (denominator <<< shift))

def ofDecimal (decimal : Decimal) : Nat :=
  nearestRung decimal.coefficient (Decimal.scale decimal.places)

/-- The decimal that `significand` becomes when it is halved `halvings` times. -/
def expand (significand : Nat) : (halvings : Nat) → Decimal
  | 0 => ⟨significand, 0⟩
  | halvings + 1 =>
      if significand % 2 = 0 then expand (significand / 2) halvings
      else ⟨significand * Nat.pow 5 (halvings + 1), halvings + 1⟩

/-- All decimal digits of the number on a rung: halving is multiplying by five
and moving the point one place. -/
def exact (rung : Nat) : Decimal :=
  if unitHalvings ≤ shift rung then ⟨significand rung <<< (shift rung - unitHalvings), 0⟩
  else expand (significand rung) (unitHalvings - shift rung)

theorem expand_value (significand halvings : Nat) :
    (expand significand halvings).coefficient <<< halvings =
      significand * Decimal.scale (expand significand halvings).places := by
  induction halvings generalizing significand with
  | zero => simp [expand, Decimal.scale_zero]
  | succ halvings ih =>
      unfold expand
      split
      case isTrue even =>
        rw [Nat.shiftLeft_succ, ih, Nat.mul_left_comm, ← Nat.mul_assoc]
        congr 1
        omega
      case isFalse =>
        rw [Nat.shiftLeft_eq, Nat.mul_assoc]
        congr 1
        exact (Nat.mul_pow 5 2 (halvings + 1)).symm

theorem exact_value (rung : Nat) :
    (exact rung).coefficient <<< unitHalvings =
      units rung * Decimal.scale (exact rung).places := by
  unfold exact units
  split
  case isTrue large =>
    rw [← Nat.shiftLeft_add, Nat.sub_add_cancel large, Decimal.scale_zero, Nat.mul_one]
  case isFalse small =>
    have parts : unitHalvings = (unitHalvings - shift rung) + shift rung :=
      (Nat.sub_add_cancel (Nat.le_of_not_le small)).symm
    generalize unitHalvings - shift rung = halvings at parts
    rw [parts, Nat.shiftLeft_add, expand_value, Nat.shiftLeft_eq, Nat.shiftLeft_eq,
      Nat.mul_right_comm]

end Double

end Reckoner
