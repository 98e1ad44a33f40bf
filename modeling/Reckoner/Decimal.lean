import Reckoner.Rounding

namespace Reckoner

/-! Finite decimals and their positional text.  The decimal
`⟨coefficient, places⟩` is `coefficient / scale places`.  Its text shows exactly
`places` digits after the point, so `ofDigits` reads back what `text` writes,
coefficient and places alike. -/

structure Decimal where
  coefficient : Nat
  places : Nat
deriving Repr, DecidableEq

namespace Decimal

/-- How many units of the last of `places` places make one. -/
def scale (places : Nat) : Nat :=
  Nat.pow 10 places

def ofDigits (whole fraction : List Char) : Decimal :=
  ⟨Nat.ofDigitChars 10 (whole ++ fraction) 0, fraction.length⟩

def whole (decimal : Decimal) : List Char :=
  Nat.toDigits 10 (decimal.coefficient / scale decimal.places)

def fraction (decimal : Decimal) : List Char :=
  if decimal.places = 0 then []
  else (Nat.toDigits 10 (decimal.coefficient % scale decimal.places)).leftpad decimal.places '0'

/-- Two digit runs with a point between them; no point without a fraction. -/
def joined (point : Char) (whole fraction : List Char) : List Char :=
  if fraction.isEmpty then whole else whole ++ point :: fraction

def text (point : Char) (decimal : Decimal) : List Char :=
  joined point decimal.whole decimal.fraction

/-- Drops the last of `places` places for as long as it holds a zero. -/
def trim (coefficient : Nat) : (places : Nat) → Decimal
  | 0 => ⟨coefficient, 0⟩
  | places + 1 =>
      if coefficient % 10 = 0 then trim (coefficient / 10) places
      else ⟨coefficient, places + 1⟩

def trimmed (decimal : Decimal) : Decimal :=
  trim decimal.coefficient decimal.places

def roundTo (precision : Nat) (decimal : Decimal) : Decimal :=
  if decimal.places ≤ precision then decimal
  else ⟨roundDiv decimal.coefficient (scale (decimal.places - precision)), precision⟩

/-- The number rounded to `precision` places and written with all of them. -/
def fixedText (point : Char) (precision : Nat) (decimal : Decimal) : List Char :=
  let rounded := decimal.roundTo precision
  joined point rounded.whole (rounded.fraction.rightpad precision '0')

theorem scale_zero : scale 0 = 1 := rfl

theorem scale_succ (places : Nat) : scale (places + 1) = scale places * 10 := rfl

theorem scale_add (left right : Nat) : scale (left + right) = scale left * scale right :=
  Nat.pow_add 10 left right

theorem scale_pos (places : Nat) : 0 < scale places :=
  Nat.pow_pos (by decide)

theorem trim_places_le (coefficient places : Nat) :
    (trim coefficient places).places ≤ places := by
  induction places generalizing coefficient with
  | zero => exact Nat.le_refl _
  | succ places ih =>
      unfold trim
      split
      · exact Nat.le_succ_of_le (ih _)
      · exact Nat.le_refl _

theorem trim_value (coefficient places : Nat) :
    (trim coefficient places).coefficient * scale (places - (trim coefficient places).places) =
      coefficient := by
  induction places generalizing coefficient with
  | zero => simp [trim, scale_zero]
  | succ places ih =>
      unfold trim
      split
      case isTrue zero =>
        have fewer := trim_places_le (coefficient / 10) places
        have kept := ih (coefficient / 10)
        rw [Nat.succ_sub fewer, scale_succ, ← Nat.mul_assoc, kept]
        omega
      case isFalse => simp [scale_zero]

theorem length_fraction (decimal : Decimal) : decimal.fraction.length = decimal.places := by
  unfold fraction
  split
  case isTrue none => simp [none]
  case isFalse some =>
    have below : decimal.coefficient % scale decimal.places < scale decimal.places :=
      Nat.mod_lt _ (scale_pos _)
    have fits := (Nat.length_toDigits_le_iff (b := 10) (by decide) (Nat.pos_of_ne_zero some)).2 below
    simp [List.leftpad, fits]

theorem value_fraction (decimal : Decimal) :
    Nat.ofDigitChars 10 decimal.fraction 0 = decimal.coefficient % scale decimal.places := by
  unfold fraction
  split
  case isTrue none => simp [none, scale_zero, Nat.mod_one]
  case isFalse => simp [List.leftpad, Nat.ofDigitChars_append]

theorem ofDigits_whole_fraction (decimal : Decimal) :
    ofDigits decimal.whole decimal.fraction = decimal := by
  unfold ofDigits
  rw [Nat.ofDigitChars_append, Nat.ofDigitChars_eq_ofDigitChars_zero, length_fraction,
    value_fraction, whole, Nat.ofDigitChars_ten_toDigits]
  congr 1
  exact Nat.div_add_mod _ _

end Decimal

end Reckoner
