import Reckoner.Proofs.Double.ReadBack
import Reckoner.Proofs.Lexing.Numeral

namespace Reckoner.Double

open Float.Model (Format)
open Float.Model.UnpackedFloat

/-- The bits of what is no number.  Others would do, but no double has them. -/
def spoiledBits : Nat := 0x7FF8000000000000

def bits : Double → Nat
  | .notANumber => spoiledBits
  | .infinite negative => (if negative then signBit else 0) + infinityRung
  | .finite negative rung => (if negative then signBit else 0) + rung

theorem toNat_eq_spoiledBits {bits : BitVec Format.binary64.numBits}
    (valid : Format.binary64.Valid bits) (beyond : infinityRung < bits.toNat % signBit) :
    bits.toNat = spoiledBits := by
  have width : bits.toNat < 2 ^ 64 := bits.isLt
  have ones : unpackExponent bits = -1#11 := by
    apply BitVec.eq_of_toNat_eq
    rw [toNat_unpackExponent]
    change _ = 2047
    simp only [binade, signBit, infinityRung] at *
    omega
  have filled : unpackMantissa bits ≠ 0#52 := by
    intro empty
    have zero := congrArg BitVec.toNat empty
    rw [toNat_unpackMantissa] at zero
    change _ = 0 at zero
    simp only [binade, signBit, infinityRung] at *
    omega
  rw [valid.eq_packedNaN ones filled]
  decide

theorem toBits_eq_spoiledBits {value : Float}
    (beyond : infinityRung < value.toBits.toNat % signBit) :
    value.toBits.toNat = spoiledBits := by
  obtain ⟨⟨pattern, valid⟩⟩ := value
  exact toNat_eq_spoiledBits valid beyond

theorem bits_ofFloat (value : Float) : (ofFloat value).bits = value.toBits.toNat := by
  have width := value.toBits.toNat_lt
  have signed : (if decide (signBit ≤ value.toBits.toNat) then signBit else 0) +
      value.toBits.toNat % signBit = value.toBits.toNat := by
    by_cases negative : signBit ≤ value.toBits.toNat
    · rw [if_pos (decide_eq_true negative)]
      simp only [signBit] at *
      omega
    · rw [if_neg (by simpa using negative), Nat.mod_eq_of_lt (Nat.lt_of_not_le negative),
        Nat.zero_add]
  simp only [ofFloat]
  split
  next => exact signed
  next outside =>
    split
    next infinite =>
      rw [infinite] at signed
      exact signed
    next spoiled => exact (toBits_eq_spoiledBits (by omega)).symm

theorem ofFloat_injective : Function.Injective ofFloat := by
  intro value other same
  refine eq_of_toBits ?_
  rw [← bits_ofFloat, ← bits_ofFloat, same]

def readMagnitude (negative : Bool) : List Char → Double
  | 'i' :: _ => .infinite negative
  | digits => .finite negative (ofDecimal (Separator.point.decimal digits))

/-- The double that a text is written from. -/
def read : List Char → Double
  | 'N' :: _ => .notANumber
  | '-' :: magnitude => readMagnitude true magnitude
  | magnitude => readMagnitude false magnitude

section

variable {digit : Char} {rest : List Char} (first : digit.isDigit = true)

include first

theorem readMagnitude_of_isDigit (negative : Bool) :
    readMagnitude negative (digit :: rest) =
      .finite negative (ofDecimal (Separator.point.decimal (digit :: rest))) := by
  unfold readMagnitude
  split
  next word =>
    cases word
    cases first
  next => rfl

theorem read_of_isDigit : read (digit :: rest) = readMagnitude false (digit :: rest) := by
  unfold read
  split
  next word =>
    cases word
    cases first
  next word =>
    cases word
    cases first
  next => rfl

end

theorem read_text (value : Float) : read (ofFloat value).text = ofFloat value := by
  cases double : ofFloat value with
  | notANumber => rfl
  | infinite negative => cases negative <;> rfl
  | finite negative rung =>
      have below := (ofFloat_eq_finite_iff.mp double).1
      obtain ⟨digit, rest, digits, first⟩ := (shortest rung).text_eq_cons '.'
      have decimal : Separator.point.decimal ((shortest rung).text '.') = shortest rung :=
        Separator.point.decimal_text _
      have magnitude : readMagnitude negative (digit :: rest) = .finite negative rung := by
        rw [readMagnitude_of_isDigit first, ← digits, decimal, ofDecimal_shortest below]
      change read (signed negative ((shortest rung).text '.')) = _
      rw [digits, ← magnitude]
      cases negative with
      | true => rfl
      | false => exact read_of_isDigit first

/-- What is not written again as it was read is no text of a double. -/
theorem text_ne_of_read {value : Float} {word : List Char} (changed : (read word).text ≠ word) :
    (ofFloat value).text ≠ word := by
  rintro rfl
  exact changed (congrArg text (read_text value))

theorem text_ofFloat_injective : Function.Injective fun value => (ofFloat value).text := by
  intro value other same
  refine ofFloat_injective ?_
  rw [← read_text value, ← read_text other]
  exact congrArg read same

end Reckoner.Double
