import Reckoner.Proofs.Double.Bits

namespace Reckoner.Double

open Float.Model (Format)
open Float.Model.UnpackedFloat

section

variable {bits raised : BitVec Format.binary64.numBits}

theorem toNat_unpackSign : (unpackSign bits).toNat = bits.toNat / signBit % 2 := by
  change ((BitVec.extractLsb 63 63 bits).cast _).toNat = _
  simp [BitVec.extractLsb, BitVec.extractLsb', Nat.shiftRight_eq_div_pow, signBit]

theorem finite_of_mantissa_eq {sign : Sign} {mantissa other : Nat} {exponent : Int}
    {nonzero : 0 < mantissa} {nonzero' : 0 < other} (same : mantissa = other) :
    Float.Model.UnpackedFloat.finite sign mantissa exponent nonzero =
      .finite sign other exponent nonzero' := by
  subst same
  rfl

variable (below : bits.toNat < signBit) (sum : raised.toNat = bits.toNat + signBit)

include sum

theorem unpackExponent_raised : unpackExponent raised = unpackExponent bits := by
  apply BitVec.eq_of_toNat_eq
  rw [toNat_unpackExponent, toNat_unpackExponent, sum]
  simp only [signBit, binade]
  omega

theorem unpackMantissa_raised : unpackMantissa raised = unpackMantissa bits := by
  apply BitVec.eq_of_toNat_eq
  rw [toNat_unpackMantissa, toNat_unpackMantissa, sum]
  simp only [signBit, binade]
  omega

include below

theorem unpackSign_raised :
    Sign.ofBitVec (unpackSign raised) = -Sign.ofBitVec (unpackSign bits) := by
  have positive : unpackSign bits = 0#1 := by
    apply BitVec.eq_of_toNat_eq
    rw [toNat_unpackSign, Nat.div_eq_of_lt below]
    rfl
  have negative : unpackSign raised = 1#1 := by
    apply BitVec.eq_of_toNat_eq
    rw [toNat_unpackSign, sum, Nat.add_div_right _ (by decide), Nat.div_eq_of_lt below]
    rfl
  rw [positive, negative]
  rfl

/-- The bit above all rungs turns the sign and nothing else. -/
theorem unpack_raised :
    unpack Format.binary64 raised = (unpack Format.binary64 bits).neg := by
  have exponents := unpackExponent_raised sum
  have mantissas := unpackMantissa_raised sum
  have signs := unpackSign_raised below sum
  by_cases ones : unpackExponent bits = -1#11
  · by_cases empty : unpackMantissa bits = 0#52
    · rw [unpack_infinite ones empty, unpack_infinite (exponents.trans ones) (mantissas.trans empty),
        signs]
      rfl
    · rw [unpack_notANumber ones empty,
        unpack_notANumber (exponents.trans ones) (mantissas ▸ empty)]
      rfl
  · by_cases lowest : unpackExponent bits = 0#11
    · by_cases empty : unpackMantissa bits = 0#52
      · rw [unpack_zero lowest empty, unpack_zero (exponents.trans lowest) (mantissas.trans empty),
          signs]
        rfl
      · obtain ⟨_, unpacked⟩ := unpack_subnormal lowest empty
        obtain ⟨_, unpacked'⟩ :=
          unpack_subnormal (exponents.trans lowest) (mantissas ▸ empty)
        rw [unpacked, unpacked', signs, exponents]
        exact finite_of_mantissa_eq (by rw [mantissas])
    · obtain ⟨_, unpacked⟩ := unpack_normal ones lowest
      obtain ⟨_, unpacked'⟩ := unpack_normal (exponents ▸ ones) (exponents ▸ lowest)
      rw [unpacked, unpacked', signs, exponents]
      exact finite_of_mantissa_eq (by rw [mantissas])

end

theorem toBits_neg {value : Float} (within : value.toBits.toNat ≤ infinityRung) :
    (-value).toBits.toNat = value.toBits.toNat + signBit := by
  have below : value.toBits.toNat < signBit := Nat.lt_of_le_of_lt within (by decide)
  have sum : (BitVec.ofNat 64 (value.toBits.toNat + signBit)).toNat =
      value.toBits.toNat + signBit := by
    rw [BitVec.toNat_ofNat]
    exact Nat.mod_eq_of_lt (Nat.add_lt_add_right below signBit)
  generalize BitVec.ofNat 64 (value.toBits.toNat + signBit) = raised at sum
  have valid : Format.binary64.Valid raised := by
    apply valid_of_le
    rw [sum, Nat.add_mod_right, Nat.mod_eq_of_lt below]
    exact within
  have packed := congrArg (pack Format.binary64) (unpack_raised below sum)
  rw [pack_unpack valid] at packed
  exact (congrArg BitVec.toNat packed).symm.trans sum

/-- The finite double on a rung, with a sign. -/
def signedFloat (negative : Bool) (rung : Nat) : Float :=
  if negative then -toFloat rung else toFloat rung

theorem toBits_signedFloat (negative : Bool) {rung : Nat} (within : rung ≤ infinityRung) :
    (signedFloat negative rung).toBits.toNat = (if negative then signBit else 0) + rung := by
  have kept := toBits_toFloat within
  cases negative with
  | false => exact kept.trans (Nat.zero_add rung).symm
  | true =>
      have raised := toBits_neg (kept.symm ▸ within)
      rw [kept] at raised
      exact raised.trans (Nat.add_comm _ _)

theorem eq_of_toBits {value other : Float} (same : value.toBits.toNat = other.toBits.toNat) :
    value = other := by
  rw [← ofBits_toBits value, ← ofBits_toBits other, UInt64.toNat_inj.mp same]

theorem ofFloat_signedFloat (negative : Bool) {rung : Nat} (below : rung < infinityRung) :
    ofFloat (signedFloat negative rung) = .finite negative rung := by
  have bits := toBits_signedFloat negative (Nat.le_of_lt below)
  have lower : rung < signBit := Nat.lt_trans below (by decide)
  have remainder : rung % signBit = rung := Nat.mod_eq_of_lt lower
  cases negative <;> simp [ofFloat, bits, remainder, below, lower]

theorem ofFloat_eq_finite_iff {value : Float} {negative : Bool} {rung : Nat} :
    ofFloat value = .finite negative rung ↔
      rung < infinityRung ∧ value = signedFloat negative rung := by
  constructor
  · intro finite
    simp only [ofFloat] at finite
    split at finite
    next below =>
      simp only [Double.finite.injEq] at finite
      obtain ⟨sign, rfl⟩ := finite
      refine ⟨below, eq_of_toBits ?_⟩
      rw [toBits_signedFloat _ (Nat.le_of_lt below)]
      cases negative with
      | false =>
          have low := Nat.lt_of_not_le (of_decide_eq_false sign)
          rw [if_neg Bool.false_ne_true, Nat.mod_eq_of_lt low, Nat.zero_add]
      | true =>
          have high := of_decide_eq_true sign
          have width := value.toBits.toNat_lt
          rw [if_pos rfl]
          simp only [signBit] at *
          omega
    next => split at finite <;> cases finite
  · intro parts
    obtain ⟨below, rfl⟩ := parts
    exact ofFloat_signedFloat negative below

end Reckoner.Double
