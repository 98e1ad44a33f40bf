import Reckoner.Double

namespace Reckoner.Double

open Float.Model (Format)
open Float.Model.UnpackedFloat

section

variable {bits : BitVec Format.binary64.numBits}

theorem getLsbD_unpackMantissa {place : Nat} (below : place < 52) :
    (unpackMantissa bits).getLsbD place = bits.getLsbD place := by
  change ((BitVec.extractLsb 51 0 bits).cast _).getLsbD place = _
  rw [BitVec.getLsbD_cast, BitVec.getLsbD_extractLsb]
  simp [below]

theorem getLsbD_unpackExponent {place : Nat} (below : place < 11) :
    (unpackExponent bits).getLsbD place = bits.getLsbD (52 + place) := by
  change ((BitVec.extractLsb 62 52 bits).cast _).getLsbD place = _
  rw [BitVec.getLsbD_cast, BitVec.getLsbD_extractLsb]
  simp [below]

theorem getLsbD_unpackSign : (unpackSign bits).getLsbD 0 = bits.getLsbD 63 := by
  change ((BitVec.extractLsb 63 63 bits).cast _).getLsbD 0 = _
  rw [BitVec.getLsbD_cast, BitVec.getLsbD_extractLsb]
  simp

theorem joined_fields {exponent : BitVec 11} {mantissa : BitVec 52}
    (exponents : exponent = unpackExponent bits) (mantissas : mantissa = unpackMantissa bits) :
    packComponents Format.binary64 (Sign.ofBitVec (unpackSign bits)) exponent mantissa = bits := by
  have sign : (Sign.ofBitVec (unpackSign bits)).toBitVec = unpackSign bits := by
    generalize unpackSign bits = sign
    revert sign
    decide
  subst exponents mantissas
  change (Sign.ofBitVec (unpackSign bits)).toBitVec ++ unpackExponent bits ++ unpackMantissa bits =
    bits
  rw [sign]
  apply BitVec.eq_of_getLsbD_eq
  intro place below
  rw [BitVec.getLsbD_append, BitVec.getLsbD_append]
  by_cases low : place < 52
  · rw [if_pos low, getLsbD_unpackMantissa low]
  · rw [if_neg low]
    by_cases middle : place - 52 < 11
    · rw [if_pos middle, getLsbD_unpackExponent middle, Nat.add_sub_cancel' (Nat.le_of_not_lt low)]
    · have high : place = 63 := by
        have short : place < 64 := below
        omega
      subst high
      rw [if_neg middle]
      exact getLsbD_unpackSign

theorem log2_mantissa_add_one_lt (mantissa : BitVec 52) :
    mantissa.toNat.log2 + 1 < Format.binary64.mantissaBits := by
  rcases Nat.eq_zero_or_pos mantissa.toNat with zero | positive
  · rw [zero]
    decide
  · have below := (Nat.log2_lt (Nat.ne_of_gt positive)).mpr mantissa.isLt
    exact Nat.succ_lt_succ below

theorem toNat_leading_one (mantissa : BitVec 52) :
    (1#1 ++ mantissa).toNat = binade + mantissa.toNat := by
  rw [BitVec.toNat_append, ← Nat.shiftLeft_add_eq_or_of_lt mantissa.isLt]
  rfl

theorem log2_leading_one (mantissa : BitVec 52) :
    (1#1 ++ mantissa).toNat.log2 + 1 = Format.binary64.mantissaBits := by
  rw [toNat_leading_one]
  have below := mantissa.isLt
  have log : (binade + mantissa.toNat).log2 = 52 := by
    refine (Nat.log2_eq_iff ?_).mpr ?_ <;> simp only [binade] <;> omega
  rw [log]
  rfl

theorem pack_finite {sign : Sign} {mantissa : Nat} {exponent : Int} (nonzero : 0 < mantissa)
    (field : Nat) (biased : exponent = field - 1075) :
    pack Format.binary64 (.finite sign mantissa exponent nonzero) =
      if 2048 ≤ field + 1 then packedInfinity Format.binary64 sign
      else if mantissa.log2 + 1 = Format.binary64.mantissaBits then
        packComponents Format.binary64 sign (BitVec.ofNat 11 field) (BitVec.ofNat 52 mantissa)
      else packComponents Format.binary64 sign 0#11 (BitVec.ofNat 52 mantissa) := by
  have restored : field = (exponent + 1023 + 52).toNat := by omega
  rw [restored]
  rfl

/-- Of a number below the first binade the exponent field is zero. -/
theorem pack_subnormal (nonzero : 0 < (unpackMantissa bits).toNat)
    (zero : unpackExponent bits = 0#11) {exponent : Int} (lowest : exponent = -1074) :
    pack Format.binary64
      (.finite (Sign.ofBitVec (unpackSign bits)) (unpackMantissa bits).toNat exponent nonzero) =
      bits := by
  rw [pack_finite nonzero 1 (by omega), if_neg (by decide),
    if_neg (Nat.ne_of_lt (log2_mantissa_add_one_lt _))]
  exact joined_fields zero.symm (by simp)

/-- Of every other number the first digit is one and left out. -/
theorem pack_normal (nonzero : 0 < (1#1 ++ unpackMantissa bits).toNat)
    (number : unpackExponent bits ≠ -1#11) :
    pack Format.binary64 (.finite (Sign.ofBitVec (unpackSign bits))
      (1#1 ++ unpackMantissa bits).toNat ((unpackExponent bits).toNat - 1075) nonzero) = bits := by
  have exponent : (unpackExponent bits).toNat < 2048 := (unpackExponent bits).isLt
  have below : ¬ 2048 ≤ (unpackExponent bits).toNat + 1 := by
    intro above
    refine number (BitVec.eq_of_toNat_eq ?_)
    change _ = 2047
    omega
  rw [pack_finite nonzero _ rfl, if_neg below, if_pos (log2_leading_one _)]
  refine joined_fields (by simp) (BitVec.eq_of_toNat_eq ?_)
  rw [BitVec.toNat_ofNat, toNat_leading_one]
  have mantissa : (unpackMantissa bits).toNat < 2 ^ 52 := (unpackMantissa bits).isLt
  change (binade + _) % binade = _
  simp only [binade]
  omega

theorem unpack_infinite (ones : unpackExponent bits = -1#11) (empty : unpackMantissa bits = 0#52) :
    unpack Format.binary64 bits = .infinity (Sign.ofBitVec (unpackSign bits)) :=
  (if_pos ones).trans (if_pos empty)

theorem unpack_notANumber (ones : unpackExponent bits = -1#11)
    (spoiled : unpackMantissa bits ≠ 0#52) : unpack Format.binary64 bits = .notANumber :=
  (if_pos ones).trans (if_neg spoiled)

theorem unpack_zero (lowest : unpackExponent bits = 0#11) (empty : unpackMantissa bits = 0#52) :
    unpack Format.binary64 bits = .zero (Sign.ofBitVec (unpackSign bits)) := by
  have number : unpackExponent bits ≠ -1#11 := by
    rw [lowest]
    decide
  exact (if_neg number).trans ((if_pos lowest).trans (dif_pos empty))

theorem unpack_subnormal (lowest : unpackExponent bits = 0#11)
    (filled : unpackMantissa bits ≠ 0#52) :
    ∃ nonzero, unpack Format.binary64 bits =
      .finite (Sign.ofBitVec (unpackSign bits)) (unpackMantissa bits).toNat
        ((unpackExponent bits).toNat - 1075 + 1) nonzero := by
  have number : unpackExponent bits ≠ -1#11 := by
    rw [lowest]
    decide
  exact ⟨_, (if_neg number).trans ((if_pos lowest).trans (dif_neg filled))⟩

theorem unpack_normal (number : unpackExponent bits ≠ -1#11)
    (higher : unpackExponent bits ≠ 0#11) :
    ∃ nonzero, unpack Format.binary64 bits =
      .finite (Sign.ofBitVec (unpackSign bits)) (1#1 ++ unpackMantissa bits).toNat
        ((unpackExponent bits).toNat - 1075) nonzero :=
  ⟨_, (if_neg number).trans (if_neg higher)⟩

theorem pack_unpack (valid : Format.binary64.Valid bits) :
    pack Format.binary64 (unpack Format.binary64 bits) = bits := by
  by_cases ones : unpackExponent bits = -1#11
  · by_cases empty : unpackMantissa bits = 0#52
    · rw [unpack_infinite ones empty]
      exact joined_fields ones.symm empty.symm
    · rw [unpack_notANumber ones empty]
      exact (valid.eq_packedNaN ones empty).symm
  · by_cases lowest : unpackExponent bits = 0#11
    · by_cases empty : unpackMantissa bits = 0#52
      · rw [unpack_zero lowest empty]
        exact joined_fields lowest.symm empty.symm
      · obtain ⟨nonzero, unpacked⟩ := unpack_subnormal lowest empty
        rw [unpacked]
        exact pack_subnormal nonzero lowest (by rw [lowest]; rfl)
    · obtain ⟨nonzero, unpacked⟩ := unpack_normal ones lowest
      rw [unpacked]
      exact pack_normal nonzero ones

theorem toNat_unpackExponent : (unpackExponent bits).toNat = bits.toNat / binade % 2048 := by
  change ((BitVec.extractLsb 62 52 bits).cast _).toNat = _
  simp [BitVec.extractLsb, BitVec.extractLsb', Nat.shiftRight_eq_div_pow, binade]

theorem toNat_unpackMantissa : (unpackMantissa bits).toNat = bits.toNat % binade := by
  change ((BitVec.extractLsb 51 0 bits).cast _).toNat = _
  simp [BitVec.extractLsb, BitVec.extractLsb', binade]

/-- With either sign, no rung up to the infinite one has the bits of something
else. -/
theorem valid_of_le (within : bits.toNat % signBit ≤ infinityRung) :
    Format.binary64.Valid bits := by
  refine ⟨fun ones spoiled => absurd (BitVec.eq_of_toNat_eq ?_) spoiled⟩
  have exponent : (unpackExponent bits).toNat = 2047 := congrArg BitVec.toNat ones
  rw [toNat_unpackExponent] at exponent
  rw [toNat_unpackMantissa]
  simp only [binade, signBit, infinityRung] at *
  change _ = 0
  omega

end

theorem ofBits_toBits (value : Float) : Float.ofBits value.toBits = value := by
  obtain ⟨⟨bits, valid⟩⟩ := value
  have restored : ∀ other proof, other = bits →
      Float.ofModel ⟨other, proof⟩ = .ofModel ⟨bits, valid⟩ := by
    intro other proof same
    subst same
    rfl
  exact restored _ _ (congrArg UInt64.ofBitVec (pack_unpack valid))

theorem toBits_toFloat {rung : Nat} (within : rung ≤ infinityRung) :
    (toFloat rung).toBits.toNat = rung := by
  have below : rung < 2 ^ 64 := Nat.lt_of_le_of_lt within (by decide)
  have same : (UInt64.ofNat rung).toNat = rung := by
    rw [UInt64.toNat_ofNat', Nat.mod_eq_of_lt below]
  have valid : Format.binary64.Valid (UInt64.ofNat rung).toBitVec := by
    apply valid_of_le
    change (UInt64.ofNat rung).toNat % signBit ≤ infinityRung
    rw [same]
    exact Nat.le_trans (Nat.mod_le rung signBit) within
  have kept : (toFloat rung).toBits = UInt64.ofNat rung :=
    congrArg UInt64.ofBitVec (pack_unpack valid)
  rw [kept, same]

end Reckoner.Double
