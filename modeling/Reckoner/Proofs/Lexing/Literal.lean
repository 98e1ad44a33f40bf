import Reckoner.Proofs.Double.Nearest
import Reckoner.Proofs.Lexing.Numeral

namespace Reckoner

/-- What the digits after a separator add to a number. -/
def fractionValue : List Char → ℚ
  | [] => 0
  | digit :: digits => ((digit.toNat - '0'.toNat : Nat) + fractionValue digits) / 10

theorem fractionValue_eq (digits : List Char) :
    fractionValue digits = Nat.ofDigitChars 10 digits 0 / 10 ^ digits.length := by
  induction digits with
  | nil => simp [fractionValue]
  | cons digit digits ih =>
      have value : Nat.ofDigitChars 10 (digit :: digits) 0 =
          10 ^ digits.length * (digit.toNat - '0'.toNat) + Nat.ofDigitChars 10 digits 0 := by
        rw [Nat.ofDigitChars_cons, Nat.ofDigitChars_eq_ofDigitChars_zero]
        simp
      rw [fractionValue, ih, value, List.length_cons, pow_succ]
      push_cast
      field_simp

/-- The form of the texts that can be converted to numbers whatever separator
is in force: digits, with at most one point among or around them. -/
def Convertible (text : List Char) : Prop :=
  ∃ whole fraction, (∀ digit ∈ whole ++ fraction, digit.isDigit = true) ∧ whole ++ fraction ≠ [] ∧
    (text = whole ++ '.' :: fraction ∨ text = whole ∧ fraction = [])

namespace Separator

variable (separator : Separator)

/-- A number as it is written: digits and separators, at least one digit and at
most one separator. -/
structure Numeral (text : List Char) : Prop where
  characters : ∀ character ∈ text, character.isDigit = true ∨ character = separator.char
  digit : ∃ character ∈ text, character.isDigit = true
  single : text.count separator.char ≤ 1

theorem numeral_text (decimal : Decimal) : separator.Numeral (decimal.text separator.char) := by
  refine ⟨fun character member => decimal.mem_text member, ?_, separator.count_char_text_le decimal⟩
  obtain ⟨digit, rest, same, first⟩ := decimal.text_eq_cons separator.char
  exact ⟨digit, same ▸ List.mem_cons_self, first⟩

/-- The number that a written number denotes. -/
def value (text : List Char) : ℚ :=
  Nat.ofDigitChars 10 (text.takeWhile (· ≠ separator.char)) 0 +
    fractionValue ((text.dropWhile (· ≠ separator.char)).drop 1)

/-- A point in the place of the separator. -/
def pointed (character : Char) : Char :=
  if character = separator.char then '.' else character

theorem value_eq (text : List Char) :
    separator.value text = (separator.decimal text).coefficient /
      Decimal.scale (separator.decimal text).places := by
  have scale : ∀ places, (Decimal.scale places : ℚ) = 10 ^ places := fun places =>
    Nat.cast_pow 10 places
  unfold value decimal Decimal.ofDigits
  generalize text.takeWhile (· ≠ separator.char) = whole
  generalize (text.dropWhile (· ≠ separator.char)).drop 1 = fraction
  have joined : Nat.ofDigitChars 10 (whole ++ fraction) 0 =
      10 ^ fraction.length * Nat.ofDigitChars 10 whole 0 + Nat.ofDigitChars 10 fraction 0 := by
    rw [Nat.ofDigitChars_append, Nat.ofDigitChars_eq_ofDigitChars_zero]
  rw [joined, fractionValue_eq, scale]
  push_cast
  field_simp

variable {separator} {text : List Char}

theorem Numeral.isNumeral (numeral : separator.Numeral text) :
    ∀ character ∈ text, isNumeral character = true := by
  intro character member
  rcases numeral.characters character member with digit | rfl
  · exact isNumeral_of_isDigit digit
  · exact separator.isNumeral_char

theorem isNumeral_iff {character : Char} :
    isNumeral character = true ↔
      character.isDigit = true ∨ character = separator.char ∨ character = separator.other.char := by
  cases separator <;> simp [isNumeral, Separator.char, Separator.other, or_assoc]
  rw [or_comm (a := character = '.')]

theorem findIdx?_other_eq_none (numeral : ∀ character ∈ text, isNumeral character = true) :
    text.findIdx? (· == separator.other.char) = none ↔
      ∀ character ∈ text, character.isDigit = true ∨ character = separator.char := by
  rw [List.findIdx?_eq_none_iff]
  refine forall₂_congr fun character member => ?_
  rw [beq_eq_false_iff_ne]
  constructor
  · intro native
    rcases isNumeral_iff.mp (numeral character member) with digit | same | foreign
    · exact .inl digit
    · exact .inr same
    · exact absurd foreign native
  · intro cases
    rcases cases with digit | rfl
    · exact separator.other.ne_char_of_isDigit digit
    · exact separator.char_other_ne.symm

theorem numeral_iff (numeral : ∀ character ∈ text, isNumeral character = true) :
    separator.Numeral text ↔ text.findIdx? (· == separator.other.char) = none ∧
      ¬ (1 < text.count separator.char ∨ text.all (!·.isDigit) = true) := by
  rw [findIdx?_other_eq_none numeral, not_or, Nat.not_lt, Bool.not_eq_true, List.all_eq_false]
  constructor
  · intro written
    obtain ⟨digit, member, isDigit⟩ := written.digit
    exact ⟨written.characters, written.single, digit, member, by simp [isDigit]⟩
  · intro parts
    obtain ⟨characters, single, digit, member, isDigit⟩ := parts
    exact ⟨characters, ⟨digit, member, by simpa using isDigit⟩, single⟩

theorem number_eq_ok_iff (numeral : ∀ character ∈ text, isNumeral character = true)
    {position : Nat} {value : Float} :
    separator.number position text = .ok value ↔ separator.Numeral text ∧
      value = Double.toFloat (Double.ofDecimal (separator.decimal text)) := by
  rw [numeral_iff numeral, number]
  cases text.findIdx? (· == separator.other.char) with
  | some offset => simp
  | none =>
      dsimp only
      split
      next spoiled => exact ⟨nofun, fun read => absurd spoiled read.1.2⟩
      next sound =>
        rw [Except.ok.injEq, eq_comm]
        exact ⟨fun same => ⟨⟨rfl, sound⟩, same⟩, fun read => read.2⟩

theorem isNearest_iff {value : Float} :
    Double.IsNearest value.toBits.toNat (separator.value text) ↔
      value = Double.toFloat (Double.ofDecimal (separator.decimal text)) := by
  have nearest := Double.isNearest_nearestRung (separator.decimal text).coefficient
    (Decimal.scale_pos (separator.decimal text).places)
  rw [← value_eq] at nearest
  constructor
  · intro alike
    have same := alike.unique nearest
    rw [Double.ofDecimal, ← same, Double.toFloat, UInt64.ofNat_toNat, Double.ofBits_toBits]
  · intro same
    rw [same, Double.ofDecimal, Double.toBits_toFloat nearest.within]
    exact nearest

/-- A written number is digits, or digits on both sides of the separator. -/
theorem Numeral.split (numeral : separator.Numeral text) :
    ∃ whole fraction, (∀ digit ∈ whole ++ fraction, digit.isDigit = true) ∧
      whole ++ fraction ≠ [] ∧
      (text = whole ++ separator.char :: fraction ∨ text = whole ∧ fraction = []) := by
  have digits : ∀ part : List Char, part ⊆ text → separator.char ∉ part →
      ∀ digit ∈ part, digit.isDigit = true := by
    intro part within without digit member
    rcases numeral.characters digit (within member) with isDigit | rfl
    · exact isDigit
    · exact absurd member without
  by_cases separated : separator.char ∈ text
  · obtain ⟨whole, fraction, rfl, before⟩ := List.eq_append_cons_of_mem separated
    have once := numeral.single
    rw [List.count_append, List.count_cons_self] at once
    have after : separator.char ∉ fraction := List.count_eq_zero.mp (by omega)
    have all : ∀ digit ∈ whole ++ fraction, digit.isDigit = true := by
      intro digit member
      rcases List.mem_append.mp member with left | right
      · exact digits whole (by simp) before digit left
      · exact digits fraction (by simp) after digit right
    refine ⟨whole, fraction, all, ?_, .inl rfl⟩
    obtain ⟨digit, member, isDigit⟩ := numeral.digit
    intro empty
    obtain ⟨rfl, rfl⟩ := List.append_eq_nil_iff.mp empty
    rw [List.mem_singleton.mp member, separator.isDigit_char] at isDigit
    cases isDigit
  · obtain ⟨digit, member, _⟩ := numeral.digit
    refine ⟨text, [], ?_, ?_, .inr ⟨rfl, rfl⟩⟩
    · rw [List.append_nil]
      exact digits text (List.Subset.refl _) separated
    · rw [List.append_nil]
      exact List.ne_nil_of_mem member

theorem Numeral.convertible (numeral : separator.Numeral text) :
    Convertible (text.map separator.pointed) := by
  have kept : ∀ digits : List Char, (∀ digit ∈ digits, digit.isDigit = true) →
      digits.map separator.pointed = digits := by
    intro digits all
    have same := List.map_congr_left (f := separator.pointed) (g := id) fun digit member =>
      if_neg (separator.ne_char_of_isDigit (all digit member))
    rw [same, List.map_id]
  obtain ⟨whole, fraction, digits, filled, form⟩ := numeral.split
  have left := kept whole fun digit member => digits digit (List.mem_append_left _ member)
  have right := kept fraction fun digit member => digits digit (List.mem_append_right _ member)
  refine ⟨whole, fraction, digits, filled, ?_⟩
  rcases form with rfl | ⟨rfl, rfl⟩
  · refine .inl ?_
    rw [List.map_append, List.map_cons, left, right, pointed, if_pos rfl]
  · exact .inr ⟨left, rfl⟩

end Separator

end Reckoner
