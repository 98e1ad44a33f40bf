import Mathlib.Data.List.TakeWhile
import Reckoner.Lexeme
import Reckoner.Double.Shortest

namespace Reckoner

theorem isNumeral_of_isDigit {character : Char} (digit : character.isDigit = true) :
    isNumeral character = true := by
  simp [isNumeral, digit]

theorem ne_of_isDigit {character other : Char} (digit : character.isDigit = true)
    (notDigit : other.isDigit = false) : character ≠ other := by
  rintro rfl
  rw [notDigit] at digit
  cases digit

theorem isBlank_of_isNumeral {character : Char} (numeral : isNumeral character = true) :
    isBlank character = false := by
  refine Bool.eq_false_iff.mpr fun blank => ?_
  rcases Bool.or_eq_true_iff.mp blank with space | line
  · rw [eq_of_beq space] at numeral
    revert numeral
    decide
  · rw [eq_of_beq line] at numeral
    revert numeral
    decide

namespace Separator

variable (separator : Separator)

theorem isDigit_char : separator.char.isDigit = false := by
  cases separator <;> rfl

theorem isNumeral_char : isNumeral separator.char = true := by
  cases separator <;> rfl

theorem ne_char_of_isDigit {character : Char} (digit : character.isDigit = true) :
    character ≠ separator.char :=
  ne_of_isDigit digit separator.isDigit_char

end Separator

namespace Decimal

variable (decimal : Decimal)

theorem isDigit_of_mem_whole {character : Char} (member : character ∈ decimal.whole) :
    character.isDigit = true :=
  Nat.isDigit_of_mem_toDigits (by decide) (by decide) member

theorem isDigit_of_mem_fraction {character : Char} (member : character ∈ decimal.fraction) :
    character.isDigit = true := by
  unfold fraction at member
  split at member
  · cases member
  · rcases List.mem_append.mp member with padding | digit
    · rw [List.eq_of_mem_replicate padding]
      rfl
    · exact Nat.isDigit_of_mem_toDigits (by decide) (by decide) digit

theorem whole_ne_nil : decimal.whole ≠ [] :=
  Nat.toDigits_ne_nil

theorem text_eq (point : Char) :
    decimal.text point = decimal.whole ∧ decimal.fraction = [] ∨
      decimal.text point = decimal.whole ++ point :: decimal.fraction := by
  unfold text joined
  cases digits : decimal.fraction with
  | nil => exact .inl ⟨rfl, rfl⟩
  | cons first rest => exact .inr rfl

theorem text_eq_cons (point : Char) :
    ∃ digit rest, decimal.text point = digit :: rest ∧ digit.isDigit = true := by
  obtain ⟨digit, others, starts⟩ := List.exists_cons_of_ne_nil decimal.whole_ne_nil
  have first := decimal.isDigit_of_mem_whole (starts ▸ List.mem_cons_self)
  rcases decimal.text_eq point with ⟨same, _⟩ | same
  · exact ⟨digit, others, same.trans starts, first⟩
  · exact ⟨digit, others ++ point :: decimal.fraction, by rw [same, starts, List.cons_append], first⟩

theorem mem_text {point character : Char} (member : character ∈ decimal.text point) :
    character.isDigit = true ∨ character = point := by
  rcases decimal.text_eq point with ⟨same, _⟩ | same
  · rw [same] at member
    exact .inl (decimal.isDigit_of_mem_whole member)
  · rw [same, List.mem_append, List.mem_cons] at member
    rcases member with whole | rfl | fraction
    · exact .inl (decimal.isDigit_of_mem_whole whole)
    · exact .inr rfl
    · exact .inl (decimal.isDigit_of_mem_fraction fraction)

end Decimal

namespace Separator

variable (separator : Separator) (decimal : Decimal)

theorem decimal_text : separator.decimal (decimal.text separator.char) = decimal := by
  have passes : ∀ character ∈ decimal.whole, decide (character ≠ separator.char) = true :=
    fun character member =>
      decide_eq_true (separator.ne_char_of_isDigit (decimal.isDigit_of_mem_whole member))
  unfold Separator.decimal
  rcases decimal.text_eq separator.char with ⟨same, empty⟩ | same
  · rw [same, List.takeWhile_eq_self_iff.mpr passes, List.dropWhile_eq_nil_iff.mpr passes,
      List.drop_nil, ← empty]
    exact decimal.ofDigits_whole_fraction
  · rw [same, List.takeWhile_append_of_pos passes, List.dropWhile_append_of_pos passes]
    simpa using decimal.ofDigits_whole_fraction

theorem count_char_text_le : (decimal.text separator.char).count separator.char ≤ 1 := by
  have without : ∀ digits : List Char, (∀ digit ∈ digits, digit.isDigit = true) →
      digits.count separator.char = 0 := fun digits all =>
    List.count_eq_zero.mpr fun member => separator.ne_char_of_isDigit (all _ member) rfl
  have whole := without _ fun _ => decimal.isDigit_of_mem_whole
  have fraction := without _ fun _ => decimal.isDigit_of_mem_fraction
  rcases decimal.text_eq separator.char with ⟨same, _⟩ | same
  · rw [same, whole]
    exact Nat.zero_le 1
  · rw [same, List.count_append, List.count_cons_self, whole, fraction]

end Separator

end Reckoner
