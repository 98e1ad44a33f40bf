import Reckoner.Answer
import Reckoner.Proofs.Double.Places
import Reckoner.Proofs.Evaluation.Precedence

namespace Reckoner

variable {separator : Separator}

/-- A written decimal is read with the sign before it. -/
theorem evaluate_signed (negative : Bool) (decimal : Decimal) :
    evaluate separator (String.ofList (Double.signed negative (decimal.text separator.char))) =
      .ok (Double.signedFloat negative (Double.ofDecimal decimal)) := by
  have takes := fun tier depth => Tier.Takes.of_numeral _ (separator.numeral_text decimal)
    String.toList_ofList.symm tier depth
  rw [separator.decimal_text] at takes
  cases negative with
  | false => exact (takes .sum 0).evaluate_eq
  | true =>
      have scanned := Lexeme.scan_decimal separator 0 decimal
      rw [← String.toList_ofList (l := decimal.text separator.char)] at scanned
      have minus : String.ofList ('-' :: decimal.text separator.char) =
          "-" ++ String.ofList (decimal.text separator.char) := by
        rw [← String.toList_inj]
        simp
      rw [Double.signed, if_pos rfl, minus]
      exact evaluate_negated scanned rfl (takes .primary 1)

namespace Settings

variable {settings : Settings}

theorem format_signedFloat {negative : Bool} {rung : Nat} (below : rung < Double.infinityRung)
    (within : settings.precision ≤ largestPrecision) :
    settings.format (Double.signedFloat negative rung) =
      .ok (String.ofList (Double.signed negative (Decimal.text settings.separator.char
        ⟨(Double.exact rung).unitsAt settings.precision, settings.precision⟩))) := by
  simp only [format, Double.ofFloat_signedFloat negative below, within, if_true, Double.fixedText,
    Decimal.fixedText_eq_text]

end Settings

/-- Whatever is printed for a finite value can be typed back.  What is read then
is finite, has the same sign, zero too, and is printed the same.  With places for
every digit a double can have, it is the same double. -/
theorem evaluate_format (settings : Settings) {value : Float} {negative : Bool} {rung : Nat}
    (finite : Double.ofFloat value = .finite negative rung)
    (within : settings.precision ≤ largestPrecision) :
    ∃ text other near, settings.format value = .ok text ∧
      evaluate settings.separator text = .ok other ∧
      Double.ofFloat other = .finite negative near ∧
      settings.format other = .ok text ∧
      (Double.unitHalvings ≤ settings.precision → other = value) := by
  obtain ⟨below, rfl⟩ := Double.ofFloat_eq_finite_iff.mp finite
  have below' := Double.reread_lt settings.precision below
  refine ⟨_, Double.signedFloat negative (Double.reread settings.precision rung), _,
    settings.format_signedFloat below within, evaluate_signed negative _,
    Double.ofFloat_signedFloat negative below', ?_, fun enough => ?_⟩
  · rw [settings.format_signedFloat below' within, Double.unitsAt_reread _ below.le]
  · rw [Double.reread_eq_self below enough]

/-- An eighth below zero is half way between two decimals of two places, and the
number between them that is read is no double at all. -/
theorem evaluate_format_negative_eighth :
    Double.ofFloat (Double.signedFloat true 0x3FC0000000000000) =
        .finite true 0x3FC0000000000000 ∧
      ∃ other, evaluate .comma "-0,12" = .ok other ∧
        Settings.format ⟨.comma, 2⟩ other = .ok "-0,12" := by
  have finite := Double.ofFloat_signedFloat true
    (show 0x3FC0000000000000 < Double.infinityRung by decide)
  have written : Settings.format ⟨.comma, 2⟩ (Double.signedFloat true 0x3FC0000000000000) =
      .ok "-0,12" := by
    rw [Settings.format_signedFloat (by decide) (by decide)]
    rfl
  obtain ⟨text, other, near, printed, read, _, again, _⟩ :=
    evaluate_format ⟨.comma, 2⟩ finite (by decide)
  cases written.symm.trans printed
  exact ⟨finite, other, read, again⟩

end Reckoner
