import Reckoner.Proofs.Evaluation.Printed

namespace Reckoner

namespace Separator

variable (separator : Separator)

/-- The separator in the place of a point. -/
def separated (character : Char) : Char :=
  if character = '.' then separator.char else character

theorem map_separated {text : List Char} (pointless : ∀ character ∈ text, character ≠ '.') :
    text.map separator.separated = text := by
  refine (List.map_congr_left fun character member => ?_).trans (List.map_id text)
  exact if_neg (pointless character member)

theorem map_separated_text (decimal : Decimal) :
    (decimal.text '.').map separator.separated = decimal.text separator.char := by
  have whole := separator.map_separated fun character member =>
    ne_of_isDigit (decimal.isDigit_of_mem_whole member) rfl
  have fraction := separator.map_separated fun character member =>
    ne_of_isDigit (decimal.isDigit_of_mem_fraction member) rfl
  unfold Decimal.text Decimal.joined
  split
  · exact whole
  · rw [List.map_append, List.map_cons, whole, fraction]
    rfl

theorem map_separated_double (negative : Bool) (rung : Nat) :
    ((Double.finite negative rung).text).map separator.separated =
      Double.signed negative ((Double.shortest rung).text separator.char) := by
  cases negative with
  | false => exact separator.map_separated_text _
  | true => exact congrArg ('-' :: ·) (separator.map_separated_text _)

end Separator

namespace Token

/-- The token as messages show it, but for the separator of a number. -/
def written (separator : Separator) : Token → List Char
  | .number value => (Token.number value).text.toList.map separator.separated
  | token => token.text.toList

/-- What stands between the token and those after it. -/
def gapBefore : Token → List Token → List Char
  | .number _, .number _ :: _ => [' ']
  | _, _ => []

theorem spells_written (separator : Separator) (token : Token)
    (plain : ∀ value, token = .number value → ∃ rung, Double.ofFloat value = .finite false rung) :
    Spells separator (token.written separator) token := by
  cases token with
  | number value =>
      obtain ⟨rung, finite⟩ := plain value rfl
      obtain ⟨below, same⟩ := Double.toFloat_of_ofFloat finite
      have text : written separator (.number value) =
          (Double.shortest rung).text separator.char := by
        rw [written, Token.text, String.toList_ofList, finite]
        exact separator.map_separated_double false rung
      have spells := Spells.numeral (separator.numeral_text (Double.shortest rung))
      rwa [separator.decimal_text, Double.ofDecimal_shortest below, same, ← text] at spells
  | log => exact .log
  | operator sign =>
      have text : written separator (.operator sign) = [sign.symbol] :=
        String.toList_singleton sign.symbol
      rw [text]
      exact .operator sign
  | opening => exact .opening
  | closing => exact .closing

end Token

namespace Layout

def entriesOf (separator : Separator) : List Token → List Entry
  | [] => []
  | token :: rest =>
      ⟨token.written separator, token, token.gapBefore rest⟩ :: entriesOf separator rest

/-- The tokens written one after the other. -/
def rendered (separator : Separator) (tokens : List Token) : Layout :=
  ⟨[], entriesOf separator tokens⟩

variable {separator : Separator} {tokens : List Token}

theorem spelled_entriesOf
    (plain : ∀ value, .number value ∈ tokens → ∃ rung, Double.ofFloat value = .finite false rung) :
    ∀ entry ∈ entriesOf separator tokens, Spells separator entry.text entry.token := by
  induction tokens with
  | nil => exact nofun
  | cons token rest ih =>
      refine List.forall_mem_cons.mpr ⟨?_, ih fun value later => ?_⟩
      · exact token.spells_written separator fun value same =>
          plain value (same ▸ List.mem_cons_self)
      · exact plain value (List.mem_cons_of_mem _ later)

theorem gaps_entriesOf (separator : Separator) (tokens : List Token) :
    ∀ entry ∈ entriesOf separator tokens, ∀ character ∈ entry.gap, isBlank character = true := by
  induction tokens with
  | nil => exact nofun
  | cons token rest ih =>
      refine List.forall_mem_cons.mpr ⟨fun character member => ?_, ih⟩
      simp only [Token.gapBefore] at member
      split at member
      · rw [List.mem_singleton.mp member]
        rfl
      · cases member

theorem apart_entriesOf (separator : Separator) (tokens : List Token) :
    (entriesOf separator tokens).IsChain fun entry next =>
      entry.token.isNumber = true → next.token.isNumber = true → entry.gap ≠ [] := by
  induction tokens with
  | nil => exact .nil
  | cons token rest ih =>
      cases rest with
      | nil => exact .singleton _
      | cons next rest =>
          refine .cons_cons (fun number follows => ?_) ih
          cases token with
          | number value =>
              cases next with
              | number other => exact List.cons_ne_nil _ _
              | log | operator sign | opening | closing => cases follows
          | log | operator sign | opening | closing => cases number

/-- Written one after the other, tokens do not run into each other. -/
theorem Valid.rendered
    (plain : ∀ value, .number value ∈ tokens → ∃ rung, Double.ofFloat value = .finite false rung) :
    (rendered separator tokens).Valid separator :=
  ⟨nofun, spelled_entriesOf plain, gaps_entriesOf separator tokens, apart_entriesOf separator tokens⟩

theorem map_token_lexemesAfter (separator : Separator) (before : List Char) (tokens : List Token) :
    (lexemesAfter before (entriesOf separator tokens)).map Lexeme.token = tokens := by
  induction tokens generalizing before with
  | nil => rfl
  | cons token rest ih => exact congrArg (token :: ·) (ih _)

end Layout

/-- A text written from tokens has these tokens as its lexemes, each at the number
of bytes before it, if their numbers are finite and show no sign.  A finite double
written alone, with its sign, is the value of its text. -/
theorem tokenize_rendered (separator : Separator) :
    (∀ tokens : List Token,
      (∀ value, .number value ∈ tokens → ∃ rung, Double.ofFloat value = .finite false rung) →
      tokenize separator (String.ofList (Layout.rendered separator tokens).text) =
          .ok (Layout.rendered separator tokens).lexemes ∧
        (Layout.rendered separator tokens).lexemes.map Lexeme.token = tokens) ∧
    ∀ value negative rung, Double.ofFloat value = .finite negative rung →
      evaluate separator
        (String.ofList ((Double.ofFloat value).text.map separator.separated)) = .ok value := by
  refine ⟨fun tokens plain => ⟨?_, ?_⟩, fun value negative rung finite => ?_⟩
  · exact Layout.tokenize_eq (Layout.Valid.rendered plain) String.toList_ofList.symm
  · exact Layout.map_token_lexemesAfter separator [] tokens
  · obtain ⟨below, same⟩ := Double.ofFloat_eq_finite_iff.mp finite
    rw [finite, separator.map_separated_double, evaluate_signed, Double.ofDecimal_shortest below,
      same]

/-- Only the two numbers that stand together are kept apart; a zero keeps its sign. -/
theorem tokenize_rendered_tenth_and_two :
    tokenize .comma "loglog0,1 2log3-)" =
        .ok [⟨.log, 0⟩, ⟨.log, 3⟩, ⟨.number 0.1, 6⟩, ⟨.number 2, 10⟩, ⟨.log, 11⟩, ⟨.number 3, 14⟩,
          ⟨.operator .sub, 15⟩, ⟨.closing, 16⟩] ∧
      evaluate .comma "-0" = .ok (-0) := by
  obtain ⟨tokens, same⟩ : ∃ tokens : List Token, tokens =
      [.log, .log, .number 0.1, .number 2, .log, .number 3, .operator .sub, .closing] := ⟨_, rfl⟩
  have plain : ∀ value, .number value ∈ tokens →
      ∃ rung, Double.ofFloat value = .finite false rung := by
    intro value member
    simp only [same, List.mem_cons, List.not_mem_nil, or_false, reduceCtorEq, false_or,
      Token.number.injEq] at member
    rcases member with rfl | rfl | rfl
    · exact ⟨0x3FB999999999999A, by decide +kernel⟩
    · exact ⟨0x4000000000000000, by decide +kernel⟩
    · exact ⟨0x4008000000000000, by decide +kernel⟩
  have text : String.ofList (Layout.rendered .comma tokens).text = "loglog0,1 2log3-)" := by
    rw [same]
    decide +kernel
  have lexemes : (Layout.rendered .comma tokens).lexemes =
      [⟨.log, 0⟩, ⟨.log, 3⟩, ⟨.number 0.1, 6⟩, ⟨.number 2, 10⟩, ⟨.log, 11⟩, ⟨.number 3, 14⟩,
        ⟨.operator .sub, 15⟩, ⟨.closing, 16⟩] := by
    rw [same]
    decide +kernel
  have scanned := ((tokenize_rendered .comma).1 tokens plain).1
  rw [text, lexemes] at scanned
  have zero : Double.ofFloat (-0) = .finite true 0 := by decide +kernel
  have written : String.ofList ((Double.finite true 0).text.map Separator.comma.separated) =
      "-0" := by decide +kernel
  have value := (tokenize_rendered .comma).2 _ _ _ zero
  rw [zero, written] at value
  exact ⟨scanned, value⟩

end Reckoner
