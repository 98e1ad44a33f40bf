import Reckoner.Answer
import Reckoner.Proofs.Exchange.Text

namespace Reckoner

def LexError.exchanged : LexError → LexError
  | .unexpectedCharacter character position =>
      .unexpectedCharacter (Exchange.char character) position
  | .malformedNumber literal position => .malformedNumber (Exchange.text literal) position

def EvalError.exchanged : EvalError → EvalError
  | .lex error => .lex error.exchanged
  | .parse error => .parse error

def Settings.exchanged (settings : Settings) : Settings :=
  ⟨settings.separator.other, settings.precision⟩

def Record.exchanged : Record → Record
  | .lexed source count => .lexed (Exchange.text source) count
  | .parsed expr => .parsed expr
  | .evaluated source value => .evaluated (Exchange.text source) value
  | .rejected error => .rejected error.exchanged
  | .started settings => .started settings.exchanged
  | .finished => .finished

/-- The records with point and comma exchanged, and a result that `swap` exchanges
them in. -/
def Logged.exchanged {α : Type} (swap : α → α) (logged : Logged α) : Logged α :=
  ⟨logged.records.map Record.exchanged, swap logged.result⟩

namespace Exchange

theorem char_eq_iff {character other : Char} :
    char character = char other ↔ character = other :=
  char_injective.eq_iff

theorem beq_comp_char (separator : Separator) :
    (· == separator.other.char) ∘ char = (· == separator.char) := by
  funext character
  rw [Function.comp_apply, ← char_separator, Bool.eq_iff_iff, beq_iff_eq, beq_iff_eq, char_eq_iff]

theorem takeWhile_map_char {view : Char → Bool} (alike : view '.' = view ',')
    (characters : List Char) :
    (characters.map char).takeWhile view = (characters.takeWhile view).map char := by
  rw [List.takeWhile_map, show view ∘ char = view from funext (apply_char view alike)]

theorem ofDigitChars_map_char (characters : List Char) (value : Nat) :
    Nat.ofDigitChars 10 (characters.map char) value = Nat.ofDigitChars 10 characters value := by
  induction characters generalizing value with
  | nil => rfl
  | cons first rest ih =>
      rw [List.map_cons, Nat.ofDigitChars_cons, Nat.ofDigitChars_cons, ih,
        apply_char (fun character => character.toNat - '0'.toNat) rfl first]

theorem decimal_map_char (separator : Separator) (run : List Char) :
    separator.other.decimal (run.map char) = separator.decimal run := by
  have pred : (fun character => decide (character ≠ separator.other.char)) ∘ char =
      fun character => decide (character ≠ separator.char) := by
    funext character
    simp [← char_separator, char_eq_iff]
  unfold Separator.decimal Decimal.ofDigits
  rw [List.takeWhile_map, List.dropWhile_map, pred, ← List.map_drop, ← List.map_append,
    ofDigitChars_map_char, List.length_map]

theorem number_map_char (separator : Separator) (position : Nat) (run : List Char) :
    separator.other.number position (run.map char) =
      (separator.number position run).mapError LexError.exchanged := by
  have foreign : (run.map char).findIdx? (· == separator.other.other.char) =
      run.findIdx? (· == separator.other.char) := by
    rw [List.findIdx?_map, beq_comp_char]
  have count : (run.map char).count separator.other.char = run.count separator.char := by
    rw [List.count, List.count, List.countP_map, beq_comp_char]
  have digits : (run.map char).all (!·.isDigit) = run.all (!·.isDigit) := by
    simp only [List.all_map, Function.comp_def, isDigit_char]
  unfold Separator.number
  rw [foreign, count, digits, decimal_map_char]
  cases run.findIdx? (· == separator.other.char) with
  | some offset => simp only [Except.mapError, LexError.exchanged, char_separator]
  | none =>
      dsimp only
      split
      · simp only [Except.mapError, LexError.exchanged, text_ofList]
      · rfl

theorem isPrefixOf_map_char {word : List Char}
    (plain : ∀ character ∈ word, isNumeral character = false) (characters : List Char) :
    word.isPrefixOf (characters.map char) = word.isPrefixOf characters := by
  induction word generalizing characters with
  | nil => rfl
  | cons first word ih =>
      have fixed := char_of_not_isNumeral (plain first List.mem_cons_self)
      cases characters with
      | nil => rfl
      | cons character characters =>
          have same : (first == char character) = (first == character) := by
            have unique := @char_eq_iff first character
            rw [fixed] at unique
            rw [Bool.eq_iff_iff, beq_iff_eq, beq_iff_eq, unique]
          rw [List.map_cons, List.isPrefixOf, List.isPrefixOf, same,
            ih fun character member => plain character (List.mem_cons_of_mem _ member)]

theorem lead_map_char (separator : Separator) (position : Nat) (first : Char) (rest : List Char) :
    Lexeme.lead separator.other position (char first) (rest.map char) =
      (Lexeme.lead separator position first rest).mapError LexError.exchanged := by
  unfold Lexeme.lead
  dsimp only
  rw [isNumeral_char, takeWhile_map_char rfl, ← List.map_cons, number_map_char, List.length_map,
    ← List.map_cons, isPrefixOf_map_char (by simp [isNumeral])]
  split
  next numeral =>
    cases separator.number position (first :: rest.takeWhile isNumeral) <;> rfl
  next plain =>
    rw [char_of_not_isNumeral (Bool.eq_false_iff.mpr plain)]
    cases Token.ofChar? first with
    | some token => rfl
    | none =>
        dsimp only
        split
        · rfl
        · simp only [Except.mapError, LexError.exchanged,
            char_of_not_isNumeral (Bool.eq_false_iff.mpr plain)]

theorem scan_map_char (separator : Separator) (position : Nat) (found : List Lexeme)
    (source : List Char) :
    Lexeme.scan separator.other position found (source.map char) =
      (Lexeme.scan separator position found source).mapError LexError.exchanged := by
  induction size : source.length using Nat.strongRecOn generalizing position found source with
  | ind size shorter =>
      subst size
      cases source with
      | nil => rw [List.map_nil, Lexeme.scan_nil, Lexeme.scan_nil]; rfl
      | cons first rest =>
          have led := lead_map_char separator position first rest
          rw [List.map_cons]
          cases blank : isBlank first with
          | true =>
              rw [Lexeme.scan_blank _ _ _ _ blank,
                Lexeme.scan_blank _ _ _ _ ((isBlank_char first).trans blank)]
              exact shorter _ (Nat.lt_succ_self _) _ _ _ rfl
          | false =>
              have solid := (isBlank_char first).trans blank
              cases original : Lexeme.lead separator position first rest with
              | error error =>
                  rw [original] at led
                  rw [Lexeme.scan_refused _ _ _ _ blank original,
                    Lexeme.scan_refused _ _ _ _ solid led]
                  rfl
              | ok pair =>
                  obtain ⟨token, further⟩ := pair
                  rw [original] at led
                  have fewer : (rest.drop further).length < (first :: rest).length := by
                    simp only [List.length_drop, List.length_cons]
                    omega
                  rw [Lexeme.scan_lead _ _ _ _ blank original, Lexeme.scan_lead _ _ _ _ solid led,
                    ← List.map_drop]
                  exact shorter _ fewer _ _ _ rfl

theorem tokenize_text (separator : Separator) (source : String) :
    tokenize separator.other (text source) =
      (tokenize separator source).mapError LexError.exchanged := by
  rw [tokenize_eq_scan, tokenize_eq_scan, toList_text, scan_map_char]

/-- The value stays the same when point and comma are exchanged in the source
and in what is asked for; so does the reason if there is none. -/
theorem evaluating_text (separator : Separator) (source : String) :
    evaluating separator.other (text source) =
      (evaluating separator source).exchanged (·.mapError EvalError.exchanged) := by
  have scanned' := tokenize_text separator source
  cases scanned : tokenize separator source with
  | error error =>
      rw [scanned] at scanned'
      rw [evaluating_of_lexError scanned, evaluating_of_lexError scanned']
      rfl
  | ok lexemes =>
      rw [scanned] at scanned'
      cases spelled : Expr.ofLexemes lexemes with
      | error error =>
          rw [evaluating_of_parseError scanned spelled, evaluating_of_parseError scanned' spelled]
          rfl
      | ok expr =>
          rw [evaluating_of_expr scanned spelled, evaluating_of_expr scanned' spelled]
          rfl

theorem evaluate_text (separator : Separator) (source : String) :
    evaluate separator.other (text source) =
      (evaluate separator source).mapError EvalError.exchanged :=
  congrArg Logged.result (evaluating_text separator source)

theorem fixedText_map_char (separator : Separator) (precision : Nat) (decimal : Decimal) :
    decimal.fixedText separator.other.char precision =
      (decimal.fixedText separator.char precision).map char := by
  have whole : (decimal.roundTo precision).whole.map char = (decimal.roundTo precision).whole :=
    map_eq_self fun character member => char_of_isDigit (Decimal.isDigit_of_mem_whole _ member)
  have fraction : ((decimal.roundTo precision).fraction.rightpad precision '0').map char =
      (decimal.roundTo precision).fraction.rightpad precision '0' := by
    refine map_eq_self fun character member => ?_
    rcases List.mem_append.mp member with digit | padding
    · exact char_of_isDigit (Decimal.isDigit_of_mem_fraction _ digit)
    · rw [List.eq_of_mem_replicate padding]
      rfl
  unfold Decimal.fixedText Decimal.joined
  dsimp only
  split
  · exact whole.symm
  · rw [List.map_append, List.map_cons, whole, fraction, char_separator]

theorem signed_map_char (negative : Bool) (magnitude : List Char) :
    Double.signed negative (magnitude.map char) = (Double.signed negative magnitude).map char := by
  cases negative <;> rfl

theorem double_fixedText (separator : Separator) (precision : Nat) (value : Double) :
    value.fixedText separator.other.char precision =
      (value.fixedText separator.char precision).map char := by
  cases value with
  | notANumber => rfl
  | infinite negative => exact signed_map_char negative ['i', 'n', 'f']
  | finite negative rung =>
      rw [Double.fixedText, fixedText_map_char, signed_map_char]
      rfl

theorem format_exchanged (settings : Settings) (value : Float) :
    settings.exchanged.format value = (settings.format value).map text := by
  unfold Settings.format
  cases Double.ofFloat value with
  | finite negative rung =>
      simp only [Settings.exchanged, double_fixedText]
      split
      · simp only [Except.map, text_ofList]
      · rfl
  | notANumber | infinite negative =>
      simp only [Settings.exchanged, Except.map, text_ofList, double_fixedText]

theorem answering_exchanged (settings : Settings) (result : Except EvalError Float) :
    settings.exchanged.answering (result.mapError EvalError.exchanged) =
      (settings.answering result).exchanged (·.map text) := by
  cases result with
  | error error =>
      have same : rejection = text rejection := (text_of_plain (by decide)).symm
      exact congrArg (Logged.mk [.rejected error.exchanged]) (congrArg Except.ok same)
  | ok value =>
      have label : text "Result: " = "Result: " := text_of_plain (by decide)
      have told : (settings.exchanged.format value).map ("Result: " ++ ·) =
          ((settings.format value).map ("Result: " ++ ·)).map text := by
        rw [format_exchanged]
        cases settings.format value with
        | error error => rfl
        | ok written => simp only [Except.map, text_append, label]
      exact congrArg (Logged.mk []) told

/-- An answer shows a value with point and comma exchanged, and is the same for
all errors. -/
theorem responding_text (settings : Settings) (source : String) :
    settings.exchanged.responding (text source) =
      (settings.responding source).exchanged (·.map text) := by
  have evaluated : evaluating settings.exchanged.separator (text source) = _ :=
    evaluating_text settings.separator source
  unfold Settings.responding
  rw [evaluated]
  dsimp only [bind, Logged.exchanged]
  rw [answering_exchanged, List.map_append]
  rfl

theorem respond_text (settings : Settings) (source : String) :
    settings.exchanged.respond (text source) = (settings.respond source).map text :=
  congrArg Logged.result (responding_text settings source)

end Exchange

namespace Settings

variable {settings : Settings}

theorem format_eq_ok (bounded : settings.precision ≤ largestPrecision) (value : Float) :
    ∃ written, settings.format value = .ok written := by
  unfold format
  split
  · rw [if_pos bounded]
    exact ⟨_, rfl⟩
  · exact ⟨_, rfl⟩

/-- Every source is answered unless too many places are asked for. -/
theorem respond_eq_ok (bounded : settings.precision ≤ largestPrecision) (source : String) :
    ∃ answer, settings.respond source = .ok answer := by
  rw [respond_eq_answer]
  cases evaluate settings.separator source with
  | ok value =>
      obtain ⟨written, formatted⟩ := format_eq_ok bounded value
      refine ⟨"Result: " ++ written, ?_⟩
      rw [answer, answering, formatted]
      rfl
  | error error => exact ⟨rejection, rfl⟩

end Settings

end Reckoner
