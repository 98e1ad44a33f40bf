import Reckoner.Proofs.Lexing.Joining

namespace Reckoner

/-- No run of numerals goes on from the left text into the right one. -/
def Apart (left right : List Char) : Prop :=
  ∀ last, left.getLast? = some last → isNumeral last = true → Unnumbered right

theorem Apart.nil (right : List Char) : Apart [] right :=
  nofun

theorem Apart.append {left middle right : List Char} (outer : middle = [] → Apart left right)
    (inner : Apart middle right) : Apart (left ++ middle) right := by
  intro last ends numeral
  rw [List.getLast?_append] at ends
  cases final : middle.getLast? with
  | none =>
      rw [final, Option.none_or] at ends
      exact outer (List.getLast?_eq_none_iff.mp final) last ends numeral
  | some character =>
      rw [final, Option.some_or] at ends
      exact inner last (final.trans ends) numeral

theorem Apart.of_plain {left : List Char} (plain : ∀ character ∈ left, isNumeral character = false)
    (right : List Char) : Apart left right := by
  intro last ends numeral
  rw [plain last (List.mem_of_getLast? ends)] at numeral
  cases numeral

theorem Unnumbered.of_append {left right : List Char} (unnumbered : Unnumbered (left ++ right)) :
    Unnumbered left := by
  intro first rest same
  subst same
  exact unnumbered first (rest ++ right) rfl

namespace Spells

variable {separator : Separator} {text : List Char} {token : Token}

theorem not_isNumeral (spells : Spells separator text token) (plain : token.isNumber = false) :
    ∀ character ∈ text, isNumeral character = false := by
  cases spells with
  | number => cases plain
  | log => simp [isNumeral]
  | operator sign => cases sign <;> simp [isNumeral, BinaryOp.symbol]
  | opening => simp [isNumeral]
  | closing => simp [isNumeral]

/-- A token that is no number keeps runs of numerals apart, and so does a number
that is written to its end. -/
theorem apart (spells : Spells separator text token) {right : List Char}
    (ends : token.isNumber = true → Unnumbered right) : Apart text right := by
  cases kind : token.isNumber with
  | true => exact fun _ _ _ => ends kind
  | false => exact .of_plain (spells.not_isNumeral kind) right

end Spells

namespace Layout

variable {separator : Separator} {error : LexError}

/-- A scan that starts at no blank and fails is refused there, or finds a token
and fails behind it. -/
theorem scan_solid_error {before rest : List Char} {first : Char} (solid : isBlank first = false)
    (scanned : Lexeme.scan separator (byteSize before) [] (first :: rest) = .error error) :
    Lexeme.lead separator (byteSize before) first rest = .error error ∨
      ∃ more others token, rest = more ++ others ∧ Spells separator (first :: more) token ∧
        (token.isNumber = true → Unnumbered others) ∧
        Lexeme.scan separator (byteSize (before ++ first :: more)) [] others = .error error := by
  cases led : Lexeme.lead separator (byteSize before) first rest with
  | error other =>
      rw [Lexeme.scan_refused _ _ _ _ solid led] at scanned
      cases scanned
      exact .inl rfl
  | ok pair =>
      obtain ⟨token, further⟩ := pair
      obtain ⟨more, others, rfl, rfl, spells, unnumbered⟩ := (Lexeme.lead_eq_ok_iff _).mp led
      rw [← List.cons_append, scan_token spells unnumbered] at scanned
      refine .inr ⟨more, others, token, rfl, spells, unnumbered, ?_⟩
      cases onward : Lexeme.scan separator (byteSize (before ++ first :: more)) [] others with
      | ok found =>
          rw [onward] at scanned
          cases scanned
      | error other =>
          rw [onward] at scanned
          cases scanned
          rfl

/-- A text that does not scan is laid out up to a place where nothing can be
read. -/
theorem exists_of_scan_error (before text : List Char)
    (scanned : Lexeme.scan separator (byteSize before) [] text = .error error) :
    ∃ (layout : Layout) (first : Char) (rest : List Char), layout.Valid separator ∧
      text = layout.text ++ first :: rest ∧ Apart layout.text (first :: rest) ∧
      Lexeme.lead separator (byteSize (before ++ layout.text)) first rest = .error error := by
  induction size : text.length using Nat.strongRecOn generalizing before text with
  | ind size shorter =>
      subst size
      cases text with
      | nil =>
          rw [Lexeme.scan_nil] at scanned
          cases scanned
      | cons first rest =>
          cases blank : isBlank first with
          | true =>
              have one : byteSize [first] = 1 :=
                byteSize_blanks (List.forall_mem_singleton.mpr blank)
              rw [Lexeme.scan_blank _ _ _ _ blank, ← one, ← byteSize_append] at scanned
              obtain ⟨⟨indent, entries⟩, next, others, valid, rfl, apart, refused⟩ :=
                shorter _ (Nat.lt_succ_self _) _ _ scanned rfl
              have plain : isNumeral first = false := by
                apply Bool.eq_false_iff.mpr
                intro numeral
                rw [isBlank_of_isNumeral numeral] at blank
                cases blank
              refine ⟨⟨first :: indent, entries⟩, next, others,
                ⟨List.forall_mem_cons.mpr ⟨blank, valid.indent⟩, valid.spelled, valid.gaps,
                  valid.apart⟩, rfl, ?_, ?_⟩
              · change Apart ([first] ++ text ⟨indent, entries⟩) _
                apply Apart.append _ apart
                exact fun _ => .of_plain (List.forall_mem_singleton.mpr plain) _
              · rwa [List.append_assoc] at refused
          | false =>
              rcases scan_solid_error blank scanned with
                refused | ⟨more, others, token, rfl, spells, unnumbered, onward⟩
              · refine ⟨⟨[], []⟩, first, rest, valid_nil, rfl, .nil _, ?_⟩
                simpa [text] using refused
              · have fewer : others.length < (first :: (more ++ others)).length := by
                  simp only [List.length_cons, List.length_append]
                  omega
                obtain ⟨layout, next, last, valid, rfl, apart, refused⟩ :=
                  shorter _ fewer _ _ onward rfl
                have whole : text ⟨[], ⟨first :: more, token, layout.indent⟩ :: layout.entries⟩ =
                    (first :: more) ++ layout.text := text_cons
                refine ⟨⟨[], ⟨first :: more, token, layout.indent⟩ :: layout.entries⟩, next, last,
                  valid_cons.mpr ⟨List.forall_mem_nil _, spells, valid,
                    fun kind => (unnumbered kind).of_append⟩,
                  ?_, ?_, ?_⟩
                · simp [whole]
                · rw [whole]
                  refine Apart.append (fun empty => spells.apart ?_) apart
                  rwa [empty] at unnumbered
                · rwa [whole, ← List.append_assoc]

end Layout

theorem utf8Size_of_isNumeral {character : Char} (numeral : isNumeral character = true) :
    character.utf8Size = 1 := by
  have kinds : character.isDigit = true ∨ character = Separator.point.char ∨
      character = Separator.comma.char := Separator.isNumeral_iff.mp numeral
  rcases kinds with digit | rfl | rfl
  · exact utf8Size_of_isDigit digit
  · rfl
  · rfl

namespace Separator

variable {separator : Separator}

/-- The other separator is refused where it stands, and everything else with the
whole run. -/
theorem number_eq_error {run : List Char} (numeral : ∀ character ∈ run, isNumeral character = true)
    {position : Nat} {error : LexError} (refused : separator.number position run = .error error) :
    (∃ before after, run = before ++ separator.other.char :: after ∧
        error = .unexpectedCharacter separator.other.char (position + before.length)) ∨
      ((∀ character ∈ run, character.isDigit = true ∨ character = separator.char) ∧
        ((∀ character ∈ run, character.isDigit = false) ∨ 2 ≤ run.count separator.char) ∧
        error = .malformedNumber (String.ofList run) position) := by
  unfold number at refused
  cases found : run.findIdx? (· == separator.other.char) with
  | some offset =>
      simp only [found, Except.error.injEq] at refused
      obtain ⟨within, foreign, _⟩ := List.findIdx?_eq_some_iff_getElem.mp found
      refine .inl ⟨run.take offset, run.drop (offset + 1), ?_, ?_⟩
      · rw [← eq_of_beq foreign, List.getElem_cons_drop, List.take_append_drop]
      · rw [← refused, List.length_take, Nat.min_eq_left (Nat.le_of_lt within)]
  | none =>
      simp only [found] at refused
      split at refused
      next spoiled =>
        simp only [Except.error.injEq] at refused
        refine .inr ⟨(findIdx?_other_eq_none numeral).mp found, ?_, refused.symm⟩
        rcases spoiled with twice | digitless
        · exact .inr twice
        · exact .inl (by simpa using digitless)
      next => cases refused

end Separator

namespace Lexeme

theorem lead_eq_error {separator : Separator} {position : Nat} {first : Char} {rest : List Char}
    {error : LexError} (refused : lead separator position first rest = .error error) :
    error = .unexpectedCharacter first position ∨
      isNumeral first = true ∧
        separator.number position (first :: rest.takeWhile isNumeral) = .error error := by
  unfold lead at refused
  split at refused
  next numeral =>
    cases read : separator.number position (first :: rest.takeWhile isNumeral) with
    | ok value => simp [read, Except.map] at refused
    | error other =>
        simp only [read, Except.map, Except.error.injEq] at refused
        exact .inr ⟨numeral, by rw [refused]⟩
  next =>
    split at refused
    next => cases refused
    next =>
      split at refused
      next => cases refused
      next =>
        cases refused
        exact .inl rfl

end Lexeme

end Reckoner
