import Reckoner.Evaluation
import Reckoner.Proofs.Lexing.Refusal
import Reckoner.Proofs.Reading.Blame
import Reckoner.Proofs.Reading.Nesting

namespace Reckoner

/-- The text stands in the source, from a byte position on. -/
def WrittenAt (source : String) (position : Nat) (text : List Char) : Prop :=
  ∃ before after, source.toList = before ++ (text ++ after) ∧ byteSize before = position

/-- The run is a whole run of numerals in the source, from a byte position on. -/
def RunsAt (source : String) (position : Nat) (run : List Char) : Prop :=
  ∃ before after, source.toList = before ++ (run ++ after) ∧ byteSize before = position ∧
    run ≠ [] ∧ (∀ character ∈ run, isNumeral character = true) ∧
    (∀ last, before.getLast? = some last → isNumeral last = false) ∧ Unnumbered after

namespace Layout

variable {separator : Separator} {source : String} {layout : Layout} {lexeme : Lexeme}

theorem exists_written {before : List Char} {entries : List Entry}
    (spelled : ∀ entry ∈ entries, Spells separator entry.text entry.token)
    (member : lexeme ∈ lexemesAfter before entries) :
    ∃ left written right, text ⟨before, entries⟩ = left ++ (written ++ right) ∧
      byteSize left = lexeme.position ∧ Spells separator written lexeme.token := by
  induction entries generalizing before with
  | nil => cases member
  | cons entry entries ih =>
      have whole : text ⟨before, entry :: entries⟩ =
          before ++ (entry.text ++ text ⟨entry.gap, entries⟩) := text_cons
      obtain ⟨spells, spelled⟩ := List.forall_mem_cons.mp spelled
      rcases List.mem_cons.mp member with rfl | later
      · exact ⟨before, entry.text, _, whole, rfl, spells⟩
      · obtain ⟨left, written, right, same, place, spells⟩ := ih spelled later
        refine ⟨left, written, right, ?_, place, spells⟩
        rw [← same]
        simp only [text, List.flatMap_cons, List.append_assoc]

/-- Every lexeme is written in the source at its position. -/
theorem writtenAt_of_mem (valid : layout.Valid separator) (same : layout.text = source.toList)
    (member : lexeme ∈ layout.lexemes) :
    ∃ written, Spells separator written lexeme.token ∧
      WrittenAt source lexeme.position written := by
  obtain ⟨left, written, right, split, place, spells⟩ := exists_written valid.spelled member
  exact ⟨written, spells, left, right, same.symm.trans split, place⟩

theorem lexemes_eq_nil_iff (valid : layout.Valid separator) (same : layout.text = source.toList) :
    layout.lexemes = [] ↔ ∀ character ∈ source.toList, isBlank character = true := by
  obtain ⟨indent, entries⟩ := layout
  rw [← same]
  cases entries with
  | nil => exact iff_of_true rfl (by simpa [text] using valid.indent)
  | cons entry entries =>
      obtain ⟨first, more, starts, solid, _⟩ :=
        (valid.spelled entry List.mem_cons_self).starts
      refine iff_of_false (List.cons_ne_nil _ _) fun blank => ?_
      have member : first ∈ text ⟨indent, entry :: entries⟩ := by
        simp [text_cons, starts]
      rw [blank first member] at solid
      cases solid

end Layout

/-- What the error shows is in the source where the error says: the character,
or a run of numerals, all of them, that is not spoiled by the other separator
and no number for want of a digit or for a second separator. -/
def LexError.PointsInto (separator : Separator) (source : String) : LexError → Prop
  | .unexpectedCharacter character position => WrittenAt source position [character]
  | .malformedNumber literal position => RunsAt source position literal.toList ∧
      (∀ character ∈ literal.toList, character.isDigit = true ∨ character = separator.char) ∧
      ((∀ character ∈ literal.toList, character.isDigit = false) ∨
        2 ≤ literal.toList.count separator.char)

/-- An error of the lexer shows what is wrong where it is. -/
theorem LexError.pointsInto_of_tokenize {separator : Separator} {source : String} {error : LexError}
    (rejected : tokenize separator source = .error error) : error.PointsInto separator source := by
  obtain ⟨layout, first, rest, valid, split, apart, refused⟩ :=
    Layout.exists_of_scan_error [] source.toList rejected
  rw [List.nil_append] at refused
  rcases Lexeme.lead_eq_error refused with rfl | ⟨numeral, refused⟩
  · exact ⟨layout.text, rest, split, rfl⟩
  · have whole := List.takeWhile_append_dropWhile (p := isNumeral) (l := rest)
    have numerals : ∀ character ∈ first :: rest.takeWhile isNumeral, isNumeral character = true :=
      List.forall_mem_cons.mpr ⟨numeral, fun _ member => List.mem_takeWhile_imp member⟩
    have ends := unnumbered_dropWhile rest
    rw [← whole] at split
    generalize rest.takeWhile isNumeral = run at *
    generalize rest.dropWhile isNumeral = others at *
    rcases Separator.number_eq_error numerals refused with
      ⟨before, after, same, rfl⟩ | ⟨native, spoiled, rfl⟩
    · refine ⟨layout.text ++ before, after ++ others, ?_, ?_⟩
      · rw [split, ← List.cons_append, same]
        simp
      · have size : byteSize before = before.length := by
          apply byteSize_eq_length
          intro character member
          apply utf8Size_of_isNumeral
          apply numerals
          rw [same]
          exact List.mem_append_left _ member
        rw [byteSize_append, size]
    · have stops : ∀ last, layout.text.getLast? = some last → isNumeral last = false := by
        intro last final
        apply Bool.eq_false_iff.mpr
        intro goes
        rw [apart last final goes _ _ rfl] at numeral
        cases numeral
      simp only [PointsInto, String.toList_ofList]
      exact ⟨⟨layout.text, others, split, rfl, List.cons_ne_nil _ _, numerals, stops, ends⟩,
        native, spoiled⟩

/-- The tokens that open a construct, a minus sign between operands excepted. -/
def Token.opens : Token → Bool
  | .opening | .log | .operator .sub | .operator .pow => true
  | .number _ | .closing | .operator _ => false

namespace Place

variable {place : Place} {nesting : Nesting} {base : Nat} {lexemes : List Lexeme}

theorem opens_of_opened? {lexeme : Lexeme} (opened : place.opened? lexeme ≠ none) :
    lexeme.token.opens = true := by
  obtain ⟨around, expected⟩ := place
  obtain ⟨token, position⟩ := lexeme
  cases token with
  | opening | log => rfl
  | number value | closing => cases expected <;> exact absurd rfl opened
  | operator sign =>
      cases sign with
      | sub | pow => rfl
      | add | mul | div => cases expected <;> exact absurd rfl opened

/-- An open parenthesis is one of the lexemes. -/
theorem mem_of_mem_track {unclosed : List Nat} {position : Nat}
    (member : position ∈ lexemes.foldl track unclosed) :
    position ∈ unclosed ∨ ⟨.opening, position⟩ ∈ lexemes := by
  induction lexemes generalizing unclosed with
  | nil => exact .inl member
  | cons lexeme rest ih =>
      obtain ⟨token, place⟩ := lexeme
      rcases ih member with before | after
      · cases token with
        | opening =>
            rcases List.mem_cons.mp before with rfl | earlier
            · exact .inr List.mem_cons_self
            · exact .inl earlier
        | closing => exact .inl (List.mem_of_mem_tail before)
        | number value | log | operator sign => exact .inl before
      · exact .inr (List.mem_cons_of_mem _ after)

end Place

/-- The lexemes hold what the error shows. -/
def ParseError.ShownIn (lexemes : List Lexeme) : ParseError → Prop
  | .emptyExpression => lexemes = []
  | .unexpectedEnd => True
  | .unexpectedToken lexeme | .trailingToken lexeme => lexeme ∈ lexemes
  | .unclosedGroup position => ⟨.opening, position⟩ ∈ lexemes
  | .nestingTooDeep position =>
      ∃ lexeme ∈ lexemes, lexeme.position = position ∧ lexeme.token.opens = true

theorem Expr.shownIn_of_ofLexemes {lexemes : List Lexeme} {error : ParseError}
    (rejected : ofLexemes lexemes = .error error) :
    error.ShownIn lexemes := by
  rcases Decidable.em (lexemes = []) with rfl | spelled
  · cases rejected
    exact rfl
  · obtain ⟨before, stop, after, rfl, walked, refuses⟩ :=
      Place.refuses_of_run ((ofLexemes_eq_error spelled).mp rejected)
    rcases refuses.blames with ⟨_, rfl⟩ | ⟨position, rfl, inner⟩ | ⟨lexeme, rest, rfl, blamed⟩
    · exact trivial
    · rw [Place.groups_walk walked] at inner
      rcases Place.mem_of_mem_track (List.mem_of_head? inner) with start | member
      · cases start
      · exact List.mem_append_left _ member
    · have member : lexeme ∈ before ++ lexeme :: rest :=
        List.mem_append_right _ List.mem_cons_self
      rcases blamed with rfl | rfl | ⟨rfl, _⟩
      · exact member
      · obtain ⟨_, _, same, _, opened, _⟩ := refuses.tooDeep
        cases same
        exact ⟨lexeme, member, rfl, Place.opens_of_opened? opened⟩
      · exact member

/-- What the error shows is written in the source where the error says: the
token, as one of its lexemes, or the parenthesis, sign or word that opens a
construct.  A source that is only blanks shows nothing. -/
def ParseError.PointsInto (separator : Separator) (source : String) : ParseError → Prop
  | .emptyExpression => ∀ character ∈ source.toList, isBlank character = true
  | .unexpectedEnd => True
  | .unexpectedToken lexeme | .trailingToken lexeme =>
      (∃ lexemes, tokenize separator source = .ok lexemes ∧ lexeme ∈ lexemes) ∧
        ∃ written, Spells separator written lexeme.token ∧ WrittenAt source lexeme.position written
  | .unclosedGroup position => WrittenAt source position ['(']
  | .nestingTooDeep position =>
      ∃ written ∈ [['('], ['-'], ['^'], ['l', 'o', 'g']], WrittenAt source position written

def EvalError.PointsInto (separator : Separator) (source : String) : EvalError → Prop
  | .lex error => error.PointsInto separator source
  | .parse error => (∃ lexemes, tokenize separator source = .ok lexemes) ∧
      error.PointsInto separator source

theorem ParseError.pointsInto_of_ofLexemes {separator : Separator} {source : String}
    {lexemes : List Lexeme} {error : ParseError} (scanned : tokenize separator source = .ok lexemes)
    (rejected : Expr.ofLexemes lexemes = .error error) : error.PointsInto separator source := by
  obtain ⟨layout, valid, same, rfl⟩ := Layout.exists_of_tokenize scanned
  have written : ∀ lexeme ∈ layout.lexemes, ∃ written, Spells separator written lexeme.token ∧
      WrittenAt source lexeme.position written :=
    fun lexeme member => layout.writtenAt_of_mem valid same member
  have shown := Expr.shownIn_of_ofLexemes rejected
  cases error with
  | emptyExpression => exact (Layout.lexemes_eq_nil_iff valid same).mp shown
  | unexpectedEnd => exact trivial
  | unexpectedToken lexeme => exact ⟨⟨_, scanned, shown⟩, written lexeme shown⟩
  | trailingToken lexeme => exact ⟨⟨_, scanned, shown⟩, written lexeme shown⟩
  | unclosedGroup position =>
      obtain ⟨text, spells, there⟩ := written _ shown
      cases spells
      exact there
  | nestingTooDeep position =>
      obtain ⟨⟨token, _⟩, member, rfl, opens⟩ := shown
      obtain ⟨text, spells, there⟩ := written _ member
      refine ⟨text, ?_, there⟩
      cases spells with
      | number | closing => cases opens
      | log | opening => simp
      | operator sign =>
          cases sign with
          | sub | pow => simp [BinaryOp.symbol]
          | add | mul | div => cases opens

theorem WrittenAt.within {source : String} {position : Nat} {first : Char} {more : List Char}
    (written : WrittenAt source position (first :: more)) :
    position < source.utf8ByteSize ∧ String.Pos.Raw.IsValid source ⟨position⟩ := by
  obtain ⟨before, after, split, rfl⟩ := written
  have joined : source = String.ofList before ++ String.ofList (first :: (more ++ after)) := by
    rw [← String.ofList_append, ← List.cons_append, ← split, String.ofList_toList]
  have positive := first.utf8Size_pos
  constructor
  · rw [joined, String.utf8ByteSize_append, String.ofList_cons, String.utf8ByteSize_append,
      String.utf8ByteSize_singleton, byteSize]
    omega
  · exact String.Pos.Raw.isValid_iff_exists_append.mpr ⟨_, _, joined, rfl⟩

/-- Where there is a position there is something to see. -/
theorem EvalError.PointsInto.exists_written {separator : Separator} {source : String}
    {error : EvalError} (points : error.PointsInto separator source) {position : Nat}
    (placed : error.position? = some position) :
    ∃ first more, WrittenAt source position (first :: more) := by
  cases error with
  | lex error =>
      cases placed
      cases error with
      | unexpectedCharacter character position => exact ⟨character, [], points⟩
      | malformedNumber literal position =>
          obtain ⟨before, after, split, place, filled, _⟩ := points.1
          obtain ⟨first, more, starts⟩ := List.exists_cons_of_ne_nil filled
          exact ⟨first, more, before, after, starts ▸ split, place⟩
  | parse error =>
      cases error with
      | emptyExpression | unexpectedEnd => cases placed
      | unexpectedToken lexeme | trailingToken lexeme =>
          cases placed
          obtain ⟨_, _, written, spells, there⟩ := points
          obtain ⟨first, more, rfl, _⟩ := spells.starts
          exact ⟨first, more, there⟩
      | unclosedGroup position =>
          cases placed
          exact ⟨'(', [], points.2⟩
      | nestingTooDeep position =>
          cases placed
          obtain ⟨_, written, member, there⟩ := points
          simp only [List.mem_cons, List.not_mem_nil, or_false] at member
          rcases member with rfl | rfl | rfl | rfl <;> exact ⟨_, _, there⟩

theorem EvalError.pointsInto_of_evaluate {separator : Separator} {source : String}
    {error : EvalError} (rejected : evaluate separator source = .error error) :
    error.PointsInto separator source := by
  rw [evaluate_def] at rejected
  cases scanned : tokenize separator source with
  | error refused =>
      simp only [scanned, Except.error.injEq] at rejected
      subst rejected
      exact LexError.pointsInto_of_tokenize scanned
  | ok lexemes =>
      cases spelled : Expr.ofLexemes lexemes with
      | ok expr => simp [scanned, spelled] at rejected
      | error refused =>
          simp only [scanned, spelled, Except.error.injEq] at rejected
          subst rejected
          exact ⟨⟨lexemes, scanned⟩, ParseError.pointsInto_of_ofLexemes scanned spelled⟩

/-- What the error shows of the source: a character, a literal, or the text of the
token it blames. -/
def EvalError.shown? : EvalError → Option String
  | .lex (.unexpectedCharacter character _) => some character.toString
  | .lex (.malformedNumber literal _) => some literal
  | .parse (.unexpectedToken lexeme) | .parse (.trailingToken lexeme) => some lexeme.token.text
  | .parse _ => none

/-- What is shown is part of the message, and is written at the position that the
message gives, or is the text of the token there. -/
def EvalError.Shows (separator : Separator) (source : String) (error : EvalError)
    (text : String) : Prop :=
  ∃ position label mark, error.position? = some position ∧
    error.message = messageAt position (label ++ text ++ mark) ∧
    (WrittenAt source position text.toList ∨
      ∃ lexemes, tokenize separator source = .ok lexemes ∧
        ∃ lexeme ∈ lexemes, lexeme.position = position ∧ lexeme.token.text = text)

theorem EvalError.PointsInto.shows {separator : Separator} {source text : String}
    {error : EvalError} (points : error.PointsInto separator source)
    (shown : error.shown? = some text) : error.Shows separator source text := by
  cases error with
  | lex error =>
      cases error with
      | unexpectedCharacter character position =>
          cases shown
          refine ⟨position, "Unexpected character '", "'.", rfl, rfl, .inl ?_⟩
          rw [Char.toString, String.toList_singleton]
          exact points
      | malformedNumber literal position =>
          cases shown
          obtain ⟨before, after, split, place, _⟩ := points.1
          exact ⟨position, "Malformed number '", "'.", rfl, rfl, .inl ⟨before, after, split, place⟩⟩
  | parse error =>
      cases error with
      | emptyExpression | unexpectedEnd | unclosedGroup | nestingTooDeep => cases shown
      | unexpectedToken lexeme =>
          cases shown
          obtain ⟨_, ⟨lexemes, scanned, member⟩, _⟩ := points
          exact ⟨lexeme.position, "Unexpected token: ", ".", rfl, rfl,
            .inr ⟨lexemes, scanned, lexeme, member, rfl, rfl⟩⟩
      | trailingToken lexeme =>
          cases shown
          obtain ⟨_, ⟨lexemes, scanned, member⟩, _⟩ := points
          exact ⟨lexeme.position, "Extra tokens after expression, starting with: ", ".", rfl, rfl,
            .inr ⟨lexemes, scanned, lexeme, member, rfl, rfl⟩⟩

theorem evaluate_blank {source : String} (separator : Separator)
    (blank : ∀ character ∈ source.toList, isBlank character = true) :
    evaluate separator source = .error (.parse .emptyExpression) := by
  have valid : Layout.Valid separator ⟨source.toList, []⟩ := Layout.valid_blanks blank
  have scanned : tokenize separator source = .ok [] :=
    Layout.tokenize_eq valid (by simp [Layout.text])
  simp only [evaluate_def, scanned]
  rfl

/-- An error has a position unless the source ends too soon or is only blanks.
The position is one of a character of the source, and there stands what the error
shows, in its message too.  The empty expression is the error of blanks and of
nothing else, and the parser has no part in a source that is no text of lexemes. -/
theorem evaluate_points (separator : Separator) (source : String) :
    (evaluate separator source = .error (.parse .emptyExpression) ↔
      ∀ character ∈ source.toList, character = ' ' ∨ character = '\n') ∧
    ∀ error, evaluate separator source = .error error →
      (error.position? = none ↔
        error = .parse .unexpectedEnd ∨ error = .parse .emptyExpression) ∧
      (∀ position, error.position? = some position → position < source.utf8ByteSize ∧
        String.Pos.Raw.IsValid source ⟨position⟩) ∧
      error.PointsInto separator source ∧
      ∀ text, error.shown? = some text → error.Shows separator source text := by
  constructor
  · have blank : (∀ character ∈ source.toList, character = ' ' ∨ character = '\n') ↔
        ∀ character ∈ source.toList, isBlank character = true := by
      simp [isBlank]
    rw [blank]
    exact ⟨fun rejected => (EvalError.pointsInto_of_evaluate rejected).2, evaluate_blank separator⟩
  · intro error rejected
    have points := EvalError.pointsInto_of_evaluate rejected
    refine ⟨?_, ?_, points, fun text => points.shows⟩
    · cases error with
      | lex error => simp [EvalError.position?]
      | parse error => cases error <;> simp [EvalError.position?, ParseError.position?]
    · intro position placed
      obtain ⟨first, more, written⟩ := points.exists_written placed
      exact written.within

/-- The other separator is seen before the lack of a digit. -/
theorem evaluate_points_at_comma :
    evaluate .point " .," = .error (.lex (.unexpectedCharacter ',' 2)) ∧
      WrittenAt " .," 2 [','] := by
  have scanned : tokenize .point " .," = .error (.unexpectedCharacter ',' 2) := by
    refine (Lexeme.scan_blank _ _ _ _ rfl).trans ?_
    exact Lexeme.scan_refused _ _ _ _ rfl rfl
  have rejected : evaluate .point " .," = .error (.lex (.unexpectedCharacter ',' 2)) := by
    simp only [evaluate_def, scanned]
  obtain ⟨_, _, points, _⟩ := (evaluate_points .point " .,").2 _ rejected
  exact ⟨rejected, points⟩

end Reckoner
