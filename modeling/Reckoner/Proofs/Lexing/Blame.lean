import Reckoner.Proofs.Lexing.Refusal

namespace Reckoner

theorem Unnumbered.append {left right : List Char} (unnumbered : Unnumbered left)
    (after : left = [] → Unnumbered right) : Unnumbered (left ++ right) := by
  cases left with
  | nil => exact after rfl
  | cons first rest =>
      intro character others same
      cases same
      exact unnumbered first rest rfl

theorem Apart.of_append {left middle right : List Char} (apart : Apart (left ++ middle) right) :
    Apart middle right := by
  intro last ends
  apply apart last
  rw [List.getLast?_append, ends, Option.some_or]

/-- A written number that is kept apart from what follows is written to its end. -/
theorem Spells.unnumbered {separator : Separator} {written right : List Char} {token : Token}
    (spells : Spells separator written token) (apart : Apart written right)
    (number : token.isNumber = true) : Unnumbered right := by
  cases spells with
  | number numeral nearest =>
      obtain ⟨digit, member, _⟩ := numeral.digit
      have filled := List.ne_nil_of_mem member
      exact apart _ (List.getLast?_eq_some_getLast filled)
        (numeral.isNumeral _ (List.getLast_mem filled))
  | log | operator sign | opening | closing => cases number

namespace Layout

variable {separator : Separator}

theorem scan_append {layout : Layout} (valid : layout.Valid separator) {right : List Char}
    (apart : Apart layout.text right) (before : List Char) :
    Lexeme.scan separator (byteSize before) [] (layout.text ++ right) =
      (Lexeme.scan separator (byteSize (before ++ layout.text)) [] right).map
        (lexemesAfter (before ++ layout.indent) layout.entries ++ ·) := by
  obtain ⟨indent, entries⟩ := layout
  induction entries generalizing before indent with
  | nil =>
      have blanks : text ⟨indent, []⟩ = indent := List.append_nil indent
      rw [blanks, Lexeme.scan_blanks valid.indent, byteSize_append, byteSize_blanks valid.indent]
      cases Lexeme.scan separator (byteSize before + indent.length) [] right <;> rfl
  | cons entry entries ih =>
      obtain ⟨blank, spells, rest, unnumbered⟩ := valid_cons.mp valid
      rw [text_cons, ← List.append_assoc] at apart
      have unnumbered' : entry.token.isNumber = true →
          Unnumbered (text ⟨entry.gap, entries⟩ ++ right) := by
        intro number
        refine (unnumbered number).append fun empty => ?_
        rw [empty, List.append_nil] at apart
        exact spells.unnumbered apart.of_append number
      rw [text_cons, List.append_assoc, List.append_assoc,
        scan_spelled blank spells unnumbered', ih _ _ rest apart.of_append]
      simp only [List.append_assoc, lexemesAfter]
      cases Lexeme.scan separator _ [] right <;> rfl

end Layout

namespace Separator

/-- A run of digits and separators in force that is no number: it has no digit,
or more than one separator. -/
structure Spoiled (separator : Separator) (run : List Char) : Prop where
  filled : run ≠ []
  characters : ∀ character ∈ run, character.isDigit = true ∨ character = separator.char
  unfit : (∀ character ∈ run, character.isDigit = false) ∨ 2 ≤ run.count separator.char

variable {separator : Separator} {run : List Char}

theorem isNumeral_of_own {character : Char}
    (own : character.isDigit = true ∨ character = separator.char) :
    isNumeral character = true := by
  rcases own with digit | rfl
  · exact isNumeral_of_isDigit digit
  · exact separator.isNumeral_char

theorem Spoiled.isNumeral (spoiled : separator.Spoiled run) :
    ∀ character ∈ run, isNumeral character = true :=
  fun character member => isNumeral_of_own (spoiled.characters character member)

theorem numeral_or_spoiled
    (characters : ∀ character ∈ run, character.isDigit = true ∨ character = separator.char)
    (filled : run ≠ []) : separator.Numeral run ∨ separator.Spoiled run := by
  by_cases twice : 2 ≤ run.count separator.char
  · exact .inr ⟨filled, characters, .inr twice⟩
  · by_cases digit : ∃ character ∈ run, character.isDigit = true
    · exact .inl ⟨characters, digit, by omega⟩
    · refine .inr ⟨filled, characters, .inl fun character member => ?_⟩
      exact Bool.eq_false_iff.mpr fun isDigit => digit ⟨character, member, isDigit⟩

theorem Spoiled.number_eq (spoiled : separator.Spoiled run) (position : Nat) :
    separator.number position run = .error (.malformedNumber (String.ofList run) position) := by
  have absent := (findIdx?_other_eq_none spoiled.isNumeral).mpr spoiled.characters
  have refused : 1 < run.count separator.char ∨ run.all (!·.isDigit) = true := by
    rcases spoiled.unfit with digitless | twice
    · exact .inr (by simpa using digitless)
    · exact .inl twice
  simp only [number, absent, if_pos refused]

theorem number_foreign
    (characters : ∀ character ∈ run, character.isDigit = true ∨ character = separator.char)
    (position : Nat) (more : List Char) :
    separator.number position (run ++ separator.other.char :: more) =
      .error (.unexpectedCharacter separator.other.char (position + run.length)) := by
  have absent := (findIdx?_other_eq_none fun character member =>
    isNumeral_of_own (characters character member)).mpr characters
  have found : (run ++ separator.other.char :: more).findIdx? (· == separator.other.char) =
      some run.length := by
    rw [List.findIdx?_append, absent, List.findIdx?_cons]
    simp
  simp only [number, found]

end Separator

namespace Lexeme

variable {separator : Separator} {first : Char} {more after : List Char}

theorem lead_of_number_error {position : Nat} {rest : List Char} {error : LexError}
    (numeral : isNumeral first = true)
    (refused : separator.number position (first :: rest.takeWhile isNumeral) = .error error) :
    lead separator position first rest = .error error := by
  unfold lead
  simp only [numeral, refused, if_true, Except.map]

theorem lead_spoiled (spoiled : separator.Spoiled (first :: more)) (ends : Unnumbered after)
    (position : Nat) :
    lead separator position first (more ++ after) =
      .error (.malformedNumber (String.ofList (first :: more)) position) := by
  obtain ⟨numeral, numerals⟩ := List.forall_mem_cons.mp spoiled.isNumeral
  apply lead_of_number_error numeral
  rw [ends.takeWhile_append numerals]
  exact spoiled.number_eq position

theorem lead_foreign
    (characters : ∀ character ∈ first :: more,
      character.isDigit = true ∨ character = separator.char) (position : Nat) :
    lead separator position first (more ++ separator.other.char :: after) =
      .error (.unexpectedCharacter separator.other.char (position + (first :: more).length)) := by
  have numerals := fun character member =>
    Separator.isNumeral_of_own (characters character member)
  apply lead_of_number_error (numerals first List.mem_cons_self)
  rw [List.takeWhile_append_of_pos fun character member =>
      numerals character (List.mem_cons_of_mem _ member),
    List.takeWhile_cons_of_pos separator.other.isNumeral_char]
  exact Separator.number_foreign characters position _

/-- Where nothing can be read, the blame falls on the place itself, or on the other
separator behind digits and separators in force. -/
theorem exists_of_lead_error {position : Nat} {rest : List Char} {error : LexError}
    (refused : lead separator position first rest = .error error) :
    ∃ run others, first :: rest = run ++ others ∧
      (∀ character ∈ run, character.isDigit = true ∨ character = separator.char) ∧
      error.position = position + run.length ∧
      (run = [] ∨ error = .unexpectedCharacter separator.other.char error.position) := by
  rcases lead_eq_error refused with rfl | ⟨numeral, refused⟩
  · exact ⟨[], first :: rest, rfl, nofun, rfl, .inl rfl⟩
  · have numerals : ∀ character ∈ first :: rest.takeWhile isNumeral, isNumeral character = true :=
      List.forall_mem_cons.mpr ⟨numeral, fun _ member => List.mem_takeWhile_imp member⟩
    by_cases foreign : separator.other.char ∈ first :: rest.takeWhile isNumeral
    · obtain ⟨run, more, same, unlike⟩ := List.eq_append_cons_of_mem foreign
      have characters : ∀ character ∈ run,
          character.isDigit = true ∨ character = separator.char := by
        intro character member
        rcases Separator.isNumeral_iff.mp (numerals character (same ▸ by simp [member])) with
          digit | same | other
        · exact .inl digit
        · exact .inr same
        · exact absurd (other ▸ member) unlike
      rw [same, Separator.number_foreign characters] at refused
      cases refused
      refine ⟨run, separator.other.char :: more ++ rest.dropWhile isNumeral, ?_, characters, rfl,
        .inr rfl⟩
      rw [← List.append_assoc, ← same, List.cons_append, List.takeWhile_append_dropWhile]
    · rcases Separator.number_eq_error numerals refused with ⟨before, after, same, _⟩ | ⟨_, _, rfl⟩
      · rw [same] at foreign
        exact absurd (by simp) foreign
      · exact ⟨[], first :: rest, rfl, nofun, rfl, .inl rfl⟩

end Lexeme

section

variable {separator : Separator} {sound run after : String} {lexemes : List Lexeme}

theorem tokenize_apart {right : String} (scanned : tokenize separator sound = .ok lexemes)
    (apart : Apart sound.toList right.toList) :
    tokenize separator (sound ++ right) =
      (Lexeme.scan separator sound.utf8ByteSize [] right.toList).map (lexemes ++ ·) := by
  obtain ⟨layout, valid, same, rfl⟩ := Layout.exists_of_tokenize scanned
  rw [← same] at apart
  have whole := Layout.scan_append valid apart []
  simp only [List.nil_append, same, byteSize_toList] at whole
  rw [tokenize_eq_scan, String.toList_append]
  exact whole

/-- What is found at a place behind a sound text that does not run into it is
found there in the whole. -/
theorem tokenize_refused {first : Char} {rest : List Char} {right : String} {error : LexError}
    (scanned : tokenize separator sound = .ok lexemes) (apart : Apart sound.toList right.toList)
    (starts : right.toList = first :: rest) (solid : isBlank first = false)
    (refused : Lexeme.lead separator sound.utf8ByteSize first rest = .error error) :
    tokenize separator (sound ++ right) = .error error := by
  rw [tokenize_apart scanned apart, starts, Lexeme.scan_refused _ _ _ _ solid refused]
  rfl

/-- A spoiled run behind a sound text is blamed as a whole where it starts,
unless the other separator ends it: then that is blamed, where it stands. -/
theorem tokenize_spoiled (scanned : tokenize separator sound = .ok lexemes)
    (apart : Apart sound.toList run.toList) (spoiled : separator.Spoiled run.toList) :
    (Unnumbered after.toList → tokenize separator (sound ++ run ++ after) =
      .error (.malformedNumber run sound.utf8ByteSize)) ∧
    (after.toList.head? = some separator.other.char → tokenize separator (sound ++ run ++ after) =
      .error (.unexpectedCharacter separator.other.char (sound ++ run).utf8ByteSize)) := by
  obtain ⟨first, more, starts⟩ := List.exists_cons_of_ne_nil spoiled.filled
  have length := byteSize_eq_length fun character member =>
    utf8Size_of_isNumeral (spoiled.isNumeral character member)
  have solid := isBlank_of_isNumeral (spoiled.isNumeral first (starts ▸ List.mem_cons_self))
  have right : (run ++ after).toList = first :: (more ++ after.toList) := by
    rw [String.toList_append, starts, List.cons_append]
  have apart' : Apart sound.toList (run ++ after).toList := by
    rw [String.toList_append]
    exact fun last ends numeral =>
      (apart last ends numeral).append fun empty => absurd empty spoiled.filled
  rw [String.append_assoc]
  constructor
  · intro ends
    apply tokenize_refused scanned apart' right solid
    rw [starts] at spoiled
    rw [Lexeme.lead_spoiled spoiled ends, ← starts, String.ofList_toList]
  · intro ends
    obtain ⟨others, foreign⟩ := List.head?_eq_some_iff.mp ends
    apply tokenize_refused scanned apart' right solid
    have characters := spoiled.characters
    rw [starts] at characters
    rw [foreign, Lexeme.lead_foreign characters, ← starts, ← length, byteSize_toList,
      ← String.utf8ByteSize_append]

/-- A run without the other separator behind a sound text is one more number, or
it is blamed. -/
theorem tokenize_run (scanned : tokenize separator sound = .ok lexemes)
    (apart : Apart sound.toList run.toList)
    (characters : ∀ character ∈ run.toList,
      character.isDigit = true ∨ character = separator.char) :
    (∃ lexemes, tokenize separator (sound ++ run) = .ok lexemes) ∨
      separator.Spoiled run.toList ∧
        tokenize separator (sound ++ run) = .error (.malformedNumber run sound.utf8ByteSize) := by
  by_cases filled : run.toList = []
  · rw [String.toList_eq_nil_iff.mp filled, String.append_empty]
    exact .inl ⟨lexemes, scanned⟩
  · rcases Separator.numeral_or_spoiled characters filled with numeral | spoiled
    · rw [tokenize_apart scanned apart, Lexeme.scan_numeral numeral]
      exact .inl ⟨_, rfl⟩
    · have blamed : tokenize separator (sound ++ run ++ "") = _ :=
        (tokenize_spoiled scanned apart spoiled).1 nofun
      rw [String.append_empty] at blamed
      exact .inr ⟨spoiled, blamed⟩

/-- A source without lexemes is sound up to the place its error gives, or up to a
run of digits and separators in force that goes on to this place; then it is the
other separator that stands there. -/
theorem exists_of_tokenize_error {source : String} {error : LexError}
    (rejected : tokenize separator source = .error error) :
    ∃ sound run after : String, source = sound ++ run ++ after ∧
      (∃ lexemes, tokenize separator sound = .ok lexemes) ∧
      Apart sound.toList run.toList ∧
      (∀ character ∈ run.toList, character.isDigit = true ∨ character = separator.char) ∧
      error.position = (sound ++ run).utf8ByteSize ∧
      (run = "" ∨ error = .unexpectedCharacter separator.other.char error.position) := by
  obtain ⟨layout, first, rest, valid, split, apart, refused⟩ :=
    Layout.exists_of_scan_error [] source.toList rejected
  obtain ⟨run, others, whole, characters, place, blamed⟩ := Lexeme.exists_of_lead_error refused
  have length := byteSize_eq_length fun character member =>
    utf8Size_of_isNumeral (Separator.isNumeral_of_own (characters character member))
  rw [whole] at split apart
  refine ⟨String.ofList layout.text, String.ofList run, String.ofList others, ?_,
    ⟨_, Layout.tokenize_eq valid String.toList_ofList.symm⟩, ?_, ?_, ?_, ?_⟩
  · rw [← String.toList_inj]
    simp [split]
  · rw [String.toList_ofList, String.toList_ofList]
    exact fun last ends numeral => (apart last ends numeral).of_append
  · rwa [String.toList_ofList]
  · rw [String.utf8ByteSize_append, place, ← length]
    rfl
  · exact blamed.imp_left fun empty => by rw [empty, String.ofList_nil]

end

/-- Up to the place that an error gives, the source has lexemes, but for one case:
the other separator is blamed where it stands, though it stands behind a run that
is spoiled already and that would be blamed, from its start, if the source ended
before the separator.  So a spoiled run is blamed from its start whatever comes
after it, the other separator excepted. -/
theorem tokenize_before_error (separator : Separator) (source : String) :
    (∀ error, tokenize separator source = .error error →
      ∃ before after : String, source = before ++ after ∧
        before.utf8ByteSize = error.position ∧
        ((∃ lexemes, tokenize separator before = .ok lexemes) ∨
          error = .unexpectedCharacter separator.other.char before.utf8ByteSize ∧
            ∃ sound run : String, before = sound ++ run ∧
              (∃ lexemes, tokenize separator sound = .ok lexemes) ∧
              Apart sound.toList run.toList ∧ separator.Spoiled run.toList ∧
              tokenize separator before = .error (.malformedNumber run sound.utf8ByteSize))) ∧
    ∀ sound run after : String, source = sound ++ run ++ after →
      (∃ lexemes, tokenize separator sound = .ok lexemes) → Apart sound.toList run.toList →
      separator.Spoiled run.toList →
      (Unnumbered after.toList →
        tokenize separator source = .error (.malformedNumber run sound.utf8ByteSize)) ∧
      (after.toList.head? = some separator.other.char →
        tokenize separator source =
          .error (.unexpectedCharacter separator.other.char (sound ++ run).utf8ByteSize)) := by
  refine ⟨fun error rejected => ?_, fun sound run after split scanned apart spoiled => ?_⟩
  · obtain ⟨sound, run, after, split, ⟨lexemes, scanned⟩, apart, characters, place, blamed⟩ :=
      exists_of_tokenize_error rejected
    refine ⟨sound ++ run, after, split, place.symm, ?_⟩
    rcases tokenize_run scanned apart characters with found | ⟨spoiled, refused⟩
    · exact .inl found
    · rcases blamed with rfl | foreign
      · exact absurd String.toList_empty spoiled.filled
      · rw [← place]
        exact .inr ⟨foreign, sound, run, rfl, ⟨lexemes, scanned⟩, apart, spoiled, refused⟩
  · obtain ⟨lexemes, scanned⟩ := scanned
    rw [split]
    exact tokenize_spoiled scanned apart spoiled

/-- What else is wrong behind a number with two points does not matter. -/
theorem tokenize_two_points_before_dollar :
    tokenize .point "2*1.2.3$,4" = .error (.malformedNumber "1.2.3" 2) := by
  have spoiled : Separator.point.Spoiled "1.2.3".toList :=
    ⟨by decide, by simp [Separator.char], .inr (by decide)⟩
  have apart : Apart "2*".toList "1.2.3".toList := by
    intro last ends numeral
    cases ends
    cases numeral
  have scanned : tokenize .point "2*" = .ok [⟨.number 2, 0⟩, ⟨.operator .mul, 1⟩] := by
    decide +kernel
  refine ((tokenize_before_error .point _).2 "2*" "1.2.3" "$,4" rfl ⟨_, scanned⟩ apart spoiled).1 ?_
  intro first rest same
  cases same
  rfl

/-- A comma right behind it does: the comma is blamed, and the text before the
comma has no lexemes. -/
theorem tokenize_two_points_before_comma :
    tokenize .point "1.2.3,4" = .error (.unexpectedCharacter ',' "1.2.3".utf8ByteSize) ∧
      tokenize .point "1.2.3" = .error (.malformedNumber "1.2.3" 0) := by
  decide +kernel

end Reckoner
