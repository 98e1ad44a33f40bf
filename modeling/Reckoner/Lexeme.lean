import Reckoner.Record

namespace Reckoner

/-! From text to lexemes.  Blanks are skipped, and at every other place the
longest lexeme is taken.  Every character that a lexeme or a blank can hold is
one byte long, so a count of characters passed is a byte position. -/

def isBlank (character : Char) : Bool :=
  character == ' ' || character == '\n'

/-- Characters that run together into one number, well formed or not. -/
def isNumeral (character : Char) : Bool :=
  character.isDigit || character == '.' || character == ','

namespace Separator

/-- The decimal that a run of digits with at most one separator stands for. -/
def decimal (separator : Separator) (run : List Char) : Decimal :=
  Decimal.ofDigits (run.takeWhile (· ≠ separator.char)) ((run.dropWhile (· ≠ separator.char)).drop 1)

/-- The value of a run of numerals that starts at `position`.  The other
separator is refused where it stands; a second separator, or a run without a
digit, spoils the whole run. -/
def number (separator : Separator) (position : Nat) (run : List Char) : Except LexError Float :=
  match run.findIdx? (· == separator.other.char) with
  | some offset => .error (.unexpectedCharacter separator.other.char (position + offset))
  | none =>
      if 1 < run.count separator.char ∨ run.all (!·.isDigit) then
        .error (.malformedNumber (String.ofList run) position)
      else .ok (Double.toFloat (Double.ofDecimal (separator.decimal run)))

end Separator

namespace Lexeme

/-- The token that starts with `first`, and how many characters of `rest`
belong to it. -/
def lead (separator : Separator) (position : Nat) (first : Char) (rest : List Char) :
    Except LexError (Token × Nat) :=
  if isNumeral first then
    let further := rest.takeWhile isNumeral
    (separator.number position (first :: further)).map fun value =>
      (.number value, further.length)
  else match Token.ofChar? first with
    | some token => .ok (token, 0)
    | none =>
        if ['l', 'o', 'g'].isPrefixOf (first :: rest) then .ok (.log, 2)
        else .error (.unexpectedCharacter first position)

/-- Lexemes of a text that starts at `position`, after those `found` before it,
the last of them first. -/
def scan (separator : Separator) (position : Nat) (found : List Lexeme) (text : List Char) :
    Except LexError (List Lexeme) :=
  match text with
  | [] => .ok found.reverse
  | first :: rest =>
      if isBlank first then scan separator (position + 1) found rest
      else match lead separator position first rest with
        | .error error => .error error
        | .ok (token, further) =>
            scan separator (position + 1 + further) (⟨token, position⟩ :: found)
              (rest.drop further)
termination_by text.length
decreasing_by
  all_goals simp only [List.length_cons, List.length_drop]
  all_goals omega

theorem scan_nil (separator : Separator) (position : Nat) (found : List Lexeme) :
    scan separator position found [] = .ok found.reverse := by
  rw [scan]

theorem scan_blank (separator : Separator) (position : Nat) (found : List Lexeme)
    {first : Char} (rest : List Char) (blank : isBlank first = true) :
    scan separator position found (first :: rest) =
      scan separator (position + 1) found rest := by
  rw [scan]
  simp only [blank, if_true]

theorem scan_lead (separator : Separator) (position : Nat) (found : List Lexeme)
    {first : Char} (rest : List Char) (solid : isBlank first = false)
    {token : Token} {further : Nat}
    (led : lead separator position first rest = .ok (token, further)) :
    scan separator position found (first :: rest) =
      scan separator (position + 1 + further) (⟨token, position⟩ :: found)
        (rest.drop further) := by
  rw [scan]
  simp only [solid, led, Bool.false_eq_true, if_false]

theorem scan_refused (separator : Separator) (position : Nat) (found : List Lexeme)
    {first : Char} (rest : List Char) (solid : isBlank first = false) {error : LexError}
    (refused : lead separator position first rest = .error error) :
    scan separator position found (first :: rest) = .error error := by
  rw [scan]
  simp only [solid, refused, Bool.false_eq_true, if_false]

/-- What was found before stands before what is found from here on, and has no
other influence. -/
theorem scan_found (separator : Separator) (position : Nat) (found : List Lexeme)
    (text : List Char) :
    scan separator position found text =
      (scan separator position [] text).map (found.reverse ++ ·) := by
  induction size : text.length using Nat.strongRecOn generalizing position found text with
  | ind size ih =>
      subst size
      cases text with
      | nil => simp [scan_nil, Except.map]
      | cons first rest =>
          cases blank : isBlank first with
          | true =>
              rw [scan_blank _ _ _ _ blank, scan_blank _ _ _ _ blank]
              exact ih _ (by simp) _ _ _ rfl
          | false =>
              cases led : lead separator position first rest with
              | error error =>
                  rw [scan_refused _ _ _ _ blank led, scan_refused _ _ _ _ blank led]
                  rfl
              | ok pair =>
                  have shorter : (rest.drop pair.2).length < (first :: rest).length := by
                    simp only [List.length_drop, List.length_cons]
                    omega
                  rw [scan_lead _ _ _ _ blank led, scan_lead _ _ _ _ blank led,
                    ih _ shorter _ (⟨pair.1, position⟩ :: found) _ rfl,
                    ih _ shorter _ [⟨pair.1, position⟩] _ rfl]
                  cases scan separator (position + 1 + pair.2) [] (rest.drop pair.2) <;>
                    simp [Except.map]

end Lexeme

/-- Takes a source apart into lexemes, and records how many they are. -/
def tokenizing (separator : Separator) (source : String) :
    Logged (Except LexError (List Lexeme)) :=
  .noting (fun lexemes => .lexed source lexemes.length)
    (Lexeme.scan separator 0 [] source.toList)

/-- All lexemes of a source, or the first thing in it that is none. -/
def tokenize (separator : Separator) (source : String) : Except LexError (List Lexeme) :=
  (tokenizing separator source).result

theorem tokenize_eq_scan (separator : Separator) (source : String) :
    tokenize separator source = Lexeme.scan separator 0 [] source.toList :=
  rfl

theorem tokenizing_of_ok {separator : Separator} {source : String} {lexemes : List Lexeme}
    (scanned : tokenize separator source = .ok lexemes) :
    tokenizing separator source = ⟨[.lexed source lexemes.length], .ok lexemes⟩ :=
  Logged.noting_of_ok scanned

theorem tokenizing_of_error {separator : Separator} {source : String} {error : LexError}
    (rejected : tokenize separator source = .error error) :
    tokenizing separator source = ⟨[], .error error⟩ :=
  Logged.noting_of_error rejected

end Reckoner
