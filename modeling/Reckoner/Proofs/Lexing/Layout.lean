import Mathlib.Data.List.Chain
import Reckoner.Proofs.Lexing.Literal
import Reckoner.Proofs.Lexing.Seam

namespace Reckoner

/-! The layout of a source: its lexemes as they are written, and the blanks
before, between and after them.  Main statement: a source has lexemes exactly if
it has a layout, the lexemes are those of the layout, and there is only one.
-/

def Token.isNumber : Token → Bool
  | .number _ => true
  | .log | .operator _ | .opening | .closing => false

/-- How many bytes the characters take. -/
def byteSize (text : List Char) : Nat :=
  (String.ofList text).utf8ByteSize

/-- The ways to write a token. -/
inductive Spells (separator : Separator) : List Char → Token → Prop where
  | number {text value} (numeral : separator.Numeral text)
      (nearest : Double.IsNearest value.toBits.toNat (separator.value text)) :
      Spells separator text (.number value)
  | log : Spells separator ['l', 'o', 'g'] .log
  | operator (sign : BinaryOp) : Spells separator [sign.symbol] (.operator sign)
  | opening : Spells separator ['('] .opening
  | closing : Spells separator [')'] .closing

/-- A token as it is written, and the blanks after it. -/
structure Entry where
  text : List Char
  token : Token
  gap : List Char

/-- The blanks before the first token, and the tokens. -/
structure Layout where
  indent : List Char
  entries : List Entry

namespace Layout

def text (layout : Layout) : List Char :=
  layout.indent ++ layout.entries.flatMap fun entry => entry.text ++ entry.gap

/-- The tokens of the entries, each at the number of bytes before it, if the
text `before` stands before them all. -/
def lexemesAfter (before : List Char) : List Entry → List Lexeme
  | [] => []
  | entry :: entries =>
      ⟨entry.token, byteSize before⟩ :: lexemesAfter (before ++ entry.text ++ entry.gap) entries

def lexemes (layout : Layout) : List Lexeme :=
  lexemesAfter layout.indent layout.entries

structure Valid (separator : Separator) (layout : Layout) : Prop where
  indent : ∀ character ∈ layout.indent, isBlank character = true
  spelled : ∀ entry ∈ layout.entries, Spells separator entry.text entry.token
  gaps : ∀ entry ∈ layout.entries, ∀ character ∈ entry.gap, isBlank character = true
  apart : layout.entries.IsChain fun entry next =>
    entry.token.isNumber = true → next.token.isNumber = true → entry.gap ≠ []

end Layout

/-- No number goes on into the text from before it. -/
def Unnumbered (text : List Char) : Prop :=
  ∀ first rest, text = first :: rest → isNumeral first = false

theorem Unnumbered.takeWhile_append {numerals others : List Char}
    (all : ∀ character ∈ numerals, isNumeral character = true) (ends : Unnumbered others) :
    (numerals ++ others).takeWhile isNumeral = numerals := by
  rw [List.takeWhile_append_of_pos all]
  cases others with
  | nil => exact List.append_nil _
  | cons first rest =>
      rw [List.takeWhile_cons_of_neg (by simp [ends first rest rfl]), List.append_nil]

theorem unnumbered_dropWhile (text : List Char) : Unnumbered (text.dropWhile isNumeral) := by
  intro first rest starts
  have stays := List.head?_dropWhile_not isNumeral text
  rwa [starts] at stays

namespace Spells

variable {separator : Separator} {text : List Char} {token : Token}

theorem sign {character : Char} (signs : Token.ofChar? character = some token) :
    Spells separator [character] token := by
  rcases Lexeme.eq_sign signs with rfl | rfl | ⟨operator, rfl⟩
  · cases signs
    exact .opening
  · cases signs
    exact .closing
  · rw [Token.ofChar?_symbol] at signs
    cases signs
    exact .operator operator

/-- A written number spells the double that it is read as. -/
theorem numeral (numeral : separator.Numeral text) :
    Spells separator text
      (.number (Double.toFloat (Double.ofDecimal (separator.decimal text)))) :=
  .number numeral (Separator.isNearest_iff.mpr rfl)

/-- A token starts with a character of its own kind. -/
theorem starts (spells : Spells separator text token) :
    ∃ first more, text = first :: more ∧ isBlank first = false ∧
      isNumeral first = token.isNumber := by
  cases spells with
  | number numeral nearest =>
      obtain ⟨digit, member, _⟩ := numeral.digit
      obtain ⟨first, more, rfl⟩ := List.exists_cons_of_ne_nil (List.ne_nil_of_mem member)
      have starts := numeral.isNumeral first List.mem_cons_self
      exact ⟨first, more, rfl, isBlank_of_isNumeral starts, starts⟩
  | log => exact ⟨_, _, rfl, rfl, rfl⟩
  | operator sign => exact ⟨_, _, rfl, by cases sign <;> rfl, by cases sign <;> rfl⟩
  | opening => exact ⟨_, _, rfl, rfl, rfl⟩
  | closing => exact ⟨_, _, rfl, rfl, rfl⟩

end Spells

namespace Lexeme

variable {separator : Separator} {position further : Nat} {first : Char} {rest : List Char}
  {token : Token}

theorem lead_number {value : Float} {more others : List Char}
    (numeral : separator.Numeral (first :: more))
    (nearest : Double.IsNearest value.toBits.toNat (separator.value (first :: more)))
    (ends : Unnumbered others) :
    lead separator position first (more ++ others) = .ok (.number value, more.length) := by
  have numerals := numeral.isNumeral
  have whole := ends.takeWhile_append fun character member =>
    numerals character (List.mem_cons_of_mem _ member)
  have read : separator.number position (first :: more) = .ok value :=
    (Separator.number_eq_ok_iff numerals).mpr ⟨numeral, Separator.isNearest_iff.mp nearest⟩
  unfold lead
  simp only [numerals first List.mem_cons_self, whole, read, if_true, Except.map]

/-- A written number is one lexeme. -/
theorem scan_numeral {text : List Char} (numeral : separator.Numeral text) (position : Nat) :
    scan separator position [] text =
      .ok [⟨.number (Double.toFloat (Double.ofDecimal (separator.decimal text))), position⟩] := by
  obtain ⟨digit, member, _⟩ := numeral.digit
  obtain ⟨first, rest, rfl⟩ := List.exists_cons_of_ne_nil (List.ne_nil_of_mem member)
  have solid := isBlank_of_isNumeral (numeral.isNumeral first List.mem_cons_self)
  have led : lead separator position first (rest ++ []) = .ok _ :=
    lead_number numeral (Separator.isNearest_iff.mpr rfl) (unnumbered_dropWhile [])
  rw [List.append_nil] at led
  rw [scan_lead _ _ _ _ solid led, List.drop_length, scan_nil]
  rfl

theorem scan_decimal (separator : Separator) (position : Nat) (decimal : Decimal) :
    scan separator position [] (decimal.text separator.char) =
      .ok [⟨.number (Double.toFloat (Double.ofDecimal decimal)), position⟩] := by
  rw [scan_numeral (separator.numeral_text decimal), separator.decimal_text]

/-- The lexeme at a place is the one that is written there, a number as far as
it goes. -/
theorem lead_eq_ok_iff (position : Nat) :
    lead separator position first rest = .ok (token, further) ↔
      ∃ more others, rest = more ++ others ∧ further = more.length ∧
        Spells separator (first :: more) token ∧
        (token.isNumber = true → Unnumbered others) := by
  constructor
  · intro led
    unfold lead at led
    split at led
    next numeral =>
      have numerals : ∀ character ∈ first :: rest.takeWhile isNumeral,
          isNumeral character = true := by
        intro character member
        rcases List.mem_cons.mp member with rfl | later
        · exact numeral
        · exact List.mem_takeWhile_imp later
      cases read : separator.number position (first :: rest.takeWhile isNumeral) with
      | error error => simp [read, Except.map] at led
      | ok value =>
          simp only [read, Except.map, Except.ok.injEq, Prod.mk.injEq] at led
          obtain ⟨rfl, rfl⟩ := led
          obtain ⟨written, same⟩ := (Separator.number_eq_ok_iff numerals).mp read
          exact ⟨_, _, List.takeWhile_append_dropWhile.symm, rfl,
            .number written (Separator.isNearest_iff.mpr same), fun _ => unnumbered_dropWhile rest⟩
    next plain =>
      split at led
      next sign signs =>
        cases led
        have spells : Spells separator [first] token := .sign signs
        obtain ⟨_, _, same, _, kind⟩ := spells.starts
        cases same
        exact ⟨[], rest, rfl, rfl, spells, fun number => absurd (kind.trans number) plain⟩
      next =>
        split at led
        next log =>
          cases led
          obtain ⟨others, starts⟩ := List.isPrefixOf_iff_prefix.mp log
          cases starts
          exact ⟨['o', 'g'], others, rfl, rfl, .log, nofun⟩
        next => cases led
  · intro written
    obtain ⟨more, others, rfl, rfl, spells, ends⟩ := written
    generalize same : first :: more = text at spells
    cases spells with
    | number numeral nearest =>
        subst same
        exact lead_number numeral nearest (ends rfl)
    | log => cases same; rfl
    | operator sign => cases same; exact lead_sign _ _ (Token.ofChar?_symbol sign) _
    | opening => cases same; exact lead_sign _ _ rfl _
    | closing => cases same; exact lead_sign _ _ rfl _

theorem scan_blanks {blanks : List Char} (blank : ∀ character ∈ blanks, isBlank character = true)
    (found : List Lexeme) (rest : List Char) :
    scan separator position found (blanks ++ rest) =
      scan separator (position + blanks.length) found rest := by
  induction blanks generalizing position with
  | nil => rfl
  | cons first blanks ih =>
      rw [List.cons_append, scan_blank _ _ _ _ (blank first List.mem_cons_self),
        ih fun character member => blank character (List.mem_cons_of_mem _ member),
        List.length_cons, Nat.add_right_comm, Nat.add_assoc]

end Lexeme

theorem byteSize_append (left right : List Char) :
    byteSize (left ++ right) = byteSize left + byteSize right := by
  rw [byteSize, String.ofList_append, String.utf8ByteSize_append]
  rfl

theorem byteSize_toList (source : String) : byteSize source.toList = source.utf8ByteSize := by
  rw [byteSize, String.ofList_toList]

/-- Of characters that are one byte long there are as many as bytes. -/
theorem byteSize_eq_length {text : List Char}
    (single : ∀ character ∈ text, character.utf8Size = 1) : byteSize text = text.length := by
  induction text with
  | nil => rfl
  | cons first rest ih =>
      have one := single first List.mem_cons_self
      rw [byteSize, String.ofList_cons, String.utf8ByteSize_append, String.utf8ByteSize_singleton,
        one, List.length_cons, Nat.add_comm]
      exact congrArg (· + 1)
        (ih fun character member => single character (List.mem_cons_of_mem _ member))

namespace Layout

variable {separator : Separator} {indent gap : List Char} {entry : Entry} {entries : List Entry}

theorem text_cons :
    text ⟨indent, entry :: entries⟩ = indent ++ (entry.text ++ text ⟨entry.gap, entries⟩) := by
  simp only [text, List.flatMap_cons, List.append_assoc]

theorem unnumbered_blanks {blanks rest : List Char}
    (blank : ∀ character ∈ blanks, isBlank character = true) (filled : blanks ≠ []) :
    Unnumbered (blanks ++ rest) := by
  obtain ⟨first, more, rfl⟩ := List.exists_cons_of_ne_nil filled
  intro character others same
  cases same
  refine Bool.eq_false_iff.mpr fun numeral => ?_
  have solid := isBlank_of_isNumeral numeral
  rw [blank _ List.mem_cons_self] at solid
  cases solid

/-- Without a gap before it, an entry shows its own kind. -/
theorem starts_text (entries : List Entry) (spells : Spells separator entry.text entry.token) :
    ∃ first rest, text ⟨[], entry :: entries⟩ = first :: rest ∧ isBlank first = false ∧
      isNumeral first = entry.token.isNumber := by
  obtain ⟨first, more, starts, solid, kind⟩ := spells.starts
  refine ⟨first, more ++ text ⟨entry.gap, entries⟩, ?_, solid, kind⟩
  rw [text_cons, starts]
  rfl

theorem unnumbered_iff_apart {gap : List Char}
    (blank : ∀ character ∈ gap, isBlank character = true)
    (spells : Spells separator entry.text entry.token) :
    Unnumbered (text ⟨gap, entry :: entries⟩) ↔ (entry.token.isNumber = true → gap ≠ []) := by
  rcases Decidable.em (gap = []) with rfl | filled
  · obtain ⟨first, rest, starts, _, kind⟩ := starts_text entries spells
    rw [starts]
    constructor
    · intro unnumbered number _
      rw [unnumbered first rest rfl] at kind
      exact Bool.false_ne_true (kind.trans number)
    · intro unnumbered character others same
      cases same
      exact kind.trans (Bool.eq_false_iff.mpr fun number => unnumbered number rfl)
  · rw [text_cons]
    exact iff_of_true (unnumbered_blanks blank filled) fun _ => filled

theorem valid_blanks (blank : ∀ character ∈ indent, isBlank character = true) :
    Valid separator ⟨indent, []⟩ :=
  ⟨blank, nofun, nofun, .nil⟩

theorem valid_nil : Valid separator ⟨[], []⟩ :=
  valid_blanks (List.forall_mem_nil _)

/-- A layout is valid if its first entry is, the rest is, and no number runs
into the rest. -/
theorem valid_cons :
    Valid separator ⟨indent, entry :: entries⟩ ↔
      (∀ character ∈ indent, isBlank character = true) ∧
        Spells separator entry.text entry.token ∧ Valid separator ⟨entry.gap, entries⟩ ∧
        (entry.token.isNumber = true → Unnumbered (text ⟨entry.gap, entries⟩)) := by
  constructor
  · intro valid
    have gap := valid.gaps entry List.mem_cons_self
    refine ⟨valid.indent, valid.spelled entry List.mem_cons_self, ⟨gap, ?_, ?_, ?_⟩, ?_⟩
    · exact fun next member => valid.spelled next (List.mem_cons_of_mem _ member)
    · exact fun next member => valid.gaps next (List.mem_cons_of_mem _ member)
    · exact valid.apart.tail
    · intro number
      cases entries with
      | nil =>
          intro first rest same
          have within : entry.gap = first :: rest := by simpa [text] using same
          have blank := gap first (within ▸ List.mem_cons_self)
          refine Bool.eq_false_iff.mpr fun numeral => ?_
          rw [isBlank_of_isNumeral numeral] at blank
          cases blank
      | cons next more =>
          have spells := valid.spelled next (by simp)
          exact (unnumbered_iff_apart gap spells).mpr
            ((List.isChain_cons_cons.mp valid.apart).1 number)
  · intro parts
    obtain ⟨blank, spells, valid, unnumbered⟩ := parts
    refine ⟨blank, ?_, ?_, ?_⟩
    · exact List.forall_mem_cons.mpr ⟨spells, valid.spelled⟩
    · exact List.forall_mem_cons.mpr ⟨valid.indent, valid.gaps⟩
    · cases entries with
      | nil => exact .singleton _
      | cons next more =>
          refine .cons_cons (fun number => ?_) valid.apart
          exact (unnumbered_iff_apart valid.indent (valid.spelled next List.mem_cons_self)).mp
            (unnumbered number)

end Layout

theorem utf8Size_of_isDigit {character : Char} (digit : character.isDigit = true) :
    character.utf8Size = 1 := by
  simp only [Char.isDigit, Bool.and_eq_true, decide_eq_true_eq] at digit
  unfold Char.utf8Size
  exact if_pos (UInt32.le_trans digit.2 (by decide))

theorem utf8Size_of_isBlank {character : Char} (blank : isBlank character = true) :
    character.utf8Size = 1 := by
  rcases Bool.or_eq_true_iff.mp blank with same | same
  · rw [eq_of_beq same]
    rfl
  · rw [eq_of_beq same]
    rfl

theorem Spells.utf8Size {separator : Separator} {text : List Char} {token : Token}
    (spells : Spells separator text token) :
    ∀ character ∈ text, character.utf8Size = 1 := by
  intro character member
  cases spells with
  | number numeral nearest =>
      rcases numeral.characters character member with digit | rfl
      · exact utf8Size_of_isDigit digit
      · cases separator <;> rfl
  | log =>
      have spelled : ∀ letter ∈ ['l', 'o', 'g'], letter.utf8Size = 1 := by simp; decide
      exact spelled character member
  | operator sign => rw [List.mem_singleton.mp member]; cases sign <;> rfl
  | opening => rw [List.mem_singleton.mp member]; rfl
  | closing => rw [List.mem_singleton.mp member]; rfl

namespace Layout

variable {separator : Separator} {indent : List Char}

theorem byteSize_blanks {blanks : List Char}
    (blank : ∀ character ∈ blanks, isBlank character = true) : byteSize blanks = blanks.length :=
  byteSize_eq_length fun character member => utf8Size_of_isBlank (blank character member)

/-- The scan of a written token finds the token, and goes on behind it. -/
theorem scan_token {before written others : List Char} {token : Token}
    (spells : Spells separator written token)
    (unnumbered : token.isNumber = true → Unnumbered others) :
    Lexeme.scan separator (byteSize before) [] (written ++ others) =
      (Lexeme.scan separator (byteSize (before ++ written)) [] others).map
        (⟨token, byteSize before⟩ :: ·) := by
  obtain ⟨first, more, rfl, solid, _⟩ := spells.starts
  have led := (Lexeme.lead_eq_ok_iff (byteSize before)).mpr
    ⟨more, others, rfl, rfl, spells, unnumbered⟩
  have place : byteSize before + 1 + more.length = byteSize (before ++ first :: more) := by
    rw [byteSize_append, byteSize_eq_length spells.utf8Size, List.length_cons]
    omega
  rw [List.cons_append, Lexeme.scan_lead _ _ _ _ solid led, List.drop_left, place,
    Lexeme.scan_found]
  rfl

theorem scan_spelled {before written others : List Char} {token : Token}
    (blank : ∀ character ∈ indent, isBlank character = true)
    (spells : Spells separator written token)
    (unnumbered : token.isNumber = true → Unnumbered others) :
    Lexeme.scan separator (byteSize before) [] (indent ++ (written ++ others)) =
      (Lexeme.scan separator (byteSize (before ++ indent ++ written)) [] others).map
        (⟨token, byteSize (before ++ indent)⟩ :: ·) := by
  have here : byteSize before + indent.length = byteSize (before ++ indent) := by
    rw [byteSize_append, byteSize_blanks blank]
  rw [Lexeme.scan_blanks blank, here, scan_token spells unnumbered]

/-- The scan of a laid out text finds its lexemes. -/
theorem scan_text {layout : Layout} (valid : layout.Valid separator) (before : List Char) :
    Lexeme.scan separator (byteSize before) [] layout.text =
      .ok (lexemesAfter (before ++ layout.indent) layout.entries) := by
  obtain ⟨indent, entries⟩ := layout
  induction entries generalizing before indent with
  | nil =>
      have scanned : Lexeme.scan separator (byteSize before) [] (indent ++ []) = _ :=
        Lexeme.scan_blanks valid.indent [] []
      rw [Lexeme.scan_nil] at scanned
      simpa [text, lexemesAfter] using scanned
  | cons entry entries ih =>
      obtain ⟨blank, spells, rest, unnumbered⟩ := valid_cons.mp valid
      rw [text_cons, scan_spelled blank spells unnumbered, ih _ _ rest]
      rfl

/-- A scan that starts at a token and finds lexemes finds the token, and goes on
behind it. -/
theorem scan_solid {before rest : List Char} {first : Char} {lexemes : List Lexeme}
    (solid : isBlank first = false)
    (scanned : Lexeme.scan separator (byteSize before) [] (first :: rest) = .ok lexemes) :
    ∃ more others token found, rest = more ++ others ∧ Spells separator (first :: more) token ∧
      (token.isNumber = true → Unnumbered others) ∧
      Lexeme.scan separator (byteSize (before ++ first :: more)) [] others = .ok found ∧
      lexemes = ⟨token, byteSize before⟩ :: found := by
  cases led : Lexeme.lead separator (byteSize before) first rest with
  | error error =>
      rw [Lexeme.scan_refused _ _ _ _ solid led] at scanned
      cases scanned
  | ok pair =>
      obtain ⟨token, further⟩ := pair
      obtain ⟨more, others, rfl, rfl, spells, unnumbered⟩ := (Lexeme.lead_eq_ok_iff _).mp led
      rw [← List.cons_append, scan_token spells unnumbered] at scanned
      cases onward : Lexeme.scan separator (byteSize (before ++ first :: more)) [] others with
      | error error => rw [onward] at scanned; cases scanned
      | ok found =>
          rw [onward] at scanned
          cases scanned
          exact ⟨more, others, token, found, rfl, spells, unnumbered, onward, rfl⟩

/-- A text that scans is laid out. -/
theorem exists_of_scan (before text : List Char) {lexemes : List Lexeme}
    (scanned : Lexeme.scan separator (byteSize before) [] text = .ok lexemes) :
    ∃ layout : Layout, layout.Valid separator ∧ layout.text = text ∧
      lexemesAfter (before ++ layout.indent) layout.entries = lexemes := by
  induction size : text.length using Nat.strongRecOn generalizing before text lexemes with
  | ind size shorter =>
      subst size
      cases text with
      | nil =>
          rw [Lexeme.scan_nil] at scanned
          cases scanned
          exact ⟨⟨[], []⟩, valid_nil, rfl, rfl⟩
      | cons first rest =>
          cases blank : isBlank first with
          | true =>
              have one : byteSize [first] = 1 :=
                byteSize_blanks (List.forall_mem_singleton.mpr blank)
              rw [Lexeme.scan_blank _ _ _ _ blank, ← one, ← byteSize_append] at scanned
              obtain ⟨layout, valid, rfl, rfl⟩ :=
                shorter _ (Nat.lt_succ_self _) _ _ scanned rfl
              refine ⟨⟨first :: layout.indent, layout.entries⟩,
                ⟨?_, valid.spelled, valid.gaps, valid.apart⟩, rfl, ?_⟩
              · exact List.forall_mem_cons.mpr ⟨blank, valid.indent⟩
              · rw [List.append_cons]
          | false =>
              obtain ⟨more, others, token, found, rfl, spells, unnumbered, onward, rfl⟩ :=
                scan_solid blank scanned
              have fewer : others.length < (first :: (more ++ others)).length := by
                simp only [List.length_cons, List.length_append]
                omega
              obtain ⟨layout, valid, rfl, rfl⟩ := shorter _ fewer _ _ onward rfl
              refine ⟨⟨[], ⟨first :: more, token, layout.indent⟩ :: layout.entries⟩,
                valid_cons.mpr ⟨nofun, spells, valid, unnumbered⟩, ?_, ?_⟩
              · rw [text_cons]
                rfl
              · simp only [lexemesAfter, List.append_nil]

theorem takeWhile_text {layout : Layout} (valid : layout.Valid separator) :
    layout.text.takeWhile isBlank = layout.indent := by
  obtain ⟨indent, entries⟩ := layout
  cases entries with
  | nil =>
      rw [text, List.flatMap_nil, List.append_nil]
      exact List.takeWhile_eq_self_iff.mpr valid.indent
  | cons entry entries =>
      obtain ⟨first, rest, starts, solid, _⟩ :=
        starts_text entries (valid.spelled entry List.mem_cons_self)
      have split : text ⟨indent, entry :: entries⟩ = indent ++ first :: rest := by
        rw [← starts, text, text, List.nil_append]
      rw [split, List.takeWhile_append_of_pos valid.indent,
        List.takeWhile_cons_of_neg (by simp [solid]), List.append_nil]

/-- The first entries of two layouts of one text are the same, for a scan would
find both. -/
theorem eq_of_text_cons {first second : Entry} {firsts seconds : List Entry}
    (valid : Valid separator ⟨indent, first :: firsts⟩)
    (valid' : Valid separator ⟨indent, second :: seconds⟩)
    (same : text ⟨indent, first :: firsts⟩ = text ⟨indent, second :: seconds⟩) :
    first.text = second.text ∧ first.token = second.token ∧
      text ⟨first.gap, firsts⟩ = text ⟨second.gap, seconds⟩ := by
  obtain ⟨_, spells, _, unnumbered⟩ := valid_cons.mp valid
  obtain ⟨_, spells', _, unnumbered'⟩ := valid_cons.mp valid'
  obtain ⟨start, more, starts, _⟩ := spells.starts
  obtain ⟨start', more', starts', _⟩ := spells'.starts
  rw [text_cons, text_cons, List.append_cancel_left_eq] at same
  have texts := same
  rw [starts] at same spells
  rw [starts'] at same spells'
  obtain ⟨rfl, rests⟩ := List.cons.inj same
  have led := (Lexeme.lead_eq_ok_iff 0).mpr ⟨more, _, rfl, rfl, spells, unnumbered⟩
  have led' := (Lexeme.lead_eq_ok_iff 0).mpr
    ⟨more', _, rests, rfl, spells', unnumbered'⟩
  obtain ⟨tokens, lengths⟩ := Prod.mk.inj (Except.ok.inj (led.symm.trans led'))
  have sizes : first.text.length = second.text.length := by
    rw [starts, starts', List.length_cons, List.length_cons, lengths]
  obtain ⟨firsts, rests⟩ := List.append_inj texts sizes
  exact ⟨firsts, tokens, rests⟩

theorem text_cons_ne {entry : Entry} {entries : List Entry}
    (spells : Spells separator entry.text entry.token) :
    text ⟨indent, entry :: entries⟩ ≠ text ⟨indent, []⟩ := by
  intro same
  obtain ⟨first, more, starts, _⟩ := spells.starts
  rw [text_cons, show text ⟨indent, []⟩ = indent ++ [] from rfl, List.append_cancel_left_eq,
    starts] at same
  cases same

/-- A text is laid out in one way. -/
theorem eq_of_text {left right : Layout} (valid : left.Valid separator)
    (valid' : right.Valid separator) (same : left.text = right.text) : left = right := by
  obtain ⟨indent, entries⟩ := left
  induction entries generalizing right indent with
  | nil =>
      obtain ⟨indent', entries'⟩ := right
      obtain rfl : indent = indent' :=
        (takeWhile_text valid).symm.trans ((congrArg _ same).trans (takeWhile_text valid'))
      cases entries' with
      | nil => rfl
      | cons entry more =>
          exact absurd same.symm (text_cons_ne (valid'.spelled _ List.mem_cons_self))
  | cons entry entries ih =>
      obtain ⟨indent', entries'⟩ := right
      obtain rfl : indent = indent' :=
        (takeWhile_text valid).symm.trans ((congrArg _ same).trans (takeWhile_text valid'))
      cases entries' with
      | nil => exact absurd same (text_cons_ne (valid.spelled _ List.mem_cons_self))
      | cons other others =>
          obtain ⟨texts, tokens, rests⟩ := eq_of_text_cons valid valid' same
          have after := ih (valid_cons.mp valid').2.2.1 _ (valid_cons.mp valid).2.2.1 rests
          obtain ⟨text, token, gap⟩ := entry
          obtain ⟨text', token', gap'⟩ := other
          cases after
          cases texts
          cases tokens
          rfl

end Layout

namespace Layout

variable {separator : Separator} {source : String}

theorem tokenize_eq {layout : Layout} (valid : layout.Valid separator)
    (same : layout.text = source.toList) : tokenize separator source = .ok layout.lexemes := by
  rw [tokenize_eq_scan, ← same]
  exact scan_text valid []

theorem exists_of_tokenize {lexemes : List Lexeme}
    (scanned : tokenize separator source = .ok lexemes) :
    ∃ layout : Layout, layout.Valid separator ∧ layout.text = source.toList ∧
      layout.lexemes = lexemes :=
  exists_of_scan [] source.toList scanned

end Layout

/-- A source has lexemes exactly if it is laid out as written tokens with blanks
around them; the lexemes are the tokens at their byte positions, and each number
is the double nearest to the decimal it denotes.  No source is laid out in two
ways, and a written number can always be converted. -/
theorem tokenize_eq_ok_iff (separator : Separator) (source : String) :
    (∀ lexemes, tokenize separator source = .ok lexemes ↔
      ∃ layout : Layout, layout.Valid separator ∧ layout.text = source.toList ∧
        layout.lexemes = lexemes) ∧
    (∀ left right : Layout, left.Valid separator → left.text = source.toList →
      right.Valid separator → right.text = source.toList → left = right) ∧
    ∀ run, separator.Numeral run → Convertible (run.map separator.pointed) ∧
      ∀ position, ∃ value, separator.number position run = .ok value := by
  refine ⟨fun lexemes => ⟨Layout.exists_of_tokenize, fun laid => ?_⟩, ?_, fun run numeral => ?_⟩
  · obtain ⟨layout, valid, same, rfl⟩ := laid
    exact Layout.tokenize_eq valid same
  · intro left right valid same valid' same'
    exact Layout.eq_of_text valid valid' (same.trans same'.symm)
  · refine ⟨numeral.convertible, fun position => ?_⟩
    exact ⟨_, (Separator.number_eq_ok_iff numeral.isNumeral).mpr ⟨numeral, rfl⟩⟩

/-- Between `log` and its argument there need be no gap. -/
theorem tokenize_log_of_tenths :
    tokenize .comma " log2,5\n" =
      .ok [⟨.log, 1⟩, ⟨.number (Double.toFloat (Double.ofDecimal ⟨25, 1⟩)), 4⟩] := by
  have numeral : Separator.comma.Numeral ['2', ',', '5'] :=
    ⟨by simp [Separator.char], ⟨'2', by simp, rfl⟩, by decide⟩
  have valid : Layout.Valid .comma ⟨[' '], [⟨['l', 'o', 'g'], .log, []⟩,
      ⟨['2', ',', '5'], .number (Double.toFloat (Double.ofDecimal ⟨25, 1⟩)), ['\n']⟩]⟩ := by
    refine Layout.valid_cons.mpr ⟨List.forall_mem_singleton.mpr rfl, .log, ?_,
      fun number => absurd number Bool.false_ne_true⟩
    refine Layout.valid_cons.mpr ⟨List.forall_mem_nil _, .numeral numeral, ?_, ?_⟩
    · exact Layout.valid_blanks (List.forall_mem_singleton.mpr rfl)
    · intro _ first rest same
      cases same
      rfl
  exact ((tokenize_eq_ok_iff .comma _).1 _).mpr ⟨_, valid, rfl, rfl⟩

end Reckoner
