import Reckoner.Proofs.Reading.Place

namespace Reckoner

namespace Frame

def opening? : Frame → Option Nat
  | .group position => some position
  | .negation | .logarithm | .exponent => none

end Frame

namespace Place

def run (nesting : Nesting) (base : Nat) (place : Place) (lexemes : List Lexeme) :
    Except ParseError Unit :=
  place.walk nesting base lexemes >>= finish

/-- The positions of the groups that are open, the innermost first. -/
def groups (around : List Frame) : List Nat :=
  around.filterMap Frame.opening?

/-- The open parentheses after one more lexeme. -/
def track (unclosed : List Nat) (lexeme : Lexeme) : List Nat :=
  match lexeme.token with
  | .opening => lexeme.position :: unclosed
  | .closing => unclosed.tail
  | .number _ | .log | .operator _ => unclosed

section

variable {nesting : Nesting} {base : Nat} {place middle : Place} {lexemes : List Lexeme}

theorem run_append {consumed : List Lexeme} (rest : List Lexeme)
    (walked : place.walk nesting base consumed = .ok middle) :
    place.run nesting base (consumed ++ rest) = middle.run nesting base rest := by
  unfold run
  rw [walk_append rest walked]

theorem run_of_refuses {consumed : List Lexeme} {error : ParseError}
    (walked : place.walk nesting base consumed = .ok middle)
    (refuses : middle.Refuses nesting base error lexemes) :
    place.run nesting base (consumed ++ lexemes) = .error error := by
  rw [run_append lexemes walked]
  cases lexemes with
  | nil => exact refuses
  | cons lexeme rest =>
      unfold run walk
      rw [List.foldlM_cons, show middle.next nesting base lexeme = .error error from refuses]
      rfl

theorem refuses_of_run {error : ParseError}
    (rejected : place.run nesting base lexemes = .error error) :
    ∃ before stop after, lexemes = before ++ after ∧
      place.walk nesting base before = .ok stop ∧ stop.Refuses nesting base error after := by
  induction lexemes generalizing place with
  | nil => exact ⟨[], place, [], rfl, rfl, rejected⟩
  | cons lexeme rest ih =>
      cases step : place.next nesting base lexeme with
      | error other =>
          have refuses : place.Refuses nesting base other (lexeme :: rest) := step
          have same := run_of_refuses (rfl : place.walk nesting base [] = .ok place) refuses
          cases rejected.symm.trans same
          exact ⟨[], place, _, rfl, rfl, refuses⟩
      | ok middle =>
          have walked : place.walk nesting base [lexeme] = .ok middle := walk_cons [] step
          obtain ⟨before, stop, after, rfl, onward, refuses⟩ :=
            ih ((run_append rest walked).symm.trans rejected)
          exact ⟨lexeme :: before, stop, after, rfl, (walk_cons before step).trans onward, refuses⟩

theorem finish_of_flush {around : List Frame} (flushed : flush around = []) :
    finish ⟨around, .operator⟩ = .ok () := by
  simp only [finish, flushed]

theorem flush_eq_nil_or_group (around : List Frame) :
    flush around = [] ∨ ∃ position outer, flush around = .group position :: outer := by
  cases flushed : flush around with
  | nil => exact .inl rfl
  | cons frame outer =>
      have stays := List.head?_dropWhile_not (!·.isGroup) around
      rw [show around.dropWhile (!·.isGroup) = frame :: outer from flushed] at stays
      cases frame with
      | group position => exact .inr ⟨position, outer, rfl⟩
      | negation | logarithm | exponent => simp [Frame.isGroup] at stays

theorem groups_flush (around : List Frame) : groups (flush around) = groups around := by
  induction around with
  | nil => rfl
  | cons frame around ih => cases frame <;> first | rfl | exact ih

theorem groups_settle (around : List Frame) : groups (settle around) = groups around := by
  rcases around with _ | ⟨_ | _ | _ | _, around⟩ <;> rfl

/-- From every place some lexemes lead to an end: a number if an operand is due,
and a closing parenthesis for each open group. -/
theorem completable (nesting : Nesting) (base : Nat) (place : Place) :
    ∃ more, place.run nesting base more = .ok () := by
  have closes : ∀ around, ∃ more, run nesting base ⟨around, .operator⟩ more = .ok () := by
    intro around
    -- A closing parenthesis may close more than its group, so the induction is on
    -- how many constructs are open.
    induction size : around.length using Nat.strongRecOn generalizing around with
    | ind _ smaller =>
        subst size
        rcases flush_eq_nil_or_group around with flushed | ⟨position, outer, flushed⟩
        · exact ⟨[], finish_of_flush flushed⟩
        · have kept : (flush around).length ≤ around.length := (List.dropWhile_sublist _).length_le
          have fewer : (settle outer).length ≤ outer.length := by
            rcases outer with _ | ⟨_ | _ | _ | _, outer⟩ <;> simp [settle]
          rw [flushed, List.length_cons] at kept
          obtain ⟨more, done⟩ := smaller _ (by omega) (settle outer) rfl
          refine ⟨⟨.closing, 0⟩ :: more, (run_append more (walk_cons [] ?_)).trans done⟩
          simp only [next, opened?, passed, flushed]
  rcases place with ⟨around, expected⟩
  cases expected with
  | operator => exact closes around
  | operand | argument | negatable =>
      obtain ⟨more, done⟩ := closes (settle around)
      exact ⟨⟨.number 0, 0⟩ :: more, (run_append more (walk_cons [] rfl)).trans done⟩

theorem passed_eq_error {lexeme : Lexeme} {error : ParseError}
    (stuck : place.passed lexeme = .error error) :
    error = .unexpectedToken lexeme ∨
      (error = .trailingToken lexeme ∧ place.finish = .ok ()) ∨
      ∃ position, error = .unclosedGroup position ∧
        (groups place.around).head? = some position := by
  obtain ⟨around, expected⟩ := place
  obtain ⟨token, position⟩ := lexeme
  cases expected with
  | operator =>
      rcases flush_eq_nil_or_group around with flushed | ⟨start, outer, flushed⟩
      · refine .inr (.inl ⟨?_, finish_of_flush flushed⟩)
        cases token with
        | operator sign => cases stuck
        | number value | log | opening | closing =>
            simp only [passed, flushed, Except.error.injEq] at stuck
            exact stuck.symm
      · refine .inr (.inr ⟨start, ?_, by rw [← groups_flush, flushed]; rfl⟩)
        cases token with
        | operator sign => cases stuck
        | closing => simp [passed, flushed] at stuck
        | number value | log | opening =>
            simp only [passed, flushed, Except.error.injEq] at stuck
            exact stuck.symm
  | operand | argument | negatable =>
      cases token with
      | number value => cases stuck
      | log | operator sign | opening | closing => cases stuck; exact .inl rfl

theorem Refuses.blames {error : ParseError} (refuses : place.Refuses nesting base error lexemes) :
    (lexemes = [] ∧ error = .unexpectedEnd) ∨
      (∃ position, error = .unclosedGroup position ∧
        (groups place.around).head? = some position) ∨
      ∃ lexeme rest, lexemes = lexeme :: rest ∧
        (error = .unexpectedToken lexeme ∨ error = .nestingTooDeep lexeme.position ∨
          error = .trailingToken lexeme ∧ place.finish = .ok ()) := by
  cases lexemes with
  | nil =>
      simp only [Refuses, finish] at refuses
      split at refuses
      · rcases flush_eq_nil_or_group place.around with flushed | ⟨position, outer, flushed⟩
        · simp [flushed] at refuses
        · simp only [flushed, Except.error.injEq] at refuses
          exact .inr (.inl ⟨position, refuses.symm, by rw [← groups_flush, flushed]; rfl⟩)
      · cases refuses
        exact .inl ⟨rfl, rfl⟩
  | cons lexeme rest =>
      rcases next_eq_error.mp refuses with ⟨_, _, tooDeep⟩ | ⟨_, passed⟩
      · exact .inr (.inr ⟨_, _, rfl, .inr (.inl tooDeep)⟩)
      · rcases passed_eq_error passed with unexpected | trailing | unclosed
        · exact .inr (.inr ⟨_, _, rfl, .inl unexpected⟩)
        · exact .inr (.inr ⟨_, _, rfl, .inr (.inr trailing)⟩)
        · exact .inr (.inl unclosed)

theorem groups_opened {lexeme : Lexeme} {inside : Place}
    (opened : place.opened? lexeme = some inside) :
    groups inside.around = track (groups place.around) lexeme := by
  obtain ⟨around, expected⟩ := place
  obtain ⟨token, position⟩ := lexeme
  cases token with
  | opening => cases expected <;> cases opened <;> rfl
  | log => cases expected <;> cases opened <;> rfl
  | operator sign => cases expected <;> cases sign <;> cases opened <;> rfl
  | number value | closing => cases expected <;> cases opened

theorem groups_passed {lexeme : Lexeme} {after : Place}
    (passed : place.passed lexeme = .ok after) :
    groups after.around = track (groups place.around) lexeme := by
  obtain ⟨around, expected⟩ := place
  obtain ⟨token, position⟩ := lexeme
  cases expected with
  | operator =>
      rcases flush_eq_nil_or_group around with flushed | ⟨start, outer, flushed⟩
      · cases token with
        | operator sign => cases passed; exact groups_flush around
        | number value | log | opening | closing => simp [Place.passed, flushed] at passed
      · cases token with
        | operator sign => cases passed; exact groups_flush around
        | closing =>
            simp only [Place.passed, flushed, Except.ok.injEq] at passed
            subst passed
            simp only [track]
            rw [groups_settle, ← groups_flush around, flushed]
            rfl
        | number value | log | opening => simp [Place.passed, flushed] at passed
  | operand | argument | negatable =>
      cases token with
      | number value => cases passed; exact groups_settle around
      | log | operator sign | opening | closing => cases passed

theorem groups_next {lexeme : Lexeme} {after : Place}
    (step : place.next nesting base lexeme = .ok after) :
    groups after.around = track (groups place.around) lexeme := by
  rcases next_eq_ok.mp step with ⟨opened, _⟩ | ⟨_, passed⟩
  · exact groups_opened opened
  · exact groups_passed passed

theorem groups_walk {final : Place} (walked : place.walk nesting base lexemes = .ok final) :
    groups final.around = lexemes.foldl track (groups place.around) := by
  induction lexemes generalizing place with
  | nil => cases walked; rfl
  | cons lexeme rest ih =>
      obtain ⟨after, step, onward⟩ := next_of_walk walked
      rw [ih onward, groups_next step]
      rfl

end

end Place

/-- The positions of the parentheses that are opened and not closed again, the
last of them first. -/
def unclosed (lexemes : List Lexeme) : List Nat :=
  lexemes.foldl Place.track []

/-- The lexemes are the start of an expression. -/
def Completable (lexemes : List Lexeme) : Prop :=
  ∃ more expr, Expr.ofLexemes (lexemes ++ more) = .ok expr

/-- After `before` the lexeme makes the error, whatever comes next. -/
def Breaks (error : ParseError) (before : List Lexeme) (lexeme : Lexeme) : Prop :=
  ∀ others, Expr.ofLexemes (before ++ lexeme :: others) = .error error

/-- What the error says about the lexemes: where they stop being the start of
an expression, and why. -/
def ParseError.Blames (lexemes : List Lexeme) : ParseError → Prop
  | .emptyExpression => lexemes = []
  | .unexpectedEnd => Completable lexemes
  | .unexpectedToken lexeme => ∃ before after, lexemes = before ++ lexeme :: after ∧
      Completable before ∧ Breaks (.unexpectedToken lexeme) before lexeme
  | .trailingToken lexeme => ∃ before after, lexemes = before ++ lexeme :: after ∧
      Completable before ∧ Breaks (.trailingToken lexeme) before lexeme ∧
      ∃ expr, Expr.ofLexemes before = .ok expr
  | .nestingTooDeep position => ∃ before lexeme after, lexemes = before ++ lexeme :: after ∧
      lexeme.position = position ∧ Completable before ∧
      Breaks (.nestingTooDeep position) before lexeme
  | .unclosedGroup position => ∃ before after, lexemes = before ++ after ∧
      Completable before ∧ (unclosed before).head? = some position ∧
      (after = [] ∨ ∃ lexeme rest, after = lexeme :: rest ∧
        Breaks (.unclosedGroup position) before lexeme)

namespace Expr

/-- The places tell whether lexemes spell an expression, and what is wrong if
they do not. -/
theorem ofLexemes_eq_run {lexemes : List Lexeme} (spelled : lexemes ≠ []) :
    (ofLexemes lexemes).map (fun _ => ()) = Tier.sum.start.run .standard 0 lexemes := by
  have reads : Reads .standard (.expression .sum) 0 lexemes
    (Tier.read .standard .sum 0 lexemes) := reads_iff.mpr rfl
  obtain ⟨lexeme, others, rfl⟩ := List.exists_cons_of_ne_nil spelled
  have follows := reads.follows [] _ (Tier.sum.startsAt 0 _)
  rw [ofLexemes_cons]
  cases reading : Tier.read .standard .sum 0 (lexeme :: others) with
  | rejected error rest =>
      rw [reading] at follows
      obtain ⟨consumed, stop, more, same, walked, refuses, _⟩ := follows
      rw [same, Place.run_of_refuses walked refuses]
      rfl
  | accepted expr rest =>
      rw [reading] at follows reads
      obtain ⟨consumed, inner, same, ungrouped, _, walked⟩ := follows
      have flushed : Place.flush (inner ++ []) = [] := Place.flush_append [] ungrouped
      rw [same]
      cases rest with
      | nil =>
          rw [Place.run_append [] walked]
          exact (Place.finish_of_flush flushed).symm
      | cons last more =>
          refine Eq.symm (Place.run_of_refuses walked ?_)
          obtain ⟨token, position⟩ := last
          cases token with
          | operator sign => exact (reads.ends _ _ rfl : Tier.sum.EndsBefore _).not_operator.elim
          | number value | log | opening | closing =>
              simp only [Place.Refuses, Place.next, Place.opened?, Place.passed, flushed]

theorem exists_ofLexemes {lexemes : List Lexeme}
    (passes : Tier.sum.start.run .standard 0 lexemes = .ok ()) :
    ∃ expr, ofLexemes lexemes = .ok expr := by
  have spelled : lexemes ≠ [] := by
    intro empty
    subst empty
    cases passes
  rw [← ofLexemes_eq_run spelled] at passes
  cases outcome : ofLexemes lexemes with
  | ok expr => exact ⟨expr, rfl⟩
  | error error => rw [outcome] at passes; cases passes

theorem ofLexemes_eq_error {lexemes : List Lexeme} {error : ParseError} (spelled : lexemes ≠ []) :
    ofLexemes lexemes = .error error ↔ Tier.sum.start.run .standard 0 lexemes = .error error := by
  rw [← ofLexemes_eq_run spelled]
  cases ofLexemes lexemes with
  | ok expr => exact ⟨nofun, nofun⟩
  | error error => simp [Except.map]

theorem completable_of_walk {before : List Lexeme} {stop : Place}
    (walked : Tier.sum.start.walk .standard 0 before = .ok stop) : Completable before := by
  obtain ⟨more, done⟩ := stop.completable .standard 0
  obtain ⟨expr, spelled⟩ := exists_ofLexemes ((Place.run_append more walked).trans done)
  exact ⟨more, expr, spelled⟩

theorem breaks_of_walk {error : ParseError} {before : List Lexeme} {lexeme : Lexeme} {stop : Place}
    (walked : Tier.sum.start.walk .standard 0 before = .ok stop)
    (refused : stop.next .standard 0 lexeme = .error error) : Breaks error before lexeme :=
  fun _ => (ofLexemes_eq_error (by simp)).mpr (Place.run_of_refuses walked refused)

/-- The empty expression is its own error.  Every other error blames the first
lexeme that no expression can go on with, or the end. -/
theorem ofLexemes_blames (lexemes : List Lexeme) :
    (ofLexemes lexemes = .error .emptyExpression ↔ lexemes = []) ∧
      ∀ error, ofLexemes lexemes = .error error → error.Blames lexemes := by
  rcases Decidable.em (lexemes = []) with rfl | spelled
  · refine ⟨iff_of_true rfl rfl, ?_⟩
    intro error rejected
    cases rejected
    rfl
  have blames : ∀ error, ofLexemes lexemes = .error error →
      error ≠ .emptyExpression ∧ error.Blames lexemes := by
    intro error rejected
    obtain ⟨before, stop, after, rfl, walked, refuses⟩ :=
      Place.refuses_of_run ((ofLexemes_eq_error spelled).mp rejected)
    have completable := completable_of_walk walked
    rcases refuses.blames with ⟨rfl, rfl⟩ | ⟨position, rfl, inner⟩ | ⟨lexeme, rest, rfl, blamed⟩
    · rw [List.append_nil]
      exact ⟨nofun, completable⟩
    · refine ⟨nofun, before, after, rfl, completable, ?_, ?_⟩
      · rwa [Place.groups_walk walked] at inner
      · rcases after with _ | ⟨lexeme, rest⟩
        · exact .inl rfl
        · exact .inr ⟨lexeme, rest, rfl, breaks_of_walk walked refuses⟩
    · have breaks := breaks_of_walk walked refuses
      rcases blamed with rfl | rfl | ⟨rfl, finished⟩
      · exact ⟨nofun, before, rest, rfl, completable, breaks⟩
      · exact ⟨nofun, before, lexeme, rest, rfl, rfl, completable, breaks⟩
      · have passes : Tier.sum.start.run .standard 0 (before ++ []) = .ok () :=
          (Place.run_append [] walked).trans finished
        rw [List.append_nil] at passes
        exact ⟨nofun, before, rest, rfl, completable, breaks, exists_ofLexemes passes⟩
  refine ⟨iff_of_false (fun empty => (blames _ empty).1 rfl) spelled, ?_⟩
  exact fun error rejected => (blames error rejected).2

end Expr

end Reckoner
