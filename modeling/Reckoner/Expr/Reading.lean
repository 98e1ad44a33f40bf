import Reckoner.Record

namespace Reckoner

/-! Reading expressions off a list of lexemes.  There is one reader for each
tier of the grammar:

    sum        := product (('+' | '-') product)*
    product    := logarithm (('*' | '/') logarithm)*
    logarithm  := 'log' power | power
    power      := primary ('^' power)?
    primary    := NUMBER | '-' negatable | '(' sum ')'
    negatable  := 'log' power | NUMBER | '(' sum ')'

A reader takes as much as it can and leaves the rest.  The recursion is defined
on readings that carry a proof of how much is left; the equations below it
(`read_sum` to `read_primary`) say the same without the proofs. -/

/-- How many constructs may enclose one another: groups, negations, logarithms
and exponents.  Without a number there is no bound. -/
abbrev Nesting := Option Nat

namespace Nesting

def admits (nesting : Nesting) (depth : Nat) : Bool :=
  match nesting with
  | none => true
  | some bound => depth < bound

/-- The nesting that expressions are held to. -/
def standard : Nesting := some 128

end Nesting

inductive Tier where
  | sum
  | product
  | logarithm
  | power
  | primary
deriving Repr, DecidableEq

namespace Tier

/-- Tiers that bind tighter have lower ranks. -/
def rank : Tier → Nat
  | .sum => 4
  | .product => 3
  | .logarithm => 2
  | .power => 1
  | .primary => 0

def operands : Tier → Tier
  | .sum => .product
  | .product => .logarithm
  | .logarithm => .power
  | .power => .primary
  | .primary => .primary

def links : Tier → BinaryOp → Bool
  | .sum, .add | .sum, .sub => true
  | .product, .mul | .product, .div => true
  | _, _ => false

/-- The tier at which the operand of a minus sign is read, given the token
after the sign; none if it cannot be negated. -/
def negated? : Token → Option Tier
  | .log => some .logarithm
  | .number _ | .opening => some .primary
  | _ => none

theorem rank_lt (tier : Tier) : tier.rank < 5 := by
  cases tier <;> decide

end Tier

inductive Reading where
  | accepted (expr : Expr) (rest : List Lexeme)
  | rejected (error : ParseError) (rest : List Lexeme)

namespace Reading

def rest : Reading → List Lexeme
  | .accepted _ rest => rest
  | .rejected _ rest => rest

def outcome : Reading → Except ParseError Expr
  | .accepted expr _ => .ok expr
  | .rejected error _ => .error error

/-- The reading leaves no more than `size` lexemes, and fewer if it accepts. -/
def Within (size : Nat) : Reading → Prop
  | .accepted _ rest => rest.length < size
  | .rejected _ rest => rest.length ≤ size

theorem Within.rest_le {size : Nat} {reading : Reading} (within : reading.Within size) :
    reading.rest.length ≤ size := by
  cases reading with
  | accepted expr rest => exact Nat.le_of_lt within
  | rejected error rest => exact within

theorem Within.of_rest_lt {size : Nat} {reading : Reading} (fewer : reading.rest.length < size) :
    reading.Within size := by
  cases reading with
  | accepted expr rest => exact fewer
  | rejected error rest => exact Nat.le_of_lt fewer

def map (build : Expr → Expr) : Reading → Reading
  | .accepted expr rest => .accepted (build expr) rest
  | .rejected error rest => .rejected error rest

theorem Within.map {size : Nat} {reading : Reading} (within : reading.Within size)
    (build : Expr → Expr) : (reading.map build).Within size := by
  cases reading <;> exact within

def andThen (next : Expr → List Lexeme → Reading) : Reading → Reading
  | .accepted expr rest => next expr rest
  | .rejected error rest => .rejected error rest

/-- A group whose contents have been read ends with a closing parenthesis.
Whatever stands there instead is passed over. -/
def closed (position : Nat) : Reading → Reading
  | .accepted expr (⟨.closing, _⟩ :: rest) => .accepted expr rest
  | .accepted _ rest => .rejected (.unclosedGroup position) rest.tail
  | .rejected error rest => .rejected error rest

theorem Within.closed {size : Nat} {reading : Reading} (within : reading.Within size)
    (position : Nat) : (reading.closed position).Within size := by
  unfold Reading.closed
  split
  · exact Nat.lt_of_succ_lt within
  · exact Nat.le_trans (by simp) (Nat.le_of_lt within)
  · exact within

end Reading

namespace Tier

mutual

def readWithin (nesting : Nesting) (tier : Tier) (depth : Nat) (lexemes : List Lexeme) :
    { reading : Reading // reading.Within lexemes.length } :=
  match tier with
  | .sum =>
      match readWithin nesting .product depth lexemes with
      | ⟨.rejected error rest, within⟩ => ⟨.rejected error rest, within⟩
      | ⟨.accepted first rest, within⟩ =>
          match readLinksWithin nesting .sum depth first [] rest with
          | ⟨reading, fewer⟩ => ⟨reading, .of_rest_lt (Nat.lt_of_le_of_lt fewer within)⟩
  | .product =>
      match readWithin nesting .logarithm depth lexemes with
      | ⟨.rejected error rest, within⟩ => ⟨.rejected error rest, within⟩
      | ⟨.accepted first rest, within⟩ =>
          match readLinksWithin nesting .product depth first [] rest with
          | ⟨reading, fewer⟩ => ⟨reading, .of_rest_lt (Nat.lt_of_le_of_lt fewer within)⟩
  | .logarithm =>
      match lexemes with
      | ⟨.log, position⟩ :: rest =>
          if nesting.admits depth then
            match readWithin nesting .power (depth + 1) rest with
            | ⟨reading, within⟩ =>
                ⟨reading.map (.unary .ln position),
                  (Reading.Within.of_rest_lt (Nat.lt_succ_of_le within.rest_le)).map _⟩
          else ⟨.rejected (.nestingTooDeep position) rest, Nat.le_succ _⟩
      | lexemes => readWithin nesting .power depth lexemes
  | .power =>
      match readWithin nesting .primary depth lexemes with
      | ⟨.accepted base (⟨.operator .pow, position⟩ :: rest), within⟩ =>
          if nesting.admits depth then
            match readWithin nesting .power (depth + 1) rest with
            | ⟨reading, inner⟩ =>
                ⟨reading.map (.binary .pow position base),
                  (Reading.Within.of_rest_lt (Nat.lt_of_le_of_lt inner.rest_le
                    (Nat.lt_of_succ_lt within))).map _⟩
          else ⟨.rejected (.nestingTooDeep position) rest, Nat.le_of_lt (Nat.lt_of_succ_lt within)⟩
      | reading => reading
  | .primary =>
      match lexemes with
      | [] => ⟨.rejected .unexpectedEnd [], Nat.le_refl _⟩
      | ⟨.number value, position⟩ :: rest =>
          ⟨.accepted (.literal value position) rest, Nat.lt_succ_self _⟩
      | ⟨.operator .sub, position⟩ :: rest =>
          if nesting.admits depth then
            match rest with
            | [] => ⟨.rejected .unexpectedEnd [], Nat.zero_le _⟩
            | next :: others =>
                match negated? next.token with
                | none => ⟨.rejected (.unexpectedToken next) (next :: others), Nat.le_succ _⟩
                | some tier =>
                    have := rank_lt tier
                    match readWithin nesting tier (depth + 1) (next :: others) with
                    | ⟨reading, within⟩ =>
                        ⟨reading.map (.unary .negate position),
                          (Reading.Within.of_rest_lt (Nat.lt_succ_of_le within.rest_le)).map _⟩
          else ⟨.rejected (.nestingTooDeep position) rest, Nat.le_succ _⟩
      | ⟨.opening, position⟩ :: rest =>
          if nesting.admits depth then
            match readWithin nesting .sum (depth + 1) rest with
            | ⟨reading, within⟩ =>
                ⟨reading.closed position,
                  (Reading.Within.of_rest_lt (Nat.lt_succ_of_le within.rest_le)).closed _⟩
          else ⟨.rejected (.nestingTooDeep position) rest, Nat.le_succ _⟩
      | lexeme :: rest => ⟨.rejected (.unexpectedToken lexeme) rest, Nat.le_succ _⟩
termination_by 8 * lexemes.length + tier.rank
decreasing_by
  all_goals simp only [rank, List.length_cons, Reading.Within] at *
  all_goals omega

def readLinksWithin (nesting : Nesting) (tier : Tier) (depth : Nat) (first : Expr)
    (found : List (Link Expr)) (lexemes : List Lexeme) :
    { reading : Reading // reading.rest.length ≤ lexemes.length } :=
  match lexemes with
  | ⟨.operator operator, position⟩ :: rest =>
      if tier.links operator then
        have := rank_lt tier.operands
        match readWithin nesting tier.operands depth rest with
        | ⟨.rejected error rest, within⟩ => ⟨.rejected error rest, Nat.le_succ_of_le within⟩
        | ⟨.accepted operand rest, within⟩ =>
            match readLinksWithin nesting tier depth first (⟨operator, position, operand⟩ :: found)
                rest with
            | ⟨reading, fewer⟩ => ⟨reading, Nat.le_succ_of_le (Nat.le_trans fewer (Nat.le_of_lt within))⟩
      else ⟨.accepted (first.chained found.reverse) (⟨.operator operator, position⟩ :: rest),
        Nat.le_refl _⟩
  | lexemes => ⟨.accepted (first.chained found.reverse) lexemes, Nat.le_refl _⟩
termination_by 8 * lexemes.length
decreasing_by
  all_goals simp only [List.length_cons, Reading.Within] at *
  all_goals omega

end

/-- Reads an expression of this tier inside `depth` constructs. -/
def read (nesting : Nesting) (tier : Tier) (depth : Nat) (lexemes : List Lexeme) : Reading :=
  (readWithin nesting tier depth lexemes).val

/-- Goes on with a chain of this tier after `first` and the links `found`, the
last of them first. -/
def readLinks (nesting : Nesting) (tier : Tier) (depth : Nat) (first : Expr)
    (found : List (Link Expr)) (lexemes : List Lexeme) : Reading :=
  (readLinksWithin nesting tier depth first found lexemes).val

def readExponent (nesting : Nesting) (depth : Nat) (base : Expr) : List Lexeme → Reading
  | ⟨.operator .pow, position⟩ :: rest =>
      if nesting.admits depth then
        (read nesting .power (depth + 1) rest).map (.binary .pow position base)
      else .rejected (.nestingTooDeep position) rest
  | rest => .accepted base rest

/-- Reads the operand of a minus sign, inside `depth` constructs with the
negation. -/
def readNegated (nesting : Nesting) (depth : Nat) : List Lexeme → Reading
  | [] => .rejected .unexpectedEnd []
  | next :: rest =>
      match negated? next.token with
      | some tier => read nesting tier depth (next :: rest)
      | none => .rejected (.unexpectedToken next) (next :: rest)

section

variable (nesting : Nesting) (depth : Nat)

theorem read_within (tier : Tier) (lexemes : List Lexeme) :
    (read nesting tier depth lexemes).Within lexemes.length :=
  (readWithin nesting tier depth lexemes).property

theorem read_sum (lexemes : List Lexeme) :
    read nesting .sum depth lexemes =
      (read nesting .product depth lexemes).andThen fun first rest =>
        readLinks nesting .sum depth first [] rest := by
  unfold read readLinks
  rw [readWithin.eq_def]
  dsimp only
  cases readWithin nesting .product depth lexemes with
  | mk reading within => cases reading <;> rfl

theorem read_product (lexemes : List Lexeme) :
    read nesting .product depth lexemes =
      (read nesting .logarithm depth lexemes).andThen fun first rest =>
        readLinks nesting .product depth first [] rest := by
  unfold read readLinks
  rw [readWithin.eq_def]
  dsimp only
  cases readWithin nesting .logarithm depth lexemes with
  | mk reading within => cases reading <;> rfl

theorem read_logarithm_log (position : Nat) (rest : List Lexeme) :
    read nesting .logarithm depth (⟨.log, position⟩ :: rest) =
      if nesting.admits depth then
        (read nesting .power (depth + 1) rest).map (.unary .ln position)
      else .rejected (.nestingTooDeep position) rest := by
  unfold read
  rw [readWithin.eq_def]
  dsimp only
  split <;> rfl

theorem read_logarithm (lexemes : List Lexeme)
    (plain : ∀ position rest, lexemes ≠ ⟨.log, position⟩ :: rest) :
    read nesting .logarithm depth lexemes = read nesting .power depth lexemes := by
  unfold read
  rw [readWithin.eq_def]
  dsimp only
  split
  · exact absurd rfl (plain _ _)
  · rfl

theorem read_power (lexemes : List Lexeme) :
    read nesting .power depth lexemes =
      (read nesting .primary depth lexemes).andThen (readExponent nesting depth) := by
  unfold read
  rw [readWithin.eq_def]
  dsimp only
  split
  next position base rest within found =>
    rw [found]
    simp only [Reading.andThen, readExponent, read]
    split <;> rfl
  next other =>
    cases found : readWithin nesting .primary depth lexemes with
    | mk reading within =>
        cases reading with
        | rejected error rest => rfl
        | accepted base rest =>
            dsimp only [Reading.andThen]
            unfold readExponent
            split
            · exact (other _ _ _ _ found).elim
            · rfl

theorem read_primary_nil : read nesting .primary depth [] = .rejected .unexpectedEnd [] := by
  unfold read
  rw [readWithin.eq_def]

theorem read_primary_number (value : Float) (position : Nat) (rest : List Lexeme) :
    read nesting .primary depth (⟨.number value, position⟩ :: rest) =
      .accepted (.literal value position) rest := by
  unfold read
  rw [readWithin.eq_def]

theorem read_primary_minus (position : Nat) (rest : List Lexeme) :
    read nesting .primary depth (⟨.operator .sub, position⟩ :: rest) =
      if nesting.admits depth then
        (readNegated nesting (depth + 1) rest).map (.unary .negate position)
      else .rejected (.nestingTooDeep position) rest := by
  unfold read readNegated
  rw [readWithin.eq_def]
  dsimp only
  split
  · cases rest with
    | nil => rfl
    | cons next others =>
        dsimp only
        cases negated? next.token <;> rfl
  · rfl

theorem read_primary_opening (position : Nat) (rest : List Lexeme) :
    read nesting .primary depth (⟨.opening, position⟩ :: rest) =
      if nesting.admits depth then
        (read nesting .sum (depth + 1) rest).closed position
      else .rejected (.nestingTooDeep position) rest := by
  unfold read
  rw [readWithin.eq_def]
  dsimp only
  split <;> rfl

theorem read_primary_refused (lexeme : Lexeme) (rest : List Lexeme)
    (unfit : lexeme.token ≠ .operator .sub) (refused : negated? lexeme.token ≠ some .primary) :
    read nesting .primary depth (lexeme :: rest) =
      .rejected (.unexpectedToken lexeme) rest := by
  unfold read
  rw [readWithin.eq_def]
  obtain ⟨token, position⟩ := lexeme
  cases token with
  | number value => exact absurd rfl refused
  | log => rfl
  | operator sign =>
      cases sign with
      | sub => exact absurd rfl unfit
      | add | mul | div | pow => rfl
  | opening => exact absurd rfl refused
  | closing => rfl

theorem readLinks_link (tier : Tier) (first : Expr) (found : List (Link Expr))
    (operator : BinaryOp) (position : Nat) (rest : List Lexeme)
    (linked : tier.links operator = true) :
    readLinks nesting tier depth first found (⟨.operator operator, position⟩ :: rest) =
      (read nesting tier.operands depth rest).andThen fun operand rest =>
        readLinks nesting tier depth first (⟨operator, position, operand⟩ :: found) rest := by
  unfold read readLinks
  rw [readLinksWithin.eq_def]
  dsimp only
  simp only [linked, if_true]
  cases readWithin nesting tier.operands depth rest with
  | mk reading within => cases reading <;> rfl

theorem readLinks_end (tier : Tier) (first : Expr) (found : List (Link Expr))
    (lexemes : List Lexeme)
    (ended : ∀ operator position rest, lexemes = ⟨.operator operator, position⟩ :: rest →
      tier.links operator = false) :
    readLinks nesting tier depth first found lexemes =
      .accepted (first.chained found.reverse) lexemes := by
  unfold readLinks
  rw [readLinksWithin.eq_def]
  dsimp only
  split
  next operator position rest =>
    simp [ended operator position rest rfl]
  next => rfl

end

end Tier

/-- The expression of a reading that leaves nothing. -/
def Reading.whole : Reading → Except ParseError Expr
  | .rejected error _ => .error error
  | .accepted expr [] => .ok expr
  | .accepted _ (lexeme :: _) => .error (.trailingToken lexeme)

theorem Reading.whole_eq_ok {reading : Reading} {expr : Expr} :
    reading.whole = .ok expr ↔ reading = .accepted expr [] := by
  constructor
  · intro whole
    unfold Reading.whole at whole
    split at whole
    · cases whole
    · cases whole
      rfl
    · cases whole
  · rintro rfl
    rfl

namespace Expr

/-- Reads all of the lexemes as one expression, and records it. -/
def parsing (lexemes : List Lexeme) : Logged (Except ParseError Expr) :=
  .noting .parsed
    (match lexemes with
      | [] => .error .emptyExpression
      | lexemes => (Tier.read .standard .sum 0 lexemes).whole)

/-- The one expression that a list of lexemes spells. -/
def ofLexemes (lexemes : List Lexeme) : Except ParseError Expr :=
  (parsing lexemes).result

theorem ofLexemes_cons (lexeme : Lexeme) (rest : List Lexeme) :
    ofLexemes (lexeme :: rest) = (Tier.read .standard .sum 0 (lexeme :: rest)).whole :=
  rfl

theorem parsing_of_ok {lexemes : List Lexeme} {expr : Expr}
    (spelled : ofLexemes lexemes = .ok expr) : parsing lexemes = ⟨[.parsed expr], .ok expr⟩ :=
  Logged.noting_of_ok spelled

theorem parsing_of_error {lexemes : List Lexeme} {error : ParseError}
    (rejected : ofLexemes lexemes = .error error) : parsing lexemes = ⟨[], .error error⟩ :=
  Logged.noting_of_error rejected

end Expr

end Reckoner
