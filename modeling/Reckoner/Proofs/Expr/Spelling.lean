import Reckoner.Proofs.Expr.Formula
import Reckoner.Proofs.Reading.Chains
import Reckoner.Proofs.Reading.Nesting

namespace Reckoner

namespace Derives

variable {nesting : Nesting} {depth position : Nat} {lexemes others : List Lexeme}
  {expr other : Expr}

theorem chain_of_powers {operator : BinaryOp} (chains : operator ≠ .pow)
    (left : Derives nesting .power depth lexemes expr)
    (right : Derives nesting .power depth others other) :
    Derives nesting .sum depth (lexemes ++ ⟨.operator operator, position⟩ :: others)
      (.chain expr [⟨operator, position, other⟩]) := by
  cases operator with
  | add | sub => exact .link rfl (.product_of_power left) (.product_of_power right)
  | mul | div => exact .sum_of_product (.link rfl (.plain left) (.plain right))
  | pow => exact absurd rfl chains

/-- What is a primary expression without a minus sign is one with it. -/
theorem negated (admitted : nesting.admits depth = true)
    (primary : Derives nesting .primary (depth + 1) lexemes expr)
    (plain : ∀ place rest, lexemes ≠ ⟨.operator .sub, place⟩ :: rest) :
    Derives nesting .primary depth (⟨.operator .sub, position⟩ :: lexemes)
      (.unary .negate position expr) := by
  cases primary with
  | number => exact .negatedNumber admitted
  | group inside content => exact .negatedGroup inside content
  | negatedNumber | negatedGroup => exact absurd rfl (plain _ _)

end Derives

def UnaryOp.token : UnaryOp → Token
  | .negate => .operator .sub
  | .ln => .log

namespace Formula

/-- How many constructs the lexemes of the formula open inside one another. -/
def depth : Formula → Nat
  | .literal _ => 0
  | .unary _ operand => 2 + operand.depth
  | .binary .pow left right => 1 + max left.depth (1 + right.depth)
  | .binary _ left right => 1 + max left.depth right.depth

def tokens : Formula → List Token
  | .literal value => [.number value]
  | .unary operator operand => .opening :: operator.token :: (operand.tokens ++ [.closing])
  | .binary operator left right =>
      .opening :: (left.tokens ++ .operator operator :: (right.tokens ++ [.closing]))

theorem depth_binary {operator : BinaryOp} (chains : operator ≠ .pow) (left right : Formula) :
    (binary operator left right).depth = 1 + max left.depth right.depth := by
  cases operator with
  | add | sub | mul | div => rfl
  | pow => exact absurd rfl chains

theorem expr_binary {operator : BinaryOp} (chains : operator ≠ .pow) (left right : Formula) :
    (binary operator left right).expr = .chain left.expr [⟨operator, 0, right.expr⟩] := by
  cases operator with
  | add | sub | mul | div => rfl
  | pow => exact absurd rfl chains

/-- The lexemes are those of the formula, wherever they stand. -/
def Spelled (formula : Formula) (lexemes : List Lexeme) : Prop :=
  lexemes.map Lexeme.token = formula.tokens

namespace Spelled

variable {lexemes : List Lexeme} {left right : Formula}

theorem literal {value : Float} (spelled : (Formula.literal value).Spelled lexemes) :
    ∃ position, lexemes = [⟨.number value, position⟩] := by
  obtain ⟨⟨token, position⟩, rest, rfl, rfl, empty⟩ := List.map_eq_cons_iff.mp spelled
  cases List.map_eq_nil_iff.mp empty
  exact ⟨position, rfl⟩

theorem unary {operator : UnaryOp} (spelled : (Formula.unary operator right).Spelled lexemes) :
    ∃ start place operand stop, right.Spelled operand ∧
      lexemes = ⟨.opening, start⟩ :: ⟨operator.token, place⟩ ::
        (operand ++ [⟨.closing, stop⟩]) := by
  obtain ⟨⟨_, start⟩, group, rfl, rfl, groupSpelled⟩ := List.map_eq_cons_iff.mp spelled
  obtain ⟨⟨_, place⟩, rest, rfl, rfl, restSpelled⟩ := List.map_eq_cons_iff.mp groupSpelled
  obtain ⟨operand, last, rfl, inside, lastSpelled⟩ := List.map_eq_append_iff.mp restSpelled
  obtain ⟨⟨_, stop⟩, more, rfl, rfl, empty⟩ := List.map_eq_cons_iff.mp lastSpelled
  cases List.map_eq_nil_iff.mp empty
  exact ⟨start, place, operand, stop, inside, rfl⟩

theorem binary {operator : BinaryOp}
    (spelled : (Formula.binary operator left right).Spelled lexemes) :
    ∃ start before place after stop, left.Spelled before ∧ right.Spelled after ∧
      lexemes = ⟨.opening, start⟩ :: (before ++ ⟨.operator operator, place⟩ ::
        (after ++ [⟨.closing, stop⟩])) := by
  obtain ⟨⟨_, start⟩, group, rfl, rfl, groupSpelled⟩ := List.map_eq_cons_iff.mp spelled
  obtain ⟨before, more, rfl, first, moreSpelled⟩ := List.map_eq_append_iff.mp groupSpelled
  obtain ⟨⟨_, place⟩, rest, rfl, rfl, restSpelled⟩ := List.map_eq_cons_iff.mp moreSpelled
  obtain ⟨after, last, rfl, second, lastSpelled⟩ := List.map_eq_append_iff.mp restSpelled
  obtain ⟨⟨_, stop⟩, more, rfl, rfl, empty⟩ := List.map_eq_cons_iff.mp lastSpelled
  cases List.map_eq_nil_iff.mp empty
  exact ⟨start, before, place, after, stop, first, second, rfl⟩

theorem ne_minus (spelled : left.Spelled lexemes) :
    ∀ position rest, lexemes ≠ ⟨.operator .sub, position⟩ :: rest := by
  intro position rest same
  subst same
  cases left <;> cases spelled

end Spelled

/-- From `depth` constructs on, as many more may open as the formula needs. -/
def Fits (nesting : Nesting) (depth : Nat) (formula : Formula) : Prop :=
  ∀ level, level < formula.depth → nesting.admits (depth + level) = true

theorem Fits.inside {nesting : Nesting} {depth : Nat} {formula inner : Formula}
    (fits : formula.Fits nesting depth) (further : Nat)
    (deeper : further + inner.depth ≤ formula.depth) : inner.Fits nesting (depth + further) := by
  intro level below
  rw [Nat.add_assoc]
  exact fits (further + level) (by omega)

theorem Spelled.derives {nesting : Nesting} {depth : Nat} {formula : Formula}
    {lexemes : List Lexeme} (spelled : formula.Spelled lexemes)
    (fits : formula.Fits nesting depth) :
    ∃ expr, Derives nesting .primary depth lexemes expr ∧ expr.unplaced = formula.expr := by
  induction formula generalizing depth lexemes with
  | literal value =>
      obtain ⟨position, rfl⟩ := spelled.literal
      exact ⟨_, .number, rfl⟩
  | unary operator operand ih =>
      obtain ⟨start, place, inside, stop, operandSpelled, rfl⟩ := spelled.unary
      obtain ⟨expr, derives, same⟩ := ih operandSpelled (fits.inside 2 (Nat.le_refl _))
      have outer : nesting.admits depth = true := fits 0 (by simp only [Formula.depth]; omega)
      have inner : nesting.admits (depth + 1) = true :=
        fits 1 (by simp only [Formula.depth]; omega)
      cases operator with
      | negate =>
          have negated := (derives.negated inner operandSpelled.ne_minus :
            Derives nesting .primary _ (⟨.operator .sub, place⟩ :: inside) _)
          refine ⟨_, .group outer (.sum_of_primary negated), ?_⟩
          simp only [Expr.unplaced, same, Formula.expr]
      | ln =>
          have logarithm := (.logarithm inner (.base derives) :
            Derives nesting .logarithm _ (⟨.log, place⟩ :: inside) _)
          refine ⟨_, .group outer (.sum_of_product (.alone (.inr rfl) logarithm)), ?_⟩
          simp only [Expr.unplaced, same, Formula.expr]
  | binary operator left right leftIH rightIH =>
      obtain ⟨start, before, place, after, stop, leftSpelled, rightSpelled, rfl⟩ :=
        spelled.binary
      have outer : nesting.admits depth = true :=
        fits 0 (by cases operator <;> simp only [Formula.depth] <;> omega)
      obtain ⟨first, leftDerives, leftSame⟩ := leftIH leftSpelled
        (fits.inside 1 (by cases operator <;> simp only [Formula.depth] <;> omega))
      have content : ∃ expr, Derives nesting .sum (depth + 1)
          (before ++ ⟨.operator operator, place⟩ :: after) expr ∧
          expr.unplaced = (Formula.binary operator left right).expr := by
        by_cases power : operator = .pow
        · subst power
          obtain ⟨second, rightDerives, rightSame⟩ := rightIH rightSpelled
            (fits.inside 2 (by simp only [Formula.depth]; omega))
          have inner : nesting.admits (depth + 1) = true :=
            fits 1 (by simp only [Formula.depth]; omega)
          refine ⟨.binary .pow place first second, ?_, ?_⟩
          · exact .sum_of_product
              (.product_of_power (.power inner leftDerives (.base rightDerives)))
          · simp only [Expr.unplaced, leftSame, rightSame, Formula.expr]
        · obtain ⟨second, rightDerives, rightSame⟩ := rightIH rightSpelled
            (fits.inside 1 (by rw [Formula.depth_binary power]; omega))
          refine ⟨.chain first [⟨operator, place, second⟩], ?_, ?_⟩
          · exact .chain_of_powers power (.base leftDerives) (.base rightDerives)
          · simp only [Expr.unplaced, Expr.unplacedLinks, leftSame, rightSame,
              Formula.expr_binary power]
      obtain ⟨expr, derives, same⟩ := content
      refine ⟨expr, ?_, same⟩
      simpa using Derives.group outer derives

end Formula

namespace Place

/-- Some of the lexemes opens a construct at this level. -/
def Opens (base : Nat) (place : Place) (lexemes : List Lexeme) (level : Nat) : Prop :=
  ∃ before lexeme after, lexemes = before ++ lexeme :: after ∧
    place.OpensAt base before lexeme level

variable {base level : Nat} {place middle : Place} {lexemes consumed : List Lexeme}

theorem Opens.here {lexeme : Lexeme} {rest : List Lexeme} (opens : place.opened? lexeme ≠ none) :
    place.Opens base (lexeme :: rest) (base + place.around.length + 1) :=
  ⟨[], lexeme, rest, rfl, place, rfl, opens, rfl⟩

theorem Opens.after (walked : place.walk none base consumed = .ok middle)
    (opens : middle.Opens base lexemes level) : place.Opens base (consumed ++ lexemes) level := by
  obtain ⟨before, lexeme, rest, rfl, stop, onward, opened, rfl⟩ := opens
  exact ⟨consumed ++ before, lexeme, rest, by simp, stop,
    (walk_append before walked).trans onward, opened, rfl⟩

theorem Opens.cons {lexeme : Lexeme} (step : place.next none base lexeme = .ok middle)
    (opens : middle.Opens base lexemes level) : place.Opens base (lexeme :: lexemes) level :=
  .after (walk_cons [] step) opens

theorem Opens.append (opens : place.Opens base lexemes level) (more : List Lexeme) :
    place.Opens base (lexemes ++ more) level := by
  obtain ⟨before, lexeme, rest, rfl, opensAt⟩ := opens
  exact ⟨before, lexeme, rest ++ more, by simp, opensAt⟩

theorem Opens.of_eq {other : Nat} (opens : place.Opens base lexemes level)
    (same : level = other) : place.Opens base lexemes other :=
  same ▸ opens

theorem next_free {lexeme : Lexeme} {inside : Place} (opened : place.opened? lexeme = some inside) :
    place.next none base lexeme = .ok inside := by
  simp only [next, opened, Nesting.admits, if_true]

theorem opened_group (expects : place.expected ≠ .operator) (start : Nat) :
    place.opened? ⟨.opening, start⟩ = some ⟨.group start :: place.around, .operand⟩ := by
  obtain ⟨around, expected⟩ := place
  cases expected with
  | operand | argument | negatable => rfl
  | operator => exact absurd rfl expects

/-- A minus sign and a logarithm take one operand, and what follows it is
outside again or next to the end of their group. -/
theorem opened_unary (operator : UnaryOp) (around : List Frame) (position : Nat) :
    ∃ inside inner, opened? ⟨around, .operand⟩ ⟨operator.token, position⟩ = some inside ∧
      inside.expected ≠ .operator ∧ inside.around.length = around.length + 1 ∧
      settle inside.around = inner ++ around ∧ ∀ frame ∈ inner, frame.isGroup = false := by
  cases operator with
  | negate => exact ⟨_, [], rfl, nofun, rfl, rfl, nofun⟩
  | ln => exact ⟨_, [.logarithm], rfl, nofun, rfl, rfl, by simp [Frame.isGroup]⟩

/-- In a group an operator leads on to its right operand; only a power opens a
construct for it. -/
theorem next_operator (base : Nat) (operator : BinaryOp) (start : Nat) (outer : List Frame)
    (position : Nat) :
    ∃ inner expected, expected ≠ .operator ∧
      next none base ⟨.group start :: outer, .operator⟩ ⟨.operator operator, position⟩ =
        .ok ⟨inner ++ .group start :: outer, expected⟩ ∧
      settle (inner ++ .group start :: outer) = inner ++ .group start :: outer ∧
      (∀ frame ∈ inner, frame.isGroup = false) ∧
      (operator = .pow → inner.length = 1) ∧ (operator ≠ .pow → inner = []) := by
  cases operator with
  | pow =>
      exact ⟨[.exponent], .argument, by decide, rfl, rfl, by simp [Frame.isGroup], fun _ => rfl,
        fun unlike => absurd rfl unlike⟩
  | add | sub | mul | div =>
      exact ⟨[], .operand, by decide, rfl, rfl, List.forall_mem_nil _, by decide, fun _ => rfl⟩

theorem next_closing {inner outer : List Frame} {position stop : Nat}
    (ungrouped : ∀ frame ∈ inner, frame.isGroup = false) :
    next none base ⟨inner ++ .group position :: outer, .operator⟩ ⟨.closing, stop⟩ =
      .ok ⟨settle outer, .operator⟩ := by
  have flushed := flush_append (.group position :: outer) ungrouped
  rw [show flush (.group position :: outer) = .group position :: outer from rfl] at flushed
  simp only [next, opened?, passed, flushed]

end Place

namespace Formula.Spelled

variable {base : Nat} {formula : Formula} {lexemes : List Lexeme}

/-- Past the lexemes of a formula, all is closed that they open. -/
theorem walk (spelled : formula.Spelled lexemes) (place : Place)
    (expects : place.expected ≠ .operator) :
    place.walk none base lexemes = .ok ⟨Place.settle place.around, .operator⟩ := by
  induction formula generalizing lexemes place with
  | literal value =>
      obtain ⟨position, rfl⟩ := spelled.literal
      refine Place.walk_cons [] ?_
      obtain ⟨around, expected⟩ := place
      cases expected with
      | operand | argument | negatable => rfl
      | operator => exact absurd rfl expects
  | unary operator operand ih =>
      obtain ⟨start, position, inside, stop, operandSpelled, rfl⟩ := spelled.unary
      obtain ⟨within, inner, opened, expected, _, settled, ungrouped⟩ :=
        Place.opened_unary operator (.group start :: place.around) position
      rw [Place.walk_cons _ (Place.next_free (Place.opened_group expects start)),
        Place.walk_cons _ (Place.next_free opened),
        Place.walk_append _ (ih operandSpelled within expected), settled]
      exact Place.walk_cons [] (Place.next_closing ungrouped)
  | binary operator left right leftIH rightIH =>
      obtain ⟨start, before, position, after, stop, leftSpelled, rightSpelled, rfl⟩ :=
        spelled.binary
      obtain ⟨inner, expected, follows, step, settled, ungrouped, _⟩ :=
        Place.next_operator base operator start place.around position
      have leftWalked : Place.walk none base ⟨.group start :: place.around, .operand⟩ before =
          .ok ⟨.group start :: place.around, .operator⟩ := leftIH leftSpelled _ nofun
      rw [Place.walk_cons _ (Place.next_free (Place.opened_group expects start)),
        Place.walk_append _ leftWalked, Place.walk_cons _ step,
        Place.walk_append _ (rightIH rightSpelled _ follows), settled]
      exact Place.walk_cons [] (Place.next_closing ungrouped)

/-- If the formula does an operation, its lexemes open a level as deep as it is,
counted from the place where they start. -/
theorem opens (spelled : formula.Spelled lexemes) (place : Place)
    (expects : place.expected ≠ .operator) (deep : 0 < formula.depth) :
    place.Opens base lexemes (base + place.around.length + formula.depth) := by
  induction formula generalizing lexemes place with
  | literal value => cases deep
  | unary operator operand ih =>
      obtain ⟨start, position, inside, stop, operandSpelled, rfl⟩ := spelled.unary
      obtain ⟨within, inner, opened, expected, length, _⟩ :=
        Place.opened_unary operator (.group start :: place.around) position
      refine .cons (Place.next_free (Place.opened_group expects start)) ?_
      rw [Formula.depth]
      rcases Nat.eq_zero_or_pos operand.depth with flat | deeper
      · rw [flat]
        exact .here (by simp [opened])
      · have insideOpens := (ih operandSpelled within expected deeper).append [⟨.closing, stop⟩]
        refine .cons (Place.next_free opened) (insideOpens.of_eq ?_)
        rw [length, List.length_cons]
        omega
  | binary operator left right leftIH rightIH =>
      obtain ⟨start, before, position, after, stop, leftSpelled, rightSpelled, rfl⟩ :=
        spelled.binary
      obtain ⟨inner, expected, follows, step, _, _, power, chains⟩ :=
        Place.next_operator base operator start place.around position
      have leftWalked : Place.walk none base ⟨.group start :: place.around, .operand⟩ before =
          .ok ⟨.group start :: place.around, .operator⟩ := leftSpelled.walk _ nofun
      have group := Place.opened_group expects start
      have depth : (Formula.binary operator left right).depth =
          1 + max left.depth (inner.length + right.depth) := by
        by_cases raises : operator = .pow
        · rw [power raises, raises, Formula.depth]
        · rw [chains raises, Formula.depth_binary raises, List.length_nil, Nat.zero_add]
      rw [depth]
      rcases Nat.lt_or_ge left.depth (inner.length + right.depth) with rightDeeper | leftDeeper
      · rw [Nat.max_eq_right (Nat.le_of_lt rightDeeper)]
        refine .cons (Place.next_free group) (.after leftWalked ?_)
        rcases Nat.eq_zero_or_pos right.depth with flat | deeper
        · -- A right operand without depth is the deeper one only inside an exponent.
          have raises : operator = .pow := by
            refine Decidable.byContradiction fun unlike => ?_
            rw [chains unlike, flat] at rightDeeper
            exact Nat.not_lt_zero _ rightDeeper
          subst raises
          rw [power rfl, flat]
          exact .here nofun
        · have rightOpens : Place.Opens base _ after _ :=
            rightIH rightSpelled ⟨inner ++ .group start :: place.around, expected⟩ follows deeper
          refine .cons step ((rightOpens.append _).of_eq ?_)
          simp only [List.length_append, List.length_cons]
          omega
      · rw [Nat.max_eq_left leftDeeper]
        rcases Nat.eq_zero_or_pos left.depth with flat | deeper
        · rw [flat]
          exact .here (by simp [group])
        · have leftOpens : Place.Opens base _ before _ :=
            leftIH leftSpelled ⟨.group start :: place.around, .operand⟩ nofun deeper
          refine .cons (Place.next_free group) ((leftOpens.append _).of_eq ?_)
          rw [List.length_cons]
          omega

end Formula.Spelled

end Reckoner
