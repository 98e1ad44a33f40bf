import Reckoner.Proofs.Reading.Chains

namespace Reckoner

/-- The grammar at the standard nesting, with its bound written out, and with a chain
only where there is an operator. -/
inductive DerivesStandard : Tier → Nat → List Lexeme → Expr → Prop where
  | number {depth value position} :
      DerivesStandard .primary depth [⟨.number value, position⟩] (.literal value position)
  | group {depth start stop lexemes expr} (room : depth + 1 ≤ 128)
      (content : DerivesStandard .sum (depth + 1) lexemes expr) :
      DerivesStandard .primary depth (⟨.opening, start⟩ :: (lexemes ++ [⟨.closing, stop⟩])) expr
  | negatedNumber {depth position value place} (room : depth + 1 ≤ 128) :
      DerivesStandard .primary depth [⟨.operator .sub, position⟩, ⟨.number value, place⟩]
        (.unary .negate position (.literal value place))
  | negatedGroup {depth position start stop lexemes expr} (room : depth + 2 ≤ 128)
      (content : DerivesStandard .sum (depth + 2) lexemes expr) :
      DerivesStandard .primary depth
        (⟨.operator .sub, position⟩ :: ⟨.opening, start⟩ :: (lexemes ++ [⟨.closing, stop⟩]))
        (.unary .negate position expr)
  | base {depth lexemes expr} (primary : DerivesStandard .primary depth lexemes expr) :
      DerivesStandard .power depth lexemes expr
  | power {depth position left right base exponent} (room : depth + 1 ≤ 128)
      (raised : DerivesStandard .primary depth left base)
      (power : DerivesStandard .power (depth + 1) right exponent) :
      DerivesStandard .power depth (left ++ ⟨.operator .pow, position⟩ :: right)
        (.binary .pow position base exponent)
  | negatedLogarithm {depth position place lexemes expr} (room : depth + 2 ≤ 128)
      (argument : DerivesStandard .power (depth + 2) lexemes expr) :
      DerivesStandard .power depth (⟨.operator .sub, position⟩ :: ⟨.log, place⟩ :: lexemes)
        (.unary .negate position (.unary .ln place expr))
  | logarithm {depth position lexemes expr} (room : depth + 1 ≤ 128)
      (argument : DerivesStandard .power (depth + 1) lexemes expr) :
      DerivesStandard .logarithm depth (⟨.log, position⟩ :: lexemes) (.unary .ln position expr)
  | plain {depth lexemes expr} (power : DerivesStandard .power depth lexemes expr) :
      DerivesStandard .logarithm depth lexemes expr
  | factor {depth lexemes expr} (alone : DerivesStandard .logarithm depth lexemes expr) :
      DerivesStandard .product depth lexemes expr
  | product {depth lexemes first part} {parts : List Part}
      (begins : DerivesStandard .logarithm depth lexemes first)
      (operators : ∀ next ∈ part :: parts, next.operator = .mul ∨ next.operator = .div)
      (operands : ∀ next ∈ part :: parts, DerivesStandard .logarithm depth next.lexemes next.expr) :
      DerivesStandard .product depth (lexemes ++ (part :: parts).flatMap Part.spelling)
        (.chain first ((part :: parts).map Part.link))
  | term {depth lexemes expr} (alone : DerivesStandard .product depth lexemes expr) :
      DerivesStandard .sum depth lexemes expr
  | sum {depth lexemes first part} {parts : List Part}
      (begins : DerivesStandard .product depth lexemes first)
      (operators : ∀ next ∈ part :: parts, next.operator = .add ∨ next.operator = .sub)
      (operands : ∀ next ∈ part :: parts, DerivesStandard .product depth next.lexemes next.expr) :
      DerivesStandard .sum depth (lexemes ++ (part :: parts).flatMap Part.spelling)
        (.chain first ((part :: parts).map Part.link))

theorem Nesting.admits_standard {depth : Nat} :
    Nesting.standard.admits depth = true ↔ depth + 1 ≤ 128 :=
  decide_eq_true_iff

theorem derivesStandard_iff {tier : Tier} {depth : Nat} {lexemes : List Lexeme} {expr : Expr} :
    DerivesStandard tier depth lexemes expr ↔ Derives .standard tier depth lexemes expr := by
  constructor
  · intro spells
    induction spells with
    | number => exact .number
    | group room _ content => exact .group (Nesting.admits_standard.mpr room) content
    | negatedNumber room => exact .negatedNumber (Nesting.admits_standard.mpr room)
    | negatedGroup room _ content =>
        exact .negatedGroup (Nesting.admits_standard.mpr room) content
    | base _ primary => exact .base primary
    | power room _ _ raised power => exact .power (Nesting.admits_standard.mpr room) raised power
    | negatedLogarithm room _ argument =>
        exact .negatedLogarithm (Nesting.admits_standard.mpr room) argument
    | logarithm room _ argument => exact .logarithm (Nesting.admits_standard.mpr room) argument
    | plain _ power => exact .plain power
    | factor _ alone => exact .alone (.inr rfl) alone
    | product _ operators _ begins operands => exact .product begins operators operands
    | term _ alone => exact .alone (.inl rfl) alone
    | sum _ operators _ begins operands => exact .sum begins operators operands
  · intro derives
    induction derives with
    | number => exact .number
    | group admitted _ content => exact .group (Nesting.admits_standard.mp admitted) content
    | negatedNumber admitted => exact .negatedNumber (Nesting.admits_standard.mp admitted)
    | negatedGroup admitted _ content =>
        exact .negatedGroup (Nesting.admits_standard.mp admitted) content
    | base _ primary => exact .base primary
    | power admitted _ _ raised power =>
        exact .power (Nesting.admits_standard.mp admitted) raised power
    | negatedLogarithm admitted _ argument =>
        exact .negatedLogarithm (Nesting.admits_standard.mp admitted) argument
    | logarithm admitted _ argument =>
        exact .logarithm (Nesting.admits_standard.mp admitted) argument
    | plain _ power => exact .plain power
    | @product depth lexemes first parts _ operators _ begins operands =>
        cases parts with
        | nil => exact (List.append_nil lexemes).symm ▸ .factor begins
        | cons part parts => exact .product begins operators operands
    | @sum depth lexemes first parts _ operators _ begins operands =>
        cases parts with
        | nil => exact (List.append_nil lexemes).symm ▸ .term begins
        | cons part parts => exact .sum begins operators operands

theorem Tier.read_eq_accepted_iff_derives {nesting : Nesting} {tier : Tier}
    (compound : tier ≠ .primary) {depth : Nat} {lexemes rest : List Lexeme} {expr : Expr} :
    Tier.read nesting tier depth lexemes = .accepted expr rest ↔
      ∃ consumed, lexemes = consumed ++ rest ∧ Derives nesting tier depth consumed expr ∧
        tier.EndsBefore rest := by
  constructor
  · intro accepted
    have reads : Reads nesting (.expression tier) depth lexemes (.accepted expr rest) :=
      reads_iff.mpr accepted
    obtain ⟨consumed, same, derives⟩ := Derives.of_read compound accepted
    exact ⟨consumed, same, derives, reads.ends _ _ rfl⟩
  · intro spelled
    obtain ⟨consumed, rfl, derives, ended⟩ := spelled
    exact (derives.reads rest ended).read_eq

/-- Above the primary tier, a reader accepts an expression and leaves the rest
exactly if the grammar derives the expression from what stands before the rest
and the rest does not start with an operator that carries it on. -/
theorem Tier.read_eq_accepted_iff (nesting : Nesting) (tier : Tier) (compound : tier ≠ .primary)
    (depth : Nat) (lexemes rest : List Lexeme) (expr : Expr) :
    (Tier.read nesting tier depth lexemes = .accepted expr rest ↔
      ∃ consumed, lexemes = consumed ++ rest ∧ Derives nesting tier depth consumed expr ∧
        tier.EndsBefore rest) ∧
    (Tier.read .standard tier depth lexemes = .accepted expr rest ↔
      ∃ consumed, lexemes = consumed ++ rest ∧ DerivesStandard tier depth consumed expr ∧
        tier.EndsBefore rest) := by
  simp only [derivesStandard_iff]
  exact ⟨read_eq_accepted_iff_derives compound, read_eq_accepted_iff_derives compound⟩

/-- `-log2^3*4/5+1`, read as a product: the minus sign takes the logarithm, the
logarithm takes the power, both operators link to one chain, and the sum is left. -/
theorem Tier.read_negated_logarithm_of_power :
    Tier.product ≠ .primary ∧
      Tier.read .standard .product 0
        [⟨.operator .sub, 0⟩, ⟨.log, 1⟩, ⟨.number 2, 4⟩, ⟨.operator .pow, 5⟩, ⟨.number 3, 6⟩,
          ⟨.operator .mul, 7⟩, ⟨.number 4, 8⟩, ⟨.operator .div, 9⟩, ⟨.number 5, 10⟩,
          ⟨.operator .add, 11⟩, ⟨.number 1, 12⟩] =
        .accepted
          (.chain
            (.unary .negate 0
              (.unary .ln 1 (.binary .pow 5 (.literal 2 4) (.literal 3 6))))
            [⟨.mul, 7, .literal 4 8⟩, ⟨.div, 9, .literal 5 10⟩])
          [⟨.operator .add, 11⟩, ⟨.number 1, 12⟩] := by
  have begins : DerivesStandard .logarithm 0
      [⟨.operator .sub, 0⟩, ⟨.log, 1⟩, ⟨.number 2, 4⟩, ⟨.operator .pow, 5⟩, ⟨.number 3, 6⟩]
      (.unary .negate 0 (.unary .ln 1 (.binary .pow 5 (.literal 2 4) (.literal 3 6)))) :=
    .plain (.negatedLogarithm (by decide) (.power (by decide) .number (.base .number)))
  have operators : ∀ part ∈ ([⟨.mul, 7, [⟨.number 4, 8⟩], .literal 4 8⟩,
      ⟨.div, 9, [⟨.number 5, 10⟩], .literal 5 10⟩] : List Part),
      part.operator = .mul ∨ part.operator = .div := by simp
  refine ⟨by decide, (Tier.read_eq_accepted_iff .standard .product (by decide) _ _ _ _).2.mpr
    ⟨_, ?_, .product begins operators ?_, ?_⟩⟩
  · rfl
  · intro part member
    simp only [List.mem_cons, List.not_mem_nil, or_false] at member
    rcases member with rfl | rfl <;> exact .plain (.base .number)
  · intro operator position rest same
    cases same
    rfl

end Reckoner
