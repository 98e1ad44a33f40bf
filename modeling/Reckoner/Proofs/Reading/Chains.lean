import Reckoner.Proofs.Reading.Grammar

namespace Reckoner.Derives

variable {nesting : Nesting} {depth position : Nat} {lexemes others : List Lexeme}
  {expr other : Expr}

/-- A chain is an operand of its tier, and more operands after the operators
that link them. -/
theorem chain_iff {tier : Tier} (chains : tier = .sum ∨ tier = .product) :
    Derives nesting tier depth lexemes expr ↔
      ∃ begun first, ∃ parts : List Part, lexemes = begun ++ parts.flatMap Part.spelling ∧
        expr = first.chained (parts.map Part.link) ∧
        Derives nesting tier.operands depth begun first ∧
        ∀ part ∈ parts, tier.links part.operator = true ∧
          Derives nesting tier.operands depth part.lexemes part.expr := by
  constructor
  · intro derives
    cases derives with
    | sum begins operators operands =>
        refine ⟨_, _, _, rfl, rfl, begins, fun part member => ⟨?_, operands part member⟩⟩
        rcases operators part member with same | same <;> rw [same] <;> rfl
    | product begins operators operands =>
        refine ⟨_, _, _, rfl, rfl, begins, fun part member => ⟨?_, operands part member⟩⟩
        rcases operators part member with same | same <;> rw [same] <;> rfl
    | number | group | negatedNumber | negatedGroup | base | power | negatedLogarithm | logarithm
    | plain => simp at chains
  · intro chain
    obtain ⟨begun, first, parts, rfl, rfl, begins, linked⟩ := chain
    rcases chains with rfl | rfl
    · exact .sum begins (fun part member => Tier.links_sum (linked part member).1)
        fun part member => (linked part member).2
    · exact .product begins (fun part member => Tier.links_product (linked part member).1)
        fun part member => (linked part member).2

theorem alone {tier : Tier} (chains : tier = .sum ∨ tier = .product)
    (operand : Derives nesting tier.operands depth lexemes expr) :
    Derives nesting tier depth lexemes expr :=
  (chain_iff chains).mpr ⟨lexemes, expr, [], by simp, rfl, operand, nofun⟩

theorem sum_of_product (product : Derives nesting .product depth lexemes expr) :
    Derives nesting .sum depth lexemes expr :=
  alone (.inl rfl) product

theorem sum_of_logarithm (logarithm : Derives nesting .logarithm depth lexemes expr) :
    Derives nesting .sum depth lexemes expr :=
  sum_of_product (alone (.inr rfl) logarithm)

theorem product_of_power (power : Derives nesting .power depth lexemes expr) :
    Derives nesting .product depth lexemes expr :=
  alone (.inr rfl) (.plain power)

theorem sum_of_primary (primary : Derives nesting .primary depth lexemes expr) :
    Derives nesting .sum depth lexemes expr :=
  sum_of_product (product_of_power (.base primary))

/-- A number is an expression of every tier. -/
theorem numeral (tier : Tier) (value : Float) (position : Nat) :
    Derives nesting tier depth [⟨.number value, position⟩] (.literal value position) := by
  cases tier with
  | sum => exact sum_of_primary .number
  | product => exact product_of_power (.base .number)
  | logarithm => exact .plain (.base .number)
  | power => exact .base .number
  | primary => exact .number

theorem chains_of_links {tier : Tier} {operator : BinaryOp}
    (links : tier.links operator = true) : tier = .sum ∨ tier = .product := by
  cases tier <;> simp [Tier.links] at links ⊢

theorem link {tier : Tier} {operator : BinaryOp} (links : tier.links operator = true)
    (left : Derives nesting tier.operands depth lexemes expr)
    (right : Derives nesting tier.operands depth others other) :
    Derives nesting tier depth (lexemes ++ ⟨.operator operator, position⟩ :: others)
      (.chain expr [⟨operator, position, other⟩]) :=
  (chain_iff (chains_of_links links)).mpr ⟨lexemes, expr, [⟨operator, position, others, other⟩],
    by simp [Part.spelling], rfl, left, List.forall_mem_singleton.mpr ⟨links, right⟩⟩

theorem reads_all {tier : Tier} (derives : Derives nesting tier depth lexemes expr) :
    Reads nesting (.expression tier) depth lexemes (.accepted expr []) := by
  have reads := derives.reads [] nofun
  rwa [List.append_nil] at reads

theorem of_read {tier : Tier} (compound : tier ≠ .primary) {rest : List Lexeme}
    (read : tier.read nesting depth lexemes = .accepted expr rest) :
    ∃ consumed, lexemes = consumed ++ rest ∧ Derives nesting tier depth consumed expr := by
  have reads : Reads nesting (.expression tier) depth lexemes (.accepted expr rest) :=
    reads_iff.mpr read
  have spelled := reads.spelled _ _ rfl
  cases tier with
  | primary => exact absurd rfl compound
  | sum | product | logarithm | power => exact spelled

theorem of_read_all {tier : Tier} (compound : tier ≠ .primary)
    (read : tier.read nesting depth lexemes = .accepted expr []) :
    Derives nesting tier depth lexemes expr := by
  obtain ⟨consumed, rfl, derives⟩ := of_read compound read
  rwa [List.append_nil]

theorem of_ofLexemes (spelled : Expr.ofLexemes lexemes = .ok expr) :
    Derives .standard .sum 0 lexemes expr := by
  cases lexemes with
  | nil => cases spelled
  | cons lexeme rest =>
      rw [Expr.ofLexemes_cons] at spelled
      exact .of_read_all (by decide) (Reading.whole_eq_ok.mp spelled)

end Reckoner.Derives
