import Reckoner.Proofs.Expr.Height
import Reckoner.Proofs.Reading.Chains

namespace Reckoner

/-- Chains are not empty and of one tier, and all other operations on two operands
are powers, throughout the expression. -/
inductive Expr.Regular : Expr → Prop where
  | literal {value position} : Regular (.literal value position)
  | unary {operator position operand} (inside : Regular operand) :
      Regular (.unary operator position operand)
  | power {position base exponent} (raised : Regular base) (power : Regular exponent) :
      Regular (.binary .pow position base exponent)
  | chain {first links} (linked : links ≠ [])
      (alike : (∀ link ∈ links, link.operator = .add ∨ link.operator = .sub) ∨
        ∀ link ∈ links, link.operator = .mul ∨ link.operator = .div)
      (begins : Regular first) (operands : ∀ link ∈ links, Regular link.operand) :
      Regular (.chain first links)

theorem Expr.Regular.chained {first : Expr} {links : List (Link Expr)}
    (alike : (∀ link ∈ links, link.operator = .add ∨ link.operator = .sub) ∨
      ∀ link ∈ links, link.operator = .mul ∨ link.operator = .div)
    (begins : first.Regular) (operands : ∀ link ∈ links, link.operand.Regular) :
    (first.chained links).Regular := by
  cases links with
  | nil => exact begins
  | cons link links => exact .chain (List.cons_ne_nil link links) alike begins operands

/-- The greatest height at a tier with so many levels left to open. -/
def Tier.tallest : Tier → Nat → Nat
  | .sum, levels => 3 * levels + 3
  | .product, levels => 3 * levels + 2
  | .logarithm, levels | .power, levels => 3 * levels + 1
  | .primary, levels => max 1 (3 * levels)

namespace Derives

variable {nesting : Nesting} {tier : Tier} {bound depth : Nat} {lexemes : List Lexeme} {expr : Expr}

theorem regular (derives : Derives nesting tier depth lexemes expr) : expr.Regular := by
  induction derives with
  | number => exact .literal
  | group _ _ content => exact content
  | negatedNumber => exact .unary .literal
  | negatedGroup _ _ content => exact .unary content
  | base _ primary => exact primary
  | power _ _ _ raised power => exact .power raised power
  | negatedLogarithm _ _ argument => exact .unary (.unary argument)
  | logarithm _ _ argument => exact .unary argument
  | plain _ power => exact power
  | product _ operators _ begins operands =>
      refine .chained (.inr ?_) begins ?_
      · exact List.forall_mem_map.mpr operators
      · exact List.forall_mem_map.mpr operands
  | sum _ operators _ begins operands =>
      refine .chained (.inl ?_) begins ?_
      · exact List.forall_mem_map.mpr operators
      · exact List.forall_mem_map.mpr operands

theorem height_le (derives : Derives (some bound) tier depth lexemes expr) :
    expr.height ≤ tier.tallest (bound - depth) := by
  -- A group adds no node, so its levels are those of the content; every other
  -- construct adds at most a power, and the chains around it a node each.
  induction derives with
  | number => exact Nat.le_max_left _ _
  | group admitted _ content =>
      have below := of_decide_eq_true admitted
      simp only [Tier.tallest] at content ⊢
      omega
  | negatedNumber admitted =>
      have below := of_decide_eq_true admitted
      simp only [Tier.tallest, Expr.height]
      omega
  | negatedGroup admitted _ content =>
      have below := of_decide_eq_true admitted
      simp only [Tier.tallest, Expr.height] at content ⊢
      omega
  | base _ primary =>
      simp only [Tier.tallest] at primary ⊢
      omega
  | power admitted _ _ raised power =>
      have below := of_decide_eq_true admitted
      simp only [Tier.tallest, Expr.height] at raised power ⊢
      omega
  | negatedLogarithm admitted _ argument =>
      have below := of_decide_eq_true admitted
      simp only [Tier.tallest, Expr.height] at argument ⊢
      omega
  | logarithm admitted _ argument =>
      have below := of_decide_eq_true admitted
      simp only [Tier.tallest, Expr.height] at argument ⊢
      omega
  | plain _ power => exact power
  | product _ _ _ begins operands | sum _ _ _ begins operands =>
      exact Expr.height_chained_le begins (List.forall_mem_map.mpr operands)

/-- One more operation of a tier around an operand of it. -/
theorem exists_taller {operator : BinaryOp} (links : tier.links operator = true)
    (operand : Derives nesting tier.operands depth lexemes expr) :
    ∃ others other, Derives nesting tier depth others other ∧ other.height = expr.height + 1 := by
  have taller : Derives nesting tier depth
      (lexemes ++ [⟨.operator operator, 0⟩, ⟨.number 1, 0⟩])
      (.chain expr [⟨operator, 0, .literal 1 0⟩]) := .link links operand (.numeral _ 1 0)
  have positive := expr.height_pos
  refine ⟨_, _, taller, ?_⟩
  simp only [Expr.height, Expr.linksHeight]
  omega

theorem exists_taller_chains (power : Derives nesting .power depth lexemes expr) :
    (∃ others product, Derives nesting .product depth others product ∧
      product.height = expr.height + 1) ∧
    ∃ others sum, Derives nesting .sum depth others sum ∧ sum.height = expr.height + 2 := by
  obtain ⟨factors, product, derives, height⟩ :=
    exists_taller (rfl : Tier.product.links .mul = true) (.plain power)
  obtain ⟨terms, sum, derives', height'⟩ :=
    exists_taller (rfl : Tier.sum.links .add = true) derives
  exact ⟨⟨factors, product, derives, height⟩, terms, sum, derives', by rw [height', height]⟩

/-- With `count` levels left: a power of a sum of a product of the like with one
level fewer. -/
theorem exists_tallest_power (count : Nat) (room : count ≤ bound - depth) :
    ∃ lexemes expr, Derives (some bound) .power depth lexemes expr ∧
      expr.height = 3 * count + 1 := by
  induction count generalizing depth with
  | zero => exact ⟨[⟨.number 1, 0⟩], .literal 1 0, .numeral _ 1 0, rfl⟩
  | succ count ih =>
      obtain ⟨_, _, inner, innerHeight⟩ := ih (show count ≤ bound - (depth + 1) by omega)
      obtain ⟨_, terms, sum, derives, height⟩ := exists_taller_chains inner
      have admitted : Nesting.admits (some bound) depth = true :=
        decide_eq_true (show depth < bound by omega)
      have power : Derives (some bound) .power depth
          (⟨.opening, 0⟩ :: (terms ++ [⟨.closing, 0⟩]) ++ [⟨.operator .pow, 0⟩, ⟨.number 1, 0⟩])
          (.binary .pow 0 sum (.literal 1 0)) :=
        .power admitted (.group admitted derives) (.numeral _ 1 0)
      refine ⟨_, _, power, ?_⟩
      simp only [Expr.height]
      omega

theorem exists_tallest (compound : tier ≠ .primary) (bound depth : Nat) :
    ∃ lexemes expr, Derives (some bound) tier depth lexemes expr ∧
      expr.height = tier.tallest (bound - depth) := by
  obtain ⟨lexemes, expr, power, height⟩ := exists_tallest_power (bound - depth) (Nat.le_refl _)
  obtain ⟨product, sum⟩ := exists_taller_chains power
  rw [height] at product sum
  cases tier with
  | sum => exact sum
  | product => exact product
  | logarithm => exact ⟨lexemes, expr, .plain power, height⟩
  | power => exact ⟨lexemes, expr, power, height⟩
  | primary => exact absurd rfl compound

end Derives

/-- With any bound on the nesting, 128 among them, the readers above the primary
tier accept regular expressions, no higher than goes with the levels that are left
to open, and some as high as that.  The expression of a list of lexemes is
evaluated with at most 387 evaluations inside one another, and there is one that
takes so many. -/
theorem Expr.regular_height_of_read :
    (∀ bound tier depth lexemes expr rest, tier ≠ .primary →
      Tier.read (some bound) tier depth lexemes = .accepted expr rest →
        expr.Regular ∧ expr.height ≤ tier.tallest (bound - min depth bound)) ∧
    (∀ bound tier depth, tier ≠ .primary →
      ∃ lexemes expr, Tier.read (some bound) tier depth lexemes = .accepted expr [] ∧
        expr.height = tier.tallest (bound - min depth bound)) ∧
    (∀ lexemes expr, ofLexemes lexemes = .ok expr →
      expr.Regular ∧ expr.height ≤ 387 ∧ expr.evalWithin 387 = some expr.eval) ∧
    ∃ lexemes expr, ofLexemes lexemes = .ok expr ∧ expr.height = 387 ∧
      expr.evalWithin 386 = none := by
  have levels : ∀ bound depth : Nat, bound - min depth bound = bound - depth := by
    intro bound depth
    omega
  simp only [levels]
  refine ⟨?_, ?_, ?_, ?_⟩
  · intro bound tier depth lexemes expr rest compound read
    obtain ⟨consumed, rfl, derives⟩ := Derives.of_read compound read
    exact ⟨derives.regular, derives.height_le⟩
  · intro bound tier depth compound
    obtain ⟨lexemes, expr, derives, height⟩ := Derives.exists_tallest compound bound depth
    exact ⟨lexemes, expr, derives.reads_all.read_eq, height⟩
  · intro lexemes expr spelled
    have derives := Derives.of_ofLexemes spelled
    have low : expr.height ≤ 387 := derives.height_le
    refine ⟨derives.regular, low, ?_⟩
    rw [evalWithin_eq, if_pos low]
  · have compound : Tier.sum ≠ .primary := by decide
    obtain ⟨lexemes, expr, derives, height⟩ := Derives.exists_tallest compound 128 0
    have high : ¬ expr.height ≤ 386 := by
      rw [height]
      decide
    refine ⟨lexemes, expr, ofLexemes_of_accepted derives.reads_all, height, ?_⟩
    rw [evalWithin_eq, if_neg high]

/-- `(2*3+5)^4` inside 127 constructs leaves nothing to open, and is as high as it
may be. -/
theorem Expr.regular_height_of_power_of_sum :
    ∃ expr, Tier.read .standard .power 127 [⟨.opening, 0⟩, ⟨.number 2, 1⟩, ⟨.operator .mul, 2⟩,
        ⟨.number 3, 3⟩, ⟨.operator .add, 4⟩, ⟨.number 5, 5⟩, ⟨.closing, 6⟩, ⟨.operator .pow, 7⟩,
        ⟨.number 4, 8⟩] = .accepted expr [] ∧
      expr.Regular ∧ expr.height ≤ 4 ∧ 4 ≤ expr.height := by
  have product : Derives .standard .product 128
      [⟨.number 2, 1⟩, ⟨.operator .mul, 2⟩, ⟨.number 3, 3⟩] _ :=
    .link (rfl : Tier.product.links .mul = true) (.numeral _ 2 1) (.numeral _ 3 3)
  have sum : Derives .standard .sum 128 [⟨.number 2, 1⟩, ⟨.operator .mul, 2⟩, ⟨.number 3, 3⟩,
      ⟨.operator .add, 4⟩, ⟨.number 5, 5⟩] _ :=
    .link (rfl : Tier.sum.links .add = true) product (.numeral _ 5 5)
  have power : Derives .standard .power 127 [⟨.opening, 0⟩, ⟨.number 2, 1⟩, ⟨.operator .mul, 2⟩,
      ⟨.number 3, 3⟩, ⟨.operator .add, 4⟩, ⟨.number 5, 5⟩, ⟨.closing, 6⟩, ⟨.operator .pow, 7⟩,
      ⟨.number 4, 8⟩] _ :=
    .power rfl (.group rfl sum) (.numeral _ 4 8)
  have read := power.reads_all.read_eq
  obtain ⟨regular, height⟩ :=
    Expr.regular_height_of_read.1 128 .power 127 _ _ [] (by decide) read
  exact ⟨_, read, regular, height, by decide⟩

end Reckoner
