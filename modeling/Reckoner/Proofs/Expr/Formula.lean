import Reckoner.Expr

namespace Reckoner

/-! Expressions as formulas.  A formula says which operations an expression
does on which numbers, and leaves out where they stand in the source and which
of them are written as one chain.  The text and the value of an expression
depend on its formula only.
-/

inductive Formula where
  | literal (value : Float)
  | unary (operator : UnaryOp) (operand : Formula)
  | binary (operator : BinaryOp) (left right : Formula)
deriving DecidableEq

namespace Formula

def text : Formula → List Char
  | .literal value => (Double.ofFloat value).text
  | .unary operator operand => '(' :: (operator.symbol.toList ++ ' ' :: (operand.text ++ [')']))
  | .binary operator left right =>
      '(' :: (left.text ++ ' ' :: operator.symbol :: ' ' :: (right.text ++ [')']))

def eval : Formula → Float
  | .literal value => value
  | .unary operator operand => operator.apply operand.eval
  | .binary operator left right => operator.apply left.eval right.eval

def literals : Formula → List Float
  | .literal value => [value]
  | .unary _ operand => operand.literals
  | .binary _ left right => left.literals ++ right.literals

/-- The expression of the formula that has no longer chain than a single
operation, and no positions. -/
def expr : Formula → Expr
  | .literal value => .literal value 0
  | .unary operator operand => .unary operator 0 operand.expr
  | .binary .pow left right => .binary .pow 0 left.expr right.expr
  | .binary operator left right => .chain left.expr [⟨operator, 0, right.expr⟩]

end Formula

namespace Expr

mutual

def formula : Expr → Formula
  | .literal value _ => .literal value
  | .unary operator _ operand => .unary operator operand.formula
  | .binary operator _ left right => .binary operator left.formula right.formula
  | .chain first links => linksFormula first.formula links

/-- Each link takes the formula of what is before it as its left operand. -/
def linksFormula (before : Formula) : List (Link Expr) → Formula
  | [] => before
  | ⟨operator, _, operand⟩ :: links =>
      linksFormula (.binary operator before operand.formula) links

end

mutual

/-- The expression without its positions. -/
def unplaced : Expr → Expr
  | .literal value _ => .literal value 0
  | .unary operator _ operand => .unary operator 0 operand.unplaced
  | .binary operator _ left right => .binary operator 0 left.unplaced right.unplaced
  | .chain first links => .chain first.unplaced (unplacedLinks links)

def unplacedLinks : List (Link Expr) → List (Link Expr)
  | [] => []
  | ⟨operator, _, operand⟩ :: links => ⟨operator, 0, operand.unplaced⟩ :: unplacedLinks links

end

mutual

theorem text_eq_formula : ∀ expr : Expr, expr.text.toList = expr.formula.text
  | .literal value _ => by simp [text, formula, Formula.text]
  | .unary operator _ operand => by
      have same := text_eq_formula operand
      simp [text, formula, Formula.text, same]
  | .binary operator _ left right => by
      have same := text_eq_formula left
      have other := text_eq_formula right
      simp [text, formula, Formula.text, same, other]
  | .chain first links => by
      have same := text_eq_formula first
      rw [text, formula]
      refine linksText_eq_formula links _ _ ?_
      simp [same]

theorem linksText_eq_formula : ∀ (links : List (Link Expr)) (before : String) (operand : Formula),
    before.toList = List.replicate links.length '(' ++ operand.text →
    (linksText before links).toList = (linksFormula operand links).text
  | [], before, operand, spelled => by
      simpa [linksText, linksFormula] using spelled
  | ⟨operator, _, operand⟩ :: links, before, first, spelled => by
      have same := text_eq_formula operand
      rw [linksText, linksFormula]
      refine linksText_eq_formula links _ _ ?_
      simp [spelled, same, Formula.text, List.replicate_succ']

end

mutual

theorem eval_eq_formula : ∀ expr : Expr, expr.eval = expr.formula.eval
  | .literal value _ => rfl
  | .unary operator _ operand => by
      rw [eval, formula, Formula.eval, eval_eq_formula operand]
  | .binary operator _ left right => by
      rw [eval, formula, Formula.eval, eval_eq_formula left, eval_eq_formula right]
  | .chain first links => by
      rw [eval, formula, eval_eq_formula first]
      exact evalLinks_eq_formula links _

theorem evalLinks_eq_formula : ∀ (links : List (Link Expr)) (before : Formula),
    evalLinks before.eval links = (linksFormula before links).eval
  | [], _ => rfl
  | ⟨operator, _, operand⟩ :: links, before => by
      rw [evalLinks, linksFormula, eval_eq_formula operand]
      exact evalLinks_eq_formula links (.binary operator before operand.formula)

end

mutual

theorem formula_unplaced : ∀ expr : Expr, expr.unplaced.formula = expr.formula
  | .literal value _ => rfl
  | .unary operator _ operand => by
      rw [unplaced, formula, formula, formula_unplaced operand]
  | .binary operator _ left right => by
      rw [unplaced, formula, formula, formula_unplaced left, formula_unplaced right]
  | .chain first links => by
      rw [unplaced, formula, formula_unplaced first]
      exact linksFormula_unplaced links _

theorem linksFormula_unplaced : ∀ (links : List (Link Expr)) (before : Formula),
    linksFormula before (unplacedLinks links) = linksFormula before links
  | [], _ => rfl
  | ⟨operator, _, operand⟩ :: links, before => by
      rw [unplacedLinks, linksFormula, linksFormula, formula_unplaced operand]
      exact linksFormula_unplaced links _

end

end Expr

namespace Formula

theorem formula_expr (formula : Formula) : formula.expr.formula = formula := by
  induction formula with
  | literal value => rfl
  | unary operator operand ih => simp only [expr, Expr.formula, ih]
  | binary operator left right leftIH rightIH =>
      cases operator <;>
        simp only [expr, Expr.formula, Expr.linksFormula, leftIH, rightIH]

end Formula

end Reckoner
