import Reckoner.Token

namespace Reckoner

/-! Expressions, their text and their value.  A run of operators that associate
to the left is one flat chain, so a long sum is no deeper than a short one. -/

structure Link (α : Type) where
  operator : BinaryOp
  position : Nat
  operand : α

inductive Expr where
  | literal (value : Float) (position : Nat)
  | unary (operator : UnaryOp) (position : Nat) (operand : Expr)
  | binary (operator : BinaryOp) (position : Nat) (left right : Expr)
  | chain (first : Expr) (links : List (Link Expr))

namespace Expr

/-- The position of a literal or of the operator applied; in a chain, of the
first operator. -/
def position : Expr → Nat
  | .literal _ position => position
  | .unary _ position _ => position
  | .binary _ position _ _ => position
  | .chain first [] => first.position
  | .chain _ (link :: _) => link.position

/-- A chain, unless there is nothing to chain. -/
def chained (first : Expr) : List (Link Expr) → Expr
  | [] => first
  | links => .chain first links

mutual

/-- The expression with every operation in parentheses. -/
def text : Expr → String
  | .literal value _ => String.ofList (Double.ofFloat value).text
  | .unary operator _ operand => "(" ++ operator.symbol ++ " " ++ operand.text ++ ")"
  | .binary operator _ left right =>
      "(" ++ left.text ++ " " ++ operator.symbol.toString ++ " " ++ right.text ++ ")"
  | .chain first links =>
      linksText (String.ofList (List.replicate links.length '(') ++ first.text) links

/-- Continues the text of the operands so far; each link closes one group. -/
def linksText (before : String) : List (Link Expr) → String
  | [] => before
  | ⟨operator, _, operand⟩ :: links =>
      linksText (before ++ " " ++ operator.symbol.toString ++ " " ++ operand.text ++ ")") links

end

mutual

def eval : Expr → Float
  | .literal value _ => value
  | .unary operator _ operand => operator.apply operand.eval
  | .binary operator _ left right => operator.apply left.eval right.eval
  | .chain first links => evalLinks first.eval links

def evalLinks (value : Float) : List (Link Expr) → Float
  | [] => value
  | ⟨operator, _, operand⟩ :: links => evalLinks (operator.apply value operand.eval) links

end

end Expr

end Reckoner
