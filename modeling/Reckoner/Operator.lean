namespace Reckoner

inductive BinaryOp where
  | add
  | sub
  | mul
  | div
  | pow
deriving Repr, DecidableEq

namespace BinaryOp

def symbol : BinaryOp → Char
  | .add => '+'
  | .sub => '-'
  | .mul => '*'
  | .div => '/'
  | .pow => '^'

def ofChar? (character : Char) : Option BinaryOp :=
  [add, sub, mul, div, pow].find? (·.symbol == character)

def apply : BinaryOp → Float → Float → Float
  | .add, left, right => left + right
  | .sub, left, right => left - right
  | .mul, left, right => left * right
  | .div, left, right => left / right
  | .pow, base, exponent => Float.pow base exponent

theorem ofChar?_symbol (operator : BinaryOp) : ofChar? operator.symbol = some operator := by
  cases operator <;> rfl

end BinaryOp

inductive UnaryOp where
  | negate
  | ln
deriving Repr, DecidableEq

namespace UnaryOp

def symbol : UnaryOp → String
  | .negate => "-"
  | .ln => "log"

def apply : UnaryOp → Float → Float
  | .negate, value => -value
  | .ln, value => Float.log value

end UnaryOp

end Reckoner
