import Reckoner.Double.Shortest
import Reckoner.Operator

namespace Reckoner

inductive Token where
  | number (value : Float)
  | log
  | operator (sign : BinaryOp)
  | opening
  | closing
deriving DecidableEq

namespace Token

/-- The token as messages show it.  A number is shown by its value, not by the
digits that were typed. -/
def text : Token → String
  | .number value => String.ofList (Double.ofFloat value).text
  | .log => "log"
  | .operator sign => sign.symbol.toString
  | .opening => "("
  | .closing => ")"

def ofChar? (character : Char) : Option Token :=
  match character with
  | '(' => some .opening
  | ')' => some .closing
  | _ => (BinaryOp.ofChar? character).map .operator

/-- The operator that the token stands for between two operands. -/
def operator? : Token → Option BinaryOp
  | .operator sign => some sign
  | _ => none

theorem ofChar?_symbol (operator : BinaryOp) :
    ofChar? operator.symbol = some (.operator operator) := by
  cases operator <;> rfl

end Token

/-- A token at a byte position of the source. -/
structure Lexeme where
  token : Token
  position : Nat
deriving DecidableEq

end Reckoner
