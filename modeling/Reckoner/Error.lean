import Reckoner.Token

namespace Reckoner

/-- Why a source has no lexemes.  Positions are byte offsets into it. -/
inductive LexError where
  | unexpectedCharacter (character : Char) (position : Nat)
  | malformedNumber (literal : String) (position : Nat)
deriving DecidableEq

/-- Why lexemes are no expression. -/
inductive ParseError where
  | unexpectedToken (lexeme : Lexeme)
  | unexpectedEnd
  | unclosedGroup (position : Nat)
  | trailingToken (lexeme : Lexeme)
  | nestingTooDeep (position : Nat)
  | emptyExpression
deriving DecidableEq

inductive EvalError where
  | lex (error : LexError)
  | parse (error : ParseError)
deriving DecidableEq

def messageAt (position : Nat) (reason : String) : String :=
  "Error at position " ++ toString position ++ ": " ++ reason

namespace LexError

def position : LexError → Nat
  | .unexpectedCharacter _ position => position
  | .malformedNumber _ position => position

def reason : LexError → String
  | .unexpectedCharacter character _ => "Unexpected character '" ++ character.toString ++ "'."
  | .malformedNumber literal _ => "Malformed number '" ++ literal ++ "'."

def message (error : LexError) : String :=
  messageAt error.position error.reason

end LexError

namespace ParseError

/-- Where the error is; the end of the source is no place in it. -/
def position? : ParseError → Option Nat
  | .unexpectedToken lexeme => some lexeme.position
  | .unexpectedEnd => none
  | .unclosedGroup position => some position
  | .trailingToken lexeme => some lexeme.position
  | .nestingTooDeep position => some position
  | .emptyExpression => none

def reason : ParseError → String
  | .unexpectedToken lexeme => "Unexpected token: " ++ lexeme.token.text ++ "."
  | .unexpectedEnd => "Unexpected end of input."
  | .unclosedGroup _ => "Expected closing parenthesis ')' for this '(' but none found."
  | .trailingToken lexeme =>
      "Extra tokens after expression, starting with: " ++ lexeme.token.text ++ "."
  | .nestingTooDeep _ => "Expression is nested too deeply."
  | .emptyExpression => "Empty expression."

def message (error : ParseError) : String :=
  match error.position? with
  | some position => messageAt position error.reason
  | none => "Error: " ++ error.reason

end ParseError

namespace EvalError

def position? : EvalError → Option Nat
  | .lex error => some error.position
  | .parse error => error.position?

def message : EvalError → String
  | .lex error => error.message
  | .parse error => error.message

end EvalError

end Reckoner
