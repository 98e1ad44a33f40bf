import Reckoner.Expr.Reading
import Reckoner.Lexeme

namespace Reckoner

/-- Evaluates a source and records every phase that succeeds. -/
def evaluating (separator : Separator) (source : String) : Logged (Except EvalError Float) := do
  match ← tokenizing separator source with
  | .error error => return .error (.lex error)
  | .ok lexemes =>
      match ← Expr.parsing lexemes with
      | .error error => return .error (.parse error)
      | .ok expr =>
          let value := expr.eval
          Logged.leave (.evaluated source value)
          return .ok value

def evaluate (separator : Separator) (source : String) : Except EvalError Float :=
  (evaluating separator source).result

section

variable {separator : Separator} {source : String} {lexemes : List Lexeme}

theorem evaluating_of_lexError {error : LexError}
    (rejected : tokenize separator source = .error error) :
    evaluating separator source = ⟨[], .error (.lex error)⟩ := by
  rw [evaluating, tokenizing_of_error rejected]
  rfl

theorem evaluating_of_parseError {error : ParseError}
    (scanned : tokenize separator source = .ok lexemes)
    (rejected : Expr.ofLexemes lexemes = .error error) :
    evaluating separator source = ⟨[.lexed source lexemes.length], .error (.parse error)⟩ := by
  rw [evaluating, tokenizing_of_ok scanned]
  dsimp only [bind]
  rw [Expr.parsing_of_error rejected]
  rfl

theorem evaluating_of_expr {expr : Expr} (scanned : tokenize separator source = .ok lexemes)
    (spelled : Expr.ofLexemes lexemes = .ok expr) :
    evaluating separator source =
      ⟨[.lexed source lexemes.length, .parsed expr, .evaluated source expr.eval],
        .ok expr.eval⟩ := by
  rw [evaluating, tokenizing_of_ok scanned]
  dsimp only [bind]
  rw [Expr.parsing_of_ok spelled]
  rfl

end

theorem evaluate_def (separator : Separator) (source : String) :
    evaluate separator source =
      match tokenize separator source with
      | .error error => .error (.lex error)
      | .ok lexemes =>
          match Expr.ofLexemes lexemes with
          | .error error => .error (.parse error)
          | .ok expr => .ok expr.eval := by
  unfold evaluate
  cases scanned : tokenize separator source with
  | error error => rw [evaluating_of_lexError scanned]
  | ok lexemes =>
      cases spelled : Expr.ofLexemes lexemes with
      | error error => simp only [evaluating_of_parseError scanned spelled, spelled]
      | ok expr => simp only [evaluating_of_expr scanned spelled, spelled]

end Reckoner
