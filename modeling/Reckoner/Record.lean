import Reckoner.Error
import Reckoner.Expr
import Reckoner.Settings
import Reckoner.Text.Quoted

namespace Reckoner

/-! The records that the program leaves behind: what was read at every phase that
succeeded, why an answer is a rejection, and where a session starts and finishes.
What leaves records returns them with its result. -/

inductive Level where
  | trace
  | debug
  | info
deriving Repr, DecidableEq

inductive Origin where
  | lexing
  | parsing
  | evaluation
  | session
deriving Repr, DecidableEq

inductive Record where
  | lexed (source : String) (count : Nat)
  | parsed (expr : Expr)
  | evaluated (source : String) (value : Float)
  | rejected (error : EvalError)
  | started (settings : Settings)
  | finished

namespace Record

def level : Record → Level
  | .lexed _ _ | .parsed _ | .evaluated _ _ => .trace
  | .rejected _ => .debug
  | .started _ | .finished => .info

def origin : Record → Origin
  | .lexed _ _ => .lexing
  | .parsed _ => .parsing
  | .evaluated _ _ => .evaluation
  | .rejected _ | .started _ | .finished => .session

def message : Record → String
  | .lexed source count => "lexed " ++ toString count ++ " tokens from " ++ Text.quoted source
  | .parsed expr => "parsed " ++ expr.text
  | .evaluated source value =>
      Text.quoted source ++ " = " ++ String.ofList (Double.ofFloat value).text
  | .rejected error => "rejected expression: " ++ error.message
  | .started settings => "starting session with " ++ settings.description
  | .finished => "session finished"

end Record

/-- What something comes to, and the records it leaves on the way. -/
structure Logged (α : Type) where
  records : List Record
  result : α

namespace Logged

instance : Monad Logged where
  pure value := ⟨[], value⟩
  bind step next := ⟨step.records ++ (next step.result).records, (next step.result).result⟩

def leave (record : Record) : Logged Unit :=
  ⟨[record], ()⟩

/-- A result that leaves a record, unless it is an error. -/
def noting {ε α : Type} (record : α → Record) (result : Except ε α) : Logged (Except ε α) :=
  ⟨match result with
    | .ok value => [record value]
    | .error _ => [], result⟩

variable {ε α : Type}

theorem noting_of_ok {record : α → Record} {result : Except ε α} {value : α}
    (succeeds : result = .ok value) : noting record result = ⟨[record value], .ok value⟩ := by
  rw [succeeds, noting]

theorem noting_of_error {record : α → Record} {result : Except ε α} {error : ε}
    (fails : result = .error error) : noting record result = ⟨[], .error error⟩ := by
  rw [fails, noting]

end Logged

end Reckoner
