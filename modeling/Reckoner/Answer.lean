import Reckoner.Evaluation

namespace Reckoner

inductive FormatError where
  | precisionOutOfRange
deriving Repr, DecidableEq

def FormatError.message : FormatError → String
  | .precisionOutOfRange => "Formatting argument out of range"

/-- More places than this are never written. -/
def largestPrecision : Nat := 65535

def rejection : String := "Error in expression"

namespace Settings

/-- A value with the configured count of places and separator.  Only finite
values have places, so only they can ask for too many. -/
def format (settings : Settings) (value : Float) : Except FormatError String :=
  match Double.ofFloat value with
  | .finite negative rung =>
      if settings.precision ≤ largestPrecision then
        .ok (String.ofList
          ((Double.finite negative rung).fixedText settings.separator.char settings.precision))
      else .error .precisionOutOfRange
  | other => .ok (String.ofList (other.fixedText settings.separator.char settings.precision))

/-- Puts a value into words.  Of an error only the record tells anything. -/
def answering (settings : Settings) (result : Except EvalError Float) :
    Logged (Except FormatError String) := do
  match result with
  | .ok value => return (settings.format value).map ("Result: " ++ ·)
  | .error error =>
      Logged.leave (.rejected error)
      return .ok rejection

def answer (settings : Settings) (result : Except EvalError Float) : Except FormatError String :=
  (settings.answering result).result

def responding (settings : Settings) (source : String) : Logged (Except FormatError String) := do
  settings.answering (← evaluating settings.separator source)

def respond (settings : Settings) (source : String) : Except FormatError String :=
  (settings.responding source).result

theorem respond_eq_answer (settings : Settings) (source : String) :
    settings.respond source = settings.answer (evaluate settings.separator source) :=
  rfl

end Settings

end Reckoner
