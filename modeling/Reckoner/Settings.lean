import Reckoner.Separator

namespace Reckoner

def defaultPrecision : Nat := 6

structure Settings where
  separator : Separator := .point
  precision : Nat := defaultPrecision
deriving Repr, DecidableEq

namespace Settings

/-- The settings as the session's first record shows them. -/
def description (settings : Settings) : String :=
  let separator := match settings.separator with
    | .point => "Point"
    | .comma => "Comma"
  "Config \x7b decimal_separator: " ++ separator ++
    ", precision: " ++ toString settings.precision ++ " \x7d"

end Settings

end Reckoner
