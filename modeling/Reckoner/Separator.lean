namespace Reckoner

/-- The character between the whole and the fractional digits of a number. -/
inductive Separator where
  | point
  | comma
deriving Repr, DecidableEq

namespace Separator

def char : Separator → Char
  | .point => '.'
  | .comma => ','

/-- The separator that is not in force.  Numbers may not contain it. -/
def other : Separator → Separator
  | .point => .comma
  | .comma => .point

def name : Separator → String
  | .point => "point"
  | .comma => "comma"

def ofName? (text : String) : Option Separator :=
  [point, comma].find? (·.name == text)

theorem char_other_ne (separator : Separator) : separator.other.char ≠ separator.char := by
  cases separator <;> decide

end Separator

end Reckoner
