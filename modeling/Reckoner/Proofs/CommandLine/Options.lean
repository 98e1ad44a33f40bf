import Reckoner.CommandLine

namespace Reckoner

namespace Flag

def short : Flag → Char
  | .separator => 'd'
  | .precision => 'p'

def long : Flag → String
  | .separator => "decimal-separator"
  | .precision => "precision"

end Flag

namespace Word

variable (flag : Flag) (value : String)

end Word

namespace Arguments

variable (arguments : Arguments) {flag : Flag} {argument value : String}

end Arguments

end Reckoner
