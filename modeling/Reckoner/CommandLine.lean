import Reckoner.Locale
import Reckoner.Session

namespace Reckoner

/-! The command line: options, the environment, and exit codes.  With an
expression the program answers it and exits; without one it runs a session. -/

def separatorVariable : String := "CALCUP_DECIMAL_SEPARATOR"

inductive Flag where
  | separator
  | precision
deriving Repr, DecidableEq

namespace Flag

def ofShort? : Char → Option Flag
  | 'd' => some .separator
  | 'p' => some .precision
  | _ => none

def ofLong? : String → Option Flag
  | "decimal-separator" => some .separator
  | "precision" => some .precision
  | _ => none

end Flag

/-- A count of places: decimal digits, a plus sign before them if one likes,
that fit a machine word. -/
def precision? (text : String) : Option Nat :=
  let digits := match text.toList with
    | '+' :: digits => digits
    | digits => digits
  let count := Nat.ofDigitChars 10 digits 0
  if digits.isEmpty ∨ digits.any (!·.isDigit) ∨ UInt64.size ≤ count then none else some count

/-- What a single argument is, taken by itself. -/
inductive Word where
  | expression
  | flag (flag : Flag) (attached : Option String)
  | unknown
deriving Repr, DecidableEq

namespace Word

def ofFlag (flag : Option Flag) (attached : Option (List Char)) : Word :=
  match flag with
  | some flag => .flag flag (attached.map String.ofList)
  | none => .unknown

/-- Whatever starts with a hyphen is an option, the hyphen alone excepted.  A
value is attached with an equals sign, or directly to a short name. -/
def ofArgument (argument : List Char) : Word :=
  match argument with
  | '-' :: '-' :: long =>
      ofFlag (Flag.ofLong? (String.ofList (long.takeWhile (· ≠ '='))))
        (match long.dropWhile (· ≠ '=') with
          | [] => none
          | _ :: value => some value)
  | '-' :: short :: attached =>
      ofFlag (Flag.ofShort? short)
        (match attached with
          | [] => none
          | '=' :: value => some value
          | value => some value)
  | _ => .expression

end Word

structure Arguments where
  separator : Option Separator := none
  precision : Option Nat := none
  expression : Option String := none

namespace Arguments

def withFlag? (arguments : Arguments) (flag : Flag) (value : String) : Option Arguments :=
  match flag with
  | .separator =>
      match arguments.separator, Separator.ofName? value with
      | none, some separator => some { arguments with separator }
      | _, _ => none
  | .precision =>
      match arguments.precision, precision? value with
      | none, some precision => some { arguments with precision }
      | _, _ => none

def withExpression? (arguments : Arguments) (expression : String) : Option Arguments :=
  match arguments.expression with
  | none => some { arguments with expression }
  | some _ => none

/-- Takes the remaining arguments, options and expressions in any order; after
two hyphens there are no more options. -/
def read? (arguments : Arguments) : List String → Option Arguments
  | [] => some arguments
  | argument :: rest =>
      if argument = "--" then rest.foldlM withExpression? arguments
      else match Word.ofArgument argument.toList with
        | .expression => (arguments.withExpression? argument).bind (read? · rest)
        | .unknown => none
        | .flag flag (some value) => (arguments.withFlag? flag value).bind (read? · rest)
        | .flag flag none =>
            match rest with
            | [] => none
            | value :: rest => (arguments.withFlag? flag value).bind (read? · rest)

/-- The settings that the arguments and the environment ask for.  The locale is
asked last. -/
def settings? (arguments : Arguments) (lookup : String → Option String) : Option Settings :=
  let separator := match arguments.separator, lookup separatorVariable with
    | some separator, _ => some separator
    | none, some name => Separator.ofName? name
    | none, none => some (Separator.ofEnvironment lookup)
  separator.map (⟨·, arguments.precision.getD defaultPrecision⟩)

end Arguments

structure Invocation where
  settings : Settings
  expression : Option String

def Invocation.read? (arguments : List String) (lookup : String → Option String) :
    Option Invocation :=
  ((Arguments.mk none none none).read? arguments).bind fun arguments =>
    (arguments.settings? lookup).map (⟨·, arguments.expression⟩)

structure Exit where
  output : ByteArray
  code : UInt32

namespace Exit

def badUsage : Exit := ⟨.empty, 2⟩

/-- Code of a program that had to give up on an answer. -/
def abandoned : UInt32 := 101

def ofExpression (settings : Settings) (source : String) : Exit :=
  let result := evaluate settings.separator source
  match settings.answer result with
  | .error _ => ⟨.empty, abandoned⟩
  | .ok answer =>
      ⟨(answer ++ "\n").toUTF8, match result with
        | .ok _ => 0
        | .error _ => 1⟩

def codeOf : Ending → UInt32
  | .finished => 0
  | .invalidText | .sinkFull => 1
  | .unanswerable _ => abandoned

def ofSession (session : Session) : Exit :=
  ⟨session.output, codeOf session.ending⟩

end Exit

def runCommandLine (arguments : List String) (lookup : String → Option String)
    (input : List UInt8) : Exit :=
  match Invocation.read? arguments lookup with
  | none => .badUsage
  | some ⟨settings, some source⟩ => .ofExpression settings source
  | some ⟨settings, none⟩ => .ofSession (Session.run settings none input)

end Reckoner
