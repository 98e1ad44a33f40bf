import Reckoner.CommandLine

namespace Reckoner

def variablesRead : List String :=
  separatorVariable :: localeVariables

/-- The bytes up to the next newline, that one included, after those in
`line`; fewer at the end of the input. -/
partial def nextLine (input : IO.FS.Stream) (line : ByteArray) : IO ByteArray := do
  let byte ← input.read 1
  if byte.isEmpty || byte.toList = [newline] then return line ++ byte
  nextLine input (line ++ byte)

/-- Prompts and reacts until a reaction ends the session. -/
partial def prompting (settings : Settings) (input output : IO.FS.Stream) : IO UInt32 := do
  output.putStr prompt
  output.flush
  let line ← nextLine input .empty
  let reaction := settings.react line.toList
  output.putStr reaction.said
  match reaction.ending with
  | none => prompting settings input output
  | some ending =>
      if let .unanswerable error := ending then IO.eprintln error.message
      return Exit.codeOf ending

end Reckoner

open Reckoner in
def main (arguments : List String) : IO UInt32 := do
  let values ← variablesRead.mapM fun name => do
    return (name, ← IO.getEnv name)
  let lookup := fun name => (values.lookup name).join
  match Invocation.read? arguments lookup with
  | none =>
      IO.eprintln "usage: [-d point|comma] [-p PLACES] [EXPRESSION]"
      return Exit.badUsage.code
  | some ⟨settings, some source⟩ =>
      let outcome := Exit.ofExpression settings source
      let output ← IO.getStdout
      output.write outcome.output
      output.flush
      return outcome.code
  | some ⟨settings, none⟩ =>
      try
        prompting settings (← IO.getStdin) (← IO.getStdout)
      catch _ => return Exit.codeOf .sinkFull
