import Reckoner.Answer
import Reckoner.Sink

namespace Reckoner

/-! Interactive sessions over bytes.  A session prompts, reads a line, answers
it, and goes on until the exit command, the end of its input, a line that is
no text, or a sink that takes no more. -/

def prompt : String := "Enter expression: "

def exitCommand : String := "exit"

inductive Ending where
  | finished
  | invalidText
  | sinkFull
  | unanswerable (error : FormatError)
deriving Repr, DecidableEq

/-- Only a session that comes to its end records that it does. -/
def Ending.records : Ending → List Record
  | .finished => [.finished]
  | .invalidText | .sinkFull | .unanswerable _ => []

inductive Turn where
  | ask (expression : String)
  | leave (ending : Ending)
deriving Repr, DecidableEq

def newline : UInt8 := 10

def firstLine (input : List UInt8) : List UInt8 :=
  input.takeWhile (· ≠ newline)

def afterLine (input : List UInt8) : List UInt8 :=
  (input.dropWhile (· ≠ newline)).drop 1

theorem afterLine_length_lt {input : List UInt8} (filled : input ≠ []) :
    (afterLine input).length < input.length := by
  have dropped := (List.dropWhile_sublist (l := input) (· ≠ newline)).length_le
  have positive := List.length_pos_iff.mpr filled
  simp only [afterLine, List.length_drop] at *
  omega

/-- A line without the carriage returns at its end. -/
def withoutReturns (line : String) : String :=
  String.ofList (line.toList.reverse.dropWhile (· == '\r')).reverse

def Turn.ofLine (line : List UInt8) : Turn :=
  match String.fromUTF8? ⟨line.toArray⟩ with
  | none => .leave .invalidText
  | some text =>
      if withoutReturns text = exitCommand then .leave .finished
      else .ask (withoutReturns text)

/-- What follows a prompt: what is said and recorded, and how the session ends
unless it goes on. -/
structure Reaction where
  said : String
  records : List Record
  ending : Option Ending

namespace Settings

def reactTo (settings : Settings) : Turn → Reaction
  | .leave ending => ⟨"", [], some ending⟩
  | .ask expression =>
      match settings.responding expression with
      | ⟨records, .ok answer⟩ => ⟨answer ++ "\n", records, none⟩
      | ⟨records, .error error⟩ => ⟨"", records, some (.unanswerable error)⟩

/-- Reacts to the first line of what is left of the input.  At its end the line
of the prompt is ended. -/
def react (settings : Settings) : List UInt8 → Reaction
  | [] => ⟨"\n", [], some .finished⟩
  | byte :: rest => settings.reactTo (.ofLine (firstLine (byte :: rest)))

theorem ne_nil_of_react {settings : Settings} {input : List UInt8}
    (stays : (settings.react input).ending = none) : input ≠ [] := by
  rintro rfl
  cases stays

end Settings

structure Session where
  output : ByteArray
  records : List Record
  ending : Ending

namespace Session

def recordedAfter (records : List Record) (session : Session) : Session :=
  { session with records := records ++ session.records }

/-- Goes on with a session that has written what is in the sink. -/
def converse (settings : Settings) (sink : Sink) (input : List UInt8) : Session :=
  match sink.write prompt with
  | (sink, false) => ⟨sink.written, [], .sinkFull⟩
  | (sink, true) =>
      let reaction := settings.react input
      match sink.write reaction.said with
      | (sink, false) => ⟨sink.written, reaction.records, .sinkFull⟩
      | (sink, true) =>
          match _ : reaction.ending with
          | some ending => ⟨sink.written, reaction.records ++ ending.records, ending⟩
          | none => (converse settings sink (afterLine input)).recordedAfter reaction.records
termination_by input.length
decreasing_by exact afterLine_length_lt (Settings.ne_nil_of_react ‹_›)

def run (settings : Settings) (room : Option Nat) (input : List UInt8) : Session :=
  (converse settings (.fresh room) input).recordedAfter [.started settings]

section

variable (settings : Settings) {sink asked told : Sink} {input : List UInt8}

theorem converse_unprompted (full : sink.write prompt = (asked, false)) :
    converse settings sink input = ⟨asked.written, [], .sinkFull⟩ := by
  rw [converse.eq_def]
  simp only [full]

variable {settings}

theorem converse_untold (prompted : sink.write prompt = (asked, true))
    (full : asked.write (settings.react input).said = (told, false)) :
    converse settings sink input = ⟨told.written, (settings.react input).records, .sinkFull⟩ := by
  rw [converse.eq_def]
  simp only [prompted, full]

theorem converse_ends (prompted : sink.write prompt = (asked, true))
    (tells : asked.write (settings.react input).said = (told, true)) {ending : Ending}
    (ends : (settings.react input).ending = some ending) :
    converse settings sink input =
      ⟨told.written, (settings.react input).records ++ ending.records, ending⟩ := by
  rw [converse.eq_def]
  simp only [prompted, tells]
  split
  next same => cases ends.symm.trans same; rfl
  next stays => cases ends.symm.trans stays

theorem converse_stays (prompted : sink.write prompt = (asked, true))
    (tells : asked.write (settings.react input).said = (told, true))
    (stays : (settings.react input).ending = none) :
    converse settings sink input =
      (converse settings told (afterLine input)).recordedAfter (settings.react input).records := by
  rw [converse.eq_def]
  simp only [prompted, tells]
  split
  next ends => cases stays.symm.trans ends
  next => rfl

end

end Session

end Reckoner
