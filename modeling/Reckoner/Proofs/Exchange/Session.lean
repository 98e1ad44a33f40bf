import Reckoner.Proofs.Exchange.Answer
import Reckoner.Session

namespace Reckoner

def Sink.exchanged (sink : Sink) : Sink :=
  ⟨Exchange.bytes sink.written, sink.room⟩

def Turn.exchanged : Turn → Turn
  | .ask expression => .ask (Exchange.text expression)
  | .leave ending => .leave ending

def Reaction.exchanged (reaction : Reaction) : Reaction :=
  ⟨Exchange.text reaction.said, reaction.records.map Record.exchanged, reaction.ending⟩

def Session.exchanged (session : Session) : Session :=
  ⟨Exchange.bytes session.output, session.records.map Record.exchanged, session.ending⟩

namespace Exchange

theorem bytes_append (left right : ByteArray) :
    bytes (left ++ right) = bytes left ++ bytes right := by
  refine ByteArray.ext ?_
  simp only [bytes, ByteArray.data_append, Array.map_append]

theorem size_bytes (values : ByteArray) : (bytes values).size = values.size :=
  Array.size_map

theorem bytes_extract (values : ByteArray) (start stop : Nat) :
    bytes (values.extract start stop) = (bytes values).extract start stop := by
  refine ByteArray.ext ?_
  simp only [bytes, ByteArray.data_extract, Array.map_extract]

theorem write_text (sink : Sink) (source : String) :
    sink.exchanged.write (text source) =
      ((sink.write source).1.exchanged, (sink.write source).2) := by
  unfold Sink.write
  dsimp only [Sink.exchanged]
  rw [toUTF8_text, size_bytes]
  cases sink.room with
  | none => simp only [bytes_append]
  | some room =>
      dsimp only
      split
      · simp only [bytes_append]
      · simp only [bytes_append, bytes_extract]

theorem write_plain (sink : Sink) (source : String)
    (plain : source.toList.any isNumeral = false) :
    sink.exchanged.write source = ((sink.write source).1.exchanged, (sink.write source).2) := by
  have written := write_text sink source
  rwa [text_of_plain plain] at written

theorem ne_newline_comp_byte :
    (fun value => decide (value ≠ newline)) ∘ byte = fun value => decide (value ≠ newline) := by
  funext value
  have same : byte value = newline ↔ value = newline :=
    (Function.LeftInverse.injective byte_byte).eq_iff (a := value) (b := newline)
  simp only [Function.comp_apply, ne_eq, same]

theorem firstLine_map_byte (input : List UInt8) :
    firstLine (input.map byte) = (firstLine input).map byte := by
  rw [firstLine, List.takeWhile_map, ne_newline_comp_byte]
  rfl

theorem afterLine_map_byte (input : List UInt8) :
    afterLine (input.map byte) = (afterLine input).map byte := by
  rw [afterLine, List.dropWhile_map, ne_newline_comp_byte, ← List.map_drop]
  rfl

theorem withoutReturns_text (line : String) :
    withoutReturns (text line) = text (withoutReturns line) := by
  have same : (· == '\r') ∘ char = (· == '\r') :=
    funext (apply_char (· == '\r') rfl)
  rw [withoutReturns, withoutReturns, text_ofList, toList_text, ← List.map_reverse,
    List.dropWhile_map, same, List.map_reverse]

theorem ofLine_map_byte (line : List UInt8) :
    Turn.ofLine (line.map byte) = (Turn.ofLine line).exchanged := by
  have swapped : (⟨(line.map byte).toArray⟩ : ByteArray) = bytes ⟨line.toArray⟩ := by
    rw [bytes, List.map_toArray]
  unfold Turn.ofLine
  rw [swapped, fromUTF8?_bytes]
  cases String.fromUTF8? ⟨line.toArray⟩ with
  | none => rfl
  | some source =>
      have exit : text exitCommand = exitCommand := text_of_plain (by decide)
      have leaves : text (withoutReturns source) = exitCommand ↔
          withoutReturns source = exitCommand := by
        rw [← exit, text_injective.eq_iff, exit]
      simp only [Option.map_some, withoutReturns_text, leaves]
      split <;> rfl

theorem records_exchanged (ending : Ending) :
    ending.records.map Record.exchanged = ending.records := by
  cases ending <;> rfl

variable (settings : Settings)

theorem reactTo_exchanged (turn : Turn) :
    settings.exchanged.reactTo turn.exchanged = (settings.reactTo turn).exchanged := by
  cases turn with
  | leave ending => rfl
  | ask expression =>
      have line : text "\n" = "\n" := text_of_plain (by decide)
      have responded := responding_text settings expression
      unfold Settings.reactTo
      dsimp only [Turn.exchanged]
      rw [responded]
      obtain ⟨records, result⟩ := settings.responding expression
      cases result with
      | error error => rfl
      | ok answer =>
          dsimp only [Logged.exchanged, Except.map, Reaction.exchanged]
          rw [text_append, line]

theorem react_exchanged (input : List UInt8) :
    settings.exchanged.react (input.map byte) = (settings.react input).exchanged := by
  cases input with
  | nil =>
      have line : "\n" = text "\n" := (text_of_plain (by decide)).symm
      exact congrArg (Reaction.mk · [] (some .finished)) line
  | cons first rest =>
      have heard : Turn.ofLine (firstLine ((first :: rest).map byte)) =
          (Turn.ofLine (firstLine (first :: rest))).exchanged := by
        rw [firstLine_map_byte, ofLine_map_byte]
      rw [Settings.react, ← reactTo_exchanged, ← heard]
      rfl

theorem recordedAfter_exchanged (records : List Record) (session : Session) :
    (session.recordedAfter records).exchanged =
      session.exchanged.recordedAfter (records.map Record.exchanged) := by
  simp only [Session.exchanged, Session.recordedAfter, List.map_append]

/-- A reaction to the input, if the turns after it are exchanged. -/
theorem converse_prompted {sink asked : Sink} {input : List UInt8}
    (prompted : sink.write prompt = (asked, true))
    (later : (settings.react input).ending = none → ∀ told : Sink,
      Session.converse settings.exchanged told.exchanged ((afterLine input).map byte) =
        (Session.converse settings told (afterLine input)).exchanged) :
    Session.converse settings.exchanged sink.exchanged (input.map byte) =
      (Session.converse settings sink input).exchanged := by
  have prompts : sink.exchanged.write prompt = (asked.exchanged, true) := by
    rw [write_plain sink _ (by decide), prompted]
  have reacts := react_exchanged settings input
  have said : (settings.exchanged.react (input.map byte)).said =
      text (settings.react input).said := by rw [reacts]; rfl
  have records : (settings.exchanged.react (input.map byte)).records =
      (settings.react input).records.map Record.exchanged := by rw [reacts]; rfl
  have ending : (settings.exchanged.react (input.map byte)).ending =
      (settings.react input).ending := by rw [reacts]; rfl
  have tells := write_text asked (settings.react input).said
  rw [← said] at tells
  cases written : asked.write (settings.react input).said with
  | mk told fits =>
      rw [written] at tells
      cases fits with
      | false =>
          rw [Session.converse_untold prompted written, Session.converse_untold prompts tells,
            records]
          rfl
      | true =>
          cases ends : (settings.react input).ending with
          | some last =>
              rw [Session.converse_ends prompted written ends,
                Session.converse_ends prompts tells (ending.trans ends), records]
              simp only [Session.exchanged, Sink.exchanged, List.map_append, records_exchanged]
          | none =>
              rw [Session.converse_stays prompted written ends,
                Session.converse_stays prompts tells (ending.trans ends), records,
                afterLine_map_byte, recordedAfter_exchanged, later ends]

theorem converse_exchanged (sink : Sink) (input : List UInt8) :
    Session.converse settings.exchanged sink.exchanged (input.map byte) =
      (Session.converse settings sink input).exchanged := by
  induction size : input.length using Nat.strongRecOn generalizing sink input with
  | ind size shorter =>
      subst size
      have prompts := write_plain sink prompt (by decide)
      cases prompted : sink.write prompt with
      | mk asked fits =>
          rw [prompted] at prompts
          cases fits with
          | false =>
              rw [Session.converse_unprompted _ prompted, Session.converse_unprompted _ prompts]
              rfl
          | true =>
              refine converse_prompted settings prompted fun stays told => ?_
              exact shorter _ (afterLine_length_lt (Settings.ne_nil_of_react stays)) told _ rfl

theorem fresh_exchanged (room : Option Nat) : (Sink.fresh room).exchanged = .fresh room := by
  have none : bytes .empty = .empty := ByteArray.ext Array.map_empty
  rw [Sink.exchanged, Sink.fresh, none]

/-- Exchanging point and comma in the separator of the settings and in what is
read, whether one source, or the bytes of a session and whatever room there is
for its output, exchanges them in what is written and in what an error of the
lexer blames, and changes nothing else. -/
theorem evaluate_respond_run_exchanged (settings : Settings) :
    (∀ source, evaluate settings.exchanged.separator (text source) =
      (evaluate settings.separator source).mapError EvalError.exchanged) ∧
    (∀ source, settings.exchanged.respond (text source) = (settings.respond source).map text) ∧
    (settings.precision ≤ largestPrecision →
      ∀ source, ∃ answer, settings.respond source = .ok answer) ∧
    ∀ room input, Session.run settings.exchanged room (input.map byte) =
      (Session.run settings room input).exchanged := by
  refine ⟨evaluate_text settings.separator, respond_text settings, Settings.respond_eq_ok, ?_⟩
  intro room input
  have same := converse_exchanged settings (.fresh room) input
  rw [fresh_exchanged] at same
  rw [Session.run, Session.run, same, recordedAfter_exchanged]
  rfl

/-- A tenth is a number either way, and both are answered. -/
theorem respond_tenth_and_one :
    ∃ answer, Settings.respond ⟨.point, 2⟩ "0.1+1" = .ok answer ∧
      Settings.respond ⟨.comma, 2⟩ "0,1+1" = .ok (text answer) := by
  obtain ⟨_, exchanged, answered, _⟩ := evaluate_respond_run_exchanged ⟨.point, 2⟩
  obtain ⟨answer, told⟩ := answered (by decide) "0.1+1"
  have answer' := exchanged "0.1+1"
  rw [told, show text "0.1+1" = "0,1+1" from rfl] at answer'
  exact ⟨answer, told, answer'⟩

end Exchange

end Reckoner
