import Reckoner.Proofs.Exchange.Answer
import Reckoner.Proofs.Session.Lines

namespace Reckoner

/-! Transcripts of sessions that have room for all they write.  Main statement:
a session answers the lines before the first that stops it, each as if it were
the only one, and what it writes and records is put together from them.
-/

/-- What evaluating and answering a source records: every phase that succeeds, and
the reason if the answer is a rejection. -/
inductive Recorded (separator : Separator) (source : String) : List Record → Prop where
  | noLexemes {error} (rejected : tokenize separator source = .error error) :
      Recorded separator source [.rejected (.lex error)]
  | noExpression {lexemes error} (scanned : tokenize separator source = .ok lexemes)
      (rejected : Expr.ofLexemes lexemes = .error error) :
      Recorded separator source [.lexed source lexemes.length, .rejected (.parse error)]
  | value {lexemes expr} (scanned : tokenize separator source = .ok lexemes)
      (spelled : Expr.ofLexemes lexemes = .ok expr) :
      Recorded separator source
        [.lexed source lexemes.length, .parsed expr, .evaluated source expr.eval]

theorem Settings.recorded_responding (settings : Settings) (source : String) :
    Recorded settings.separator source (settings.responding source).records := by
  unfold responding
  cases scanned : tokenize settings.separator source with
  | error error =>
      rw [evaluating_of_lexError scanned]
      exact .noLexemes scanned
  | ok lexemes =>
      cases spelled : Expr.ofLexemes lexemes with
      | error error =>
          rw [evaluating_of_parseError scanned spelled]
          exact .noExpression scanned spelled
      | ok expr =>
          rw [evaluating_of_expr scanned spelled]
          exact .value scanned spelled

theorem Settings.exists_responding (settings : Settings)
    (bounded : settings.precision ≤ largestPrecision) (source : String) :
    ∃ answer records, settings.responding source = ⟨records, .ok answer⟩ := by
  obtain ⟨answer, told⟩ := respond_eq_ok bounded source
  exact ⟨answer, (settings.responding source).records, congrArg (Logged.mk _) told⟩

theorem Settings.reactTo_ask {settings : Settings} {expression answer : String}
    {records : List Record} (told : settings.responding expression = ⟨records, .ok answer⟩) :
    settings.reactTo (.ask expression) = ⟨answer ++ "\n", records, none⟩ := by
  simp only [reactTo, told]

/-- A line, what it asks for, what is told, and what is recorded on the way. -/
structure Reply where
  line : List UInt8
  expression : String
  answer : String
  records : List Record

namespace Reply

structure Fits (settings : Settings) (reply : Reply) : Prop where
  asked : lineText? reply.line = some reply.expression
  stays : reply.expression ≠ exitCommand
  told : settings.responding reply.expression = ⟨reply.records, .ok reply.answer⟩

def written (reply : Reply) : String :=
  prompt ++ reply.answer ++ "\n"

variable {settings : Settings} {reply other : Reply}

theorem Fits.unique (fits : reply.Fits settings) (fits' : other.Fits settings)
    (same : reply.line = other.line) : reply = other := by
  obtain ⟨line, expression, answer, records⟩ := reply
  obtain ⟨line', expression', answer', records'⟩ := other
  obtain ⟨asked, _, told⟩ := fits
  obtain ⟨asked', _, told'⟩ := fits'
  cases same
  cases asked.symm.trans asked'
  cases told.symm.trans told'
  rfl

theorem eq_of_map_line {replies others : List Reply}
    (fits : ∀ reply ∈ replies, reply.Fits settings) (fits' : ∀ reply ∈ others, reply.Fits settings)
    (same : replies.map line = others.map line) : replies = others := by
  induction replies generalizing others with
  | nil => exact (List.map_eq_nil_iff.mp same.symm).symm
  | cons reply replies ih =>
      obtain ⟨other, more, rfl, first, rest⟩ := List.map_eq_cons_iff.mp same.symm
      obtain ⟨fit, fits⟩ := List.forall_mem_cons.mp fits
      obtain ⟨fit', fits'⟩ := List.forall_mem_cons.mp fits'
      rw [fit.unique fit' first.symm, ih fits fits' rest.symm]

end Reply

namespace Session

/-- The lines before the first that stops the session. -/
def answeredLines (input : List UInt8) : List (List UInt8) :=
  (lines input).takeWhile (!isStop ·)

/-- The first line that stops the session; without one it goes on to the end of
its input. -/
def stop? (input : List UInt8) : Option (List UInt8) :=
  (lines input).find? isStop

/-- What the last prompt is followed by. -/
def farewell : Option (List UInt8) → String
  | none => "\n"
  | some _ => ""

def transcript (replies : List Reply) (stop : Option (List UInt8)) : String :=
  String.join (replies.map Reply.written) ++ prompt ++ farewell stop

/-- How a session ends at the line that stops it, or without one. -/
def endingAt : Option (List UInt8) → Ending
  | none => .finished
  | some line => if lineText? line = none then .invalidText else .finished

variable {settings : Settings} {input line : List UInt8}

section

variable {written : ByteArray}

/-- With room for everything a reaction is written whole. -/
theorem converse_ends_unbounded {ending : Ending}
    (ends : (settings.react input).ending = some ending) :
    converse settings ⟨written, none⟩ input =
      ⟨written ++ (prompt ++ (settings.react input).said).toUTF8,
        (settings.react input).records ++ ending.records, ending⟩ := by
  rw [converse_ends (Sink.write_unbounded _ _ rfl) (Sink.write_unbounded _ _ rfl) ends]
  simp [ByteArray.append_assoc]

theorem converse_stays_unbounded (stays : (settings.react input).ending = none) :
    converse settings ⟨written, none⟩ input =
      (converse settings ⟨written ++ (prompt ++ (settings.react input).said).toUTF8, none⟩
        (afterLine input)).recordedAfter (settings.react input).records := by
  rw [converse_stays (Sink.write_unbounded _ _ rfl) (Sink.write_unbounded _ _ rfl) stays]
  simp [ByteArray.append_assoc]

end

/-- From any point on a session writes the transcript of the lines that are
left. -/
theorem converse_unbounded (bounded : settings.precision ≤ largestPrecision) (written : ByteArray)
    (input : List UInt8) :
    ∃ replies : List Reply, replies.map Reply.line = answeredLines input ∧
      (∀ reply ∈ replies, reply.Fits settings) ∧
      converse settings ⟨written, none⟩ input =
        ⟨written ++ (transcript replies (stop? input)).toUTF8,
          replies.flatMap Reply.records ++ (endingAt (stop? input)).records,
          endingAt (stop? input)⟩ := by
  induction size : input.length using Nat.strongRecOn generalizing written input with
  | ind size shorter =>
      subst size
      cases input with
      | nil =>
          refine ⟨[], rfl, List.forall_mem_nil _, ?_⟩
          rw [converse_ends_unbounded rfl]
          rfl
      | cons byte rest =>
          obtain ⟨line, split, reacts⟩ := settings.react_of_ne_nil (List.cons_ne_nil byte rest)
          cases said : lineText? line with
          | none =>
              simp only [said] at reacts
              refine ⟨[], ?_, List.forall_mem_nil _, ?_⟩
              · simp [answeredLines, split, isStop, said]
              · rw [converse_ends_unbounded (congrArg Reaction.ending reacts), reacts]
                simp [transcript, farewell, stop?, split, isStop, endingAt, said]
          | some expression =>
              simp only [said] at reacts
              by_cases exits : expression = exitCommand
              · rw [if_pos exits] at reacts
                refine ⟨[], ?_, List.forall_mem_nil _, ?_⟩
                · simp [answeredLines, split, isStop, said, exits]
                · rw [converse_ends_unbounded (congrArg Reaction.ending reacts), reacts]
                  simp [transcript, farewell, stop?, split, isStop, endingAt, said, exits]
              · rw [if_neg exits] at reacts
                obtain ⟨answer, records, told⟩ := settings.exists_responding bounded expression
                rw [Settings.reactTo_ask told] at reacts
                obtain ⟨replies, answered, fits, onward⟩ :=
                  shorter _ (afterLine_length_lt (List.cons_ne_nil byte rest))
                    (written ++ (prompt ++ (answer ++ "\n")).toUTF8) _ rfl
                refine ⟨⟨line, expression, answer, records⟩ :: replies, ?_, ?_, ?_⟩
                · simp [answeredLines, split, isStop, said, exits, answered]
                · exact List.forall_mem_cons.mpr ⟨⟨said, exits, told⟩, fits⟩
                · rw [converse_stays_unbounded (congrArg Reaction.ending reacts), reacts, onward]
                  simp [recordedAfter, transcript, Reply.written, stop?, split, isStop, said, exits,
                    ByteArray.append_assoc]

theorem answeredLines_stop?_of_prefix (stop : stop? input = some line) {other : List UInt8}
    (starts : answeredLines input ++ [line] <+: lines other) :
    answeredLines other = answeredLines input ∧ stop? other = some line := by
  obtain ⟨more, split⟩ := starts
  have stops : isStop line = true := List.find?_some stop
  have goes : ∀ before ∈ answeredLines input, (!isStop before) = true := by
    intro before member
    exact List.mem_takeWhile_imp (p := (!isStop ·)) member
  have none : (answeredLines input).find? isStop = none := by
    apply List.find?_eq_none.mpr
    intro before member
    simpa using goes before member
  constructor
  · rw [answeredLines, ← split, List.append_assoc, List.takeWhile_append_of_pos goes]
    simp [stops]
  · rw [stop?, ← split, List.append_assoc, List.find?_append, none]
    simp [stops]

theorem run_unbounded (bounded : settings.precision ≤ largestPrecision) (input : List UInt8) :
    ∃ replies : List Reply, replies.map Reply.line = answeredLines input ∧
      (∀ reply ∈ replies, reply.Fits settings) ∧
      run settings none input =
        ⟨(transcript replies (stop? input)).toUTF8,
          .started settings ::
            (replies.flatMap Reply.records ++ (endingAt (stop? input)).records),
          endingAt (stop? input)⟩ := by
  obtain ⟨replies, answered, fits, whole⟩ := converse_unbounded bounded .empty input
  refine ⟨replies, answered, fits, ?_⟩
  rw [run, Sink.fresh, whole, ByteArray.empty_append]
  rfl

/-- A line that is answered is answered in the same way where it is alone. -/
theorem run_line (bounded : settings.precision ≤ largestPrecision) {reply : Reply}
    (fits : reply.Fits settings) (member : reply.line ∈ answeredLines input) :
    run settings none reply.line =
      ⟨(transcript [reply] none).toUTF8, .started settings :: (reply.records ++ [.finished]),
        .finished⟩ := by
  have single := (lines_of_mem ((List.takeWhile_sublist _).mem member)).2
  have goes : isStop reply.line = false := by simp [isStop, fits.asked, fits.stays]
  have answered : answeredLines reply.line = [reply.line] := by
    simp [answeredLines, single, goes]
  have onward : stop? reply.line = none := by simp [stop?, single, goes]
  obtain ⟨replies, told, fitting, whole⟩ := run_unbounded bounded reply.line
  obtain rfl : replies = [reply] :=
    Reply.eq_of_map_line fitting (List.forall_mem_singleton.mpr fits) (told.trans answered)
  rw [whole, onward, List.flatMap_singleton]
  rfl

/-- A session with room for all it writes answers the lines before the first one
that stops it, each as if it were alone, prompts once more, and ends its last
line if nothing stopped it.  It fails only at a line that is no text.  What
comes after the line that stops it is nothing to it.  It records where it starts,
what it would record for each of these lines alone, and, unless it fails, where
it finishes. -/
theorem run_eq_transcript (settings : Settings) (bounded : settings.precision ≤ largestPrecision)
    (input : List UInt8) :
    ∃ replies : List Reply, replies.map Reply.line = answeredLines input ∧
      (∀ reply ∈ replies, reply.Fits settings ∧
        settings.respond reply.expression = .ok reply.answer ∧
        Recorded settings.separator reply.expression reply.records ∧
        (run settings none reply.line).output = (transcript [reply] none).toUTF8 ∧
        (run settings none reply.line).records =
          .started settings :: (reply.records ++ [.finished])) ∧
      (run settings none input).output = (transcript replies (stop? input)).toUTF8 ∧
      (run settings none input).ending = endingAt (stop? input) ∧
      (run settings none input).records =
        .started settings :: (replies.flatMap Reply.records ++
          if endingAt (stop? input) = .finished then [.finished] else []) ∧
      ∀ line, stop? input = some line → ∀ other, answeredLines input ++ [line] <+: lines other →
        run settings none other = run settings none input := by
  obtain ⟨replies, answered, fits, whole⟩ := run_unbounded bounded input
  refine ⟨replies, answered, ?_, by rw [whole], by rw [whole], ?_, ?_⟩
  · intro reply member
    have fit := fits reply member
    have alone := run_line bounded fit (answered ▸ List.mem_map_of_mem member)
    have recorded := settings.recorded_responding reply.expression
    rw [fit.told] at recorded
    exact ⟨fit, congrArg Logged.result fit.told, recorded, by rw [alone], by rw [alone]⟩
  · rw [whole]
    cases endingAt (stop? input) <;> rfl
  · intro line stop other starts
    obtain ⟨same, stop'⟩ := answeredLines_stop?_of_prefix stop starts
    obtain ⟨others, answered', fits', whole'⟩ := run_unbounded bounded other
    obtain rfl : replies = others :=
      Reply.eq_of_map_line fits fits' (by rw [answered, answered', same])
    rw [whole, whole', stop, stop']

/-- Nothing is read after `exit`, be it a text or not.  The point that the second
line has instead of a comma is seen in the records only. -/
theorem run_exit_before_broken_line :
    2 ≤ largestPrecision ∧
      (run ⟨.comma, 2⟩ none
          [49, 44, 53, 13, 10, 49, 46, 10, 101, 120, 105, 116, 13, 13, 10, 255]).output =
        (prompt ++ "Result: 1,50\n" ++ prompt ++ "Error in expression\n" ++ prompt).toUTF8 ∧
      (run ⟨.comma, 2⟩ none
          [49, 44, 53, 13, 10, 49, 46, 10, 101, 120, 105, 116, 13, 13, 10, 255]).records.map
            (fun record => (record.level, record.origin, record.message)) =
        [(.info, .session,
            "starting session with Config \x7b decimal_separator: Comma, precision: 2 \x7d"),
          (.trace, .lexing, "lexed 1 tokens from \"1,5\""), (.trace, .parsing, "parsed 1.5"),
          (.trace, .evaluation, "\"1,5\" = 1.5"),
          (.debug, .session,
            "rejected expression: Error at position 1: Unexpected character '.'."),
          (.info, .session, "session finished")] := by
  obtain ⟨replies, answered, fits, written, _, recorded, _⟩ := run_eq_transcript ⟨.comma, 2⟩
    (by decide) [49, 44, 53, 13, 10, 49, 46, 10, 101, 120, 105, 116, 13, 13, 10, 255]
  have split : lines [49, 44, 53, 13, 10, 49, 46, 10, 101, 120, 105, 116, 13, 13, 10, 255] =
      [[49, 44, 53, 13, 10], [49, 46, 10], [101, 120, 105, 116, 13, 13, 10], [255]] := by decide
  have first : lineText? [49, 44, 53, 13, 10] = some "1,5" :=
    lineText?_of_flatMap "1,5\r\n" (by decide)
  have second : lineText? [49, 46, 10] = some "1." := lineText?_of_flatMap "1.\n" (by decide)
  have third : lineText? [101, 120, 105, 116, 13, 13, 10] = some "exit" :=
    lineText?_of_flatMap "exit\r\r\n" (by decide)
  have before : answeredLines
      [49, 44, 53, 13, 10, 49, 46, 10, 101, 120, 105, 116, 13, 13, 10, 255] =
        [[49, 44, 53, 13, 10], [49, 46, 10]] := by
    simp [answeredLines, split, isStop, first, second, third, exitCommand]
  have stop : stop? [49, 44, 53, 13, 10, 49, 46, 10, 101, 120, 105, 116, 13, 13, 10, 255] =
      some [101, 120, 105, 116, 13, 13, 10] := by
    simp [stop?, split, isStop, first, second, third, exitCommand]
  have ended : endingAt (some [101, 120, 105, 116, 13, 13, 10]) = .finished := by
    simp [endingAt, third]
  have told : Settings.respond ⟨.comma, 2⟩ "1,5" = .ok "Result: 1,50" := by decide +kernel
  have told' : Settings.respond ⟨.comma, 2⟩ "1." = .ok "Error in expression" := by decide +kernel
  have fit : Reply.Fits ⟨.comma, 2⟩
      ⟨_, "1,5", _, (Settings.responding ⟨.comma, 2⟩ "1,5").records⟩ :=
    ⟨first, by decide, congrArg (Logged.mk _) told⟩
  have fit' : Reply.Fits ⟨.comma, 2⟩
      ⟨_, "1.", _, (Settings.responding ⟨.comma, 2⟩ "1.").records⟩ :=
    ⟨second, by decide, congrArg (Logged.mk _) told'⟩
  obtain rfl := Reply.eq_of_map_line (fun reply member => (fits reply member).1)
    (List.forall_mem_cons.mpr ⟨fit, List.forall_mem_singleton.mpr fit'⟩) (answered.trans before)
  rw [stop] at written recorded
  refine ⟨by decide, written.trans ?_, ?_⟩
  · decide +kernel
  · rw [recorded, ended]
    decide +kernel

end Session

end Reckoner
