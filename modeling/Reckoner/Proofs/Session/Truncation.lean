import Reckoner.Proofs.Session.Transcript

namespace Reckoner

namespace Session

/-- `cut` is the session `whole` where its output may have no more than `limit`
bytes. -/
structure Truncates (limit : Nat) (whole cut : Session) : Prop where
  fits : whole.output.size ≤ limit → cut = whole
  overflows : limit < whole.output.size →
    cut.output = whole.output.extract 0 limit ∧ cut.records <+: whole.records ∧
      cut.ending = .sinkFull

namespace Truncates

variable {limit room : Nat} {whole cut : Session} {before text later : ByteArray}
  {records : List Record}

theorem of_fits (fits : whole.output.size ≤ limit) : Truncates limit whole whole :=
  ⟨fun _ => rfl, fun overflows => absurd fits (Nat.not_le_of_lt overflows)⟩

/-- The write of `text` is the first that does not fit. -/
theorem of_overflows (output : whole.output = before ++ text ++ later)
    (recorded : records <+: whole.records) (overflows : room < text.size) :
    Truncates (before.size + room) whole ⟨before ++ text.extract 0 room, records, .sinkFull⟩ := by
  have size : whole.output.size = before.size + text.size + later.size := by
    rw [output, ByteArray.size_append, ByteArray.size_append]
  refine ⟨fun fits => by omega, fun _ => ⟨?_, recorded, rfl⟩⟩
  have first : (before ++ (text ++ later)).extract 0 before.size = before :=
    ByteArray.extract_append_eq_left rfl
  have second := @ByteArray.extract_append_size_add before (text ++ later) 0 room
  rw [Nat.add_zero] at second
  have within : (text ++ later).extract 0 room = text.extract 0 room := by
    rw [ByteArray.extract_append, Nat.zero_sub, Nat.sub_eq_zero_of_le (Nat.le_of_lt overflows),
      ByteArray.extract_same, ByteArray.append_empty]
  rw [output, ByteArray.append_assoc,
    ByteArray.extract_eq_extract_append_extract before.size (Nat.zero_le _) (Nat.le_add_right _ _),
    first, second, within]

theorem recordedAfter (truncates : Truncates limit whole cut) (records : List Record) :
    Truncates limit (whole.recordedAfter records) (cut.recordedAfter records) := by
  refine ⟨fun fits => congrArg _ (truncates.fits fits), fun overflows => ?_⟩
  obtain ⟨output, recorded, full⟩ := truncates.overflows overflows
  exact ⟨output, (List.prefix_append_right_inj records).mpr recorded, full⟩

theorem output_eq (truncates : Truncates limit whole cut) :
    cut.output = whole.output.extract 0 (min limit whole.output.size) := by
  rcases Nat.lt_or_ge limit whole.output.size with beyond | fits
  · rw [Nat.min_eq_left (Nat.le_of_lt beyond)]
    exact (truncates.overflows beyond).1
  · rw [Nat.min_eq_right fits, ByteArray.extract_zero_size, truncates.fits fits]

end Truncates

section

variable {settings : Settings}

theorem exists_transcript_eq (replies : List Reply) (stop : Option (List UInt8)) :
    ∃ later, transcript replies stop = prompt ++ later := by
  cases replies with
  | nil => exact ⟨farewell stop, by simp [transcript]⟩
  | cons reply replies =>
      refine ⟨reply.answer ++ "\n" ++ transcript replies stop, ?_⟩
      simp [transcript, Reply.written, String.append_assoc]

theorem endingAt_cases (stop : Option (List UInt8)) :
    endingAt stop = .finished ∨ endingAt stop = .invalidText := by
  cases stop with
  | none => exact .inl rfl
  | some line =>
      by_cases broken : lineText? line = none
      · exact .inr (if_pos broken)
      · exact .inl (if_neg broken)

/-- Whatever has been written stays, and the next thing is a prompt. -/
theorem exists_converse_eq (bounded : settings.precision ≤ largestPrecision) (written : ByteArray)
    (input : List UInt8) :
    ∃ later, (converse settings ⟨written, none⟩ input).output =
      written ++ prompt.toUTF8 ++ later := by
  obtain ⟨replies, _, _, whole⟩ := converse_unbounded bounded written input
  obtain ⟨later, starts⟩ := exists_transcript_eq replies (stop? input)
  rw [whole, starts]
  exact ⟨later.toUTF8, by simp [ByteArray.append_assoc]⟩

/-- What is said after a prompt is written next, and recorded before anything else. -/
theorem exists_converse_said (bounded : settings.precision ≤ largestPrecision)
    (written : ByteArray) (input : List UInt8) :
    (∃ later, (converse settings ⟨written, none⟩ input).output =
        written ++ prompt.toUTF8 ++ (settings.react input).said.toUTF8 ++ later) ∧
      (settings.react input).records <+: (converse settings ⟨written, none⟩ input).records := by
  cases ends : (settings.react input).ending with
  | some ending =>
      rw [converse_ends_unbounded ends]
      exact ⟨⟨.empty, by simp [ByteArray.append_assoc]⟩, List.prefix_append _ _⟩
  | none =>
      rw [converse_stays_unbounded ends]
      obtain ⟨later, output⟩ := exists_converse_eq bounded
        (written ++ (prompt ++ (settings.react input).said).toUTF8) (afterLine input)
      refine ⟨⟨prompt.toUTF8 ++ later, ?_⟩, List.prefix_append _ _⟩
      rw [recordedAfter, output]
      simp [ByteArray.append_assoc]

/-- From any point on, with room for so many bytes more, a session is cut where
that room ends. -/
theorem converse_truncates (bounded : settings.precision ≤ largestPrecision) (written : ByteArray)
    (room : Nat) (input : List UInt8) :
    Truncates (written.size + room) (converse settings ⟨written, none⟩ input)
      (converse settings ⟨written, some room⟩ input) := by
  induction size : input.length using Nat.strongRecOn generalizing written room input with
  | ind size shorter =>
      subst size
      rcases Nat.lt_or_ge room prompt.toUTF8.size with beyond | fits
      · obtain ⟨later, output⟩ := exists_converse_eq bounded written input
        have full : Sink.write ⟨written, some room⟩ prompt = _ :=
          Sink.write_overflows _ _ rfl beyond
        rw [converse_unprompted _ full]
        exact .of_overflows output List.nil_prefix beyond
      · have prompted : Sink.write ⟨written, some room⟩ prompt = _ := Sink.write_fits _ _ rfl fits
        -- The prompt takes from the room what it adds to the output.
        have spent : written.size + room =
            (written ++ prompt.toUTF8).size + (room - prompt.toUTF8.size) := by
          rw [ByteArray.size_append]
          omega
        rw [spent]
        generalize room - prompt.toUTF8.size = left at *
        rcases Nat.lt_or_ge left (settings.react input).said.toUTF8.size with beyond | fits
        · obtain ⟨⟨later, output⟩, recorded⟩ := exists_converse_said bounded written input
          have full : Sink.write ⟨written ++ prompt.toUTF8, some left⟩ _ = _ :=
            Sink.write_overflows _ _ rfl beyond
          rw [converse_untold prompted full]
          exact .of_overflows output recorded beyond
        · have told : Sink.write ⟨written ++ prompt.toUTF8, some left⟩ _ = _ :=
            Sink.write_fits _ _ rfl fits
          have whole : written ++ (prompt ++ (settings.react input).said).toUTF8 =
              written ++ prompt.toUTF8 ++ (settings.react input).said.toUTF8 := by
            simp [ByteArray.append_assoc]
          cases ends : (settings.react input).ending with
          | some ending =>
              rw [converse_ends prompted told ends, converse_ends_unbounded ends, whole]
              refine .of_fits ?_
              rw [ByteArray.size_append]
              exact Nat.add_le_add_left fits _
          | none =>
              have fewer := afterLine_length_lt (Settings.ne_nil_of_react ends)
              have onward := shorter _ fewer
                (written ++ prompt.toUTF8 ++ (settings.react input).said.toUTF8)
                (left - (settings.react input).said.toUTF8.size) _ rfl
              rw [ByteArray.size_append, Nat.add_assoc, Nat.add_sub_cancel' fits] at onward
              rw [converse_stays prompted told ends, converse_stays_unbounded ends, whole]
              exact onward.recordedAfter _

/-- With room for a number of bytes, a session writes so many bytes of what it
writes otherwise, or all of them if they are fewer.  If they are all there is
nothing else to tell it by.  If not, it ends for want of room, however it ends
otherwise, and its records are the first of those it leaves otherwise. -/
theorem run_truncated (settings : Settings) (bounded : settings.precision ≤ largestPrecision)
    (room : Nat) (input : List UInt8) :
    (run settings (some room) input).output =
        (run settings none input).output.extract 0
          (min room (run settings none input).output.size) ∧
      ((run settings none input).ending = .finished ∨
        (run settings none input).ending = .invalidText) ∧
      ((run settings none input).output.size ≤ room →
        run settings (some room) input = run settings none input) ∧
      (room < (run settings none input).output.size →
        (run settings (some room) input).ending = .sinkFull ∧
          (run settings (some room) input).records <+: (run settings none input).records) := by
  have truncates : Truncates room (run settings none input) (run settings (some room) input) := by
    have whole := converse_truncates bounded .empty room input
    rw [ByteArray.size_empty, Nat.zero_add] at whole
    exact whole.recordedAfter [.started settings]
  refine ⟨truncates.output_eq, ?_, truncates.fits, fun beyond => ?_⟩
  · obtain ⟨replies, _, _, whole⟩ := run_unbounded bounded input
    rw [whole]
    exact endingAt_cases (stop? input)
  · obtain ⟨_, began, full⟩ := truncates.overflows beyond
    exact ⟨full, began⟩

/-- There is room for the answer to `(`, but not for the end of its line; so the
line that is no text is never read. -/
theorem run_truncated_before_broken_line :
    defaultPrecision ≤ largestPrecision ∧
      (run ⟨.point, defaultPrecision⟩ none [40, 10, 255]).ending = .invalidText ∧
      (run ⟨.point, defaultPrecision⟩ (some 37) [40, 10, 255]).output =
        (prompt ++ rejection).toUTF8 ∧
      (run ⟨.point, defaultPrecision⟩ (some 37) [40, 10, 255]).ending = .sinkFull := by
  obtain ⟨output, _, _, full⟩ :=
    run_truncated ⟨.point, defaultPrecision⟩ (by decide) 37 [40, 10, 255]
  have whole : (run ⟨.point, defaultPrecision⟩ none [40, 10, 255]).output =
      (prompt ++ rejection ++ "\n" ++ prompt).toUTF8 := by decide +kernel
  rw [whole] at output full
  refine ⟨by decide, by decide +kernel, output.trans ?_, (full (by decide +kernel)).1⟩
  decide +kernel

end

end Session

end Reckoner
