import Mathlib.Data.List.Basic
import Mathlib.Tactic.SplitIfs
import Reckoner.Session

namespace Reckoner.Text

theorem toUTF8_eq (text : String) :
    text.toUTF8 = (text.toList.flatMap String.utf8EncodeChar).toByteArray := by
  rw [String.toUTF8_eq_toByteArray, ← String.utf8Encode_toList, List.utf8Encode]

theorem fromUTF8?_eq_some_iff {values : ByteArray} {source : String} :
    String.fromUTF8? values = some source ↔ source.toUTF8 = values := by
  unfold String.fromUTF8?
  split
  next valid =>
    rw [Option.some.injEq, ← String.toByteArray_inj, String.toUTF8_eq_toByteArray, eq_comm]
    rfl
  next invalid =>
    refine iff_of_false nofun fun same => invalid ?_
    rw [← same]
    exact source.isValidUTF8

theorem fromUTF8?_eq_some_iff_flatMap {line : List UInt8} {source : String} :
    String.fromUTF8? ⟨line.toArray⟩ = some source ↔
      source.toList.flatMap String.utf8EncodeChar = line := by
  rw [fromUTF8?_eq_some_iff, toUTF8_eq, ByteArray.ext_iff, List.data_toByteArray]
  simp

theorem utf8EncodeChar_newline : String.utf8EncodeChar '\n' = [newline] := by
  decide

theorem newline_mem_utf8EncodeChar {character : Char} :
    newline ∈ String.utf8EncodeChar character ↔ character = '\n' := by
  constructor
  · intro member
    -- Beyond ASCII all bytes are 128 or more.
    have same : character.val.toNat = 10 := by
      unfold String.utf8EncodeChar at member
      dsimp only at member
      split_ifs at member
      all_goals
        simp only [List.mem_cons, List.not_mem_nil, or_false, newline, ← UInt8.toNat_inj,
          UInt8.toNat_ofNat', UInt8.reduceToNat] at member
        omega
    exact Char.ext (UInt32.toNat_inj.mp same)
  · intro same
    rw [same]
    decide

theorem newline_mem_flatMap {characters : List Char} :
    newline ∈ characters.flatMap String.utf8EncodeChar ↔ '\n' ∈ characters := by
  rw [List.mem_flatMap]
  simp only [newline_mem_utf8EncodeChar, exists_eq_right]

theorem ends_newline {source : String} {line : List UInt8}
    (encoded : source.toList.flatMap String.utf8EncodeChar = line ++ [newline]) :
    ∃ before, source = before ++ "\n" := by
  rcases List.eq_nil_or_concat' source.toList with empty | ⟨characters, last, ends⟩
  · simp [empty] at encoded
  · rw [ends, List.flatMap_append, List.flatMap_singleton] at encoded
    have final := congrArg List.getLast? encoded
    have found := List.getLast?_eq_some_getLast (String.utf8EncodeChar_ne_nil (c := last))
    rw [List.getLast?_append, found, List.getLast?_concat, Option.some_or,
      Option.some.injEq] at final
    have member := List.mem_of_getLast? (final ▸ found)
    rw [newline_mem_utf8EncodeChar.mp member] at ends
    exact ⟨String.ofList characters, by simp [← String.toList_inj, ends]⟩

/-- A newline at the end of the bytes is one at the end of the text. -/
theorem fromUTF8?_concat_newline (line : List UInt8) :
    String.fromUTF8? ⟨(line ++ [newline]).toArray⟩ =
      (String.fromUTF8? ⟨line.toArray⟩).map (· ++ "\n") := by
  apply Option.ext
  intro source
  rw [Option.map_eq_some_iff, fromUTF8?_eq_some_iff_flatMap]
  simp only [fromUTF8?_eq_some_iff_flatMap]
  constructor
  · intro encoded
    obtain ⟨before, rfl⟩ : ∃ before, source = before ++ "\n" := ends_newline encoded
    refine ⟨before, ?_, rfl⟩
    rw [String.toList_append, List.flatMap_append] at encoded
    exact List.append_cancel_right encoded
  · intro encoded
    obtain ⟨before, rfl, rfl⟩ := encoded
    simp [utf8EncodeChar_newline]

end Reckoner.Text
