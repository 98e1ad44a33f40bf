import Mathlib.Data.List.DropRight
import Mathlib.Data.List.SplitBy
import Reckoner.Proofs.Text.Bytes

namespace Reckoner

/-- Every line ends with its newline, the last one perhaps without. -/
def lines (input : List UInt8) : List (List UInt8) :=
  input.splitBy fun byte _ => byte != newline

def isLineEnd (character : Char) : Bool :=
  character == '\n' || character == '\r'

/-- What a line says, without the newlines and carriage returns it ends with;
nothing if its bytes are no text. -/
def lineText? (line : List UInt8) : Option String :=
  (String.fromUTF8? ⟨line.toArray⟩).map fun text =>
    String.ofList (text.toList.rdropWhile isLineEnd)

/-- No session goes on after such a line. -/
def isStop (line : List UInt8) : Bool :=
  match lineText? line with
  | none => true
  | some text => text == exitCommand

variable {line input : List UInt8}

theorem newline_not_mem_firstLine (input : List UInt8) : newline ∉ firstLine input := by
  intro member
  simpa using List.mem_takeWhile_imp member

theorem firstLine_append_afterLine (input : List UInt8) :
    firstLine input = input ∧ afterLine input = [] ∨
      firstLine input ++ newline :: afterLine input = input := by
  have whole :=
    List.takeWhile_append_dropWhile (p := fun byte => decide (byte ≠ newline)) (l := input)
  have stops := List.head?_dropWhile_not (fun byte => decide (byte ≠ newline)) input
  unfold firstLine afterLine
  cases tail : input.dropWhile fun byte => decide (byte ≠ newline) with
  | nil =>
      rw [tail, List.append_nil] at whole
      exact .inl ⟨whole, rfl⟩
  | cons byte rest =>
      simp only [tail, List.head?_cons, decide_eq_false_iff_not, Decidable.not_not] at stops
      rw [tail, stops] at whole
      exact .inr whole

/-- Bytes without a newline before the last one are one line. -/
theorem lines_concat (plain : newline ∉ line) (last : UInt8) :
    lines (line ++ [last]) = [line ++ [last]] := by
  apply List.splitBy_of_isChain (by simp)
  induction line with
  | nil => exact .singleton last
  | cons first rest ih =>
      rw [List.mem_cons, not_or] at plain
      apply List.isChain_cons.mpr
      exact ⟨fun _ _ => bne_iff_ne.mpr (Ne.symm plain.1), ih plain.2⟩

theorem lineText?_of_flatMap {line : List UInt8} (text : String)
    (encoded : text.toList.flatMap String.utf8EncodeChar = line) :
    lineText? line = some (String.ofList (text.toList.rdropWhile isLineEnd)) := by
  rw [lineText?, Text.fromUTF8?_eq_some_iff_flatMap.mpr encoded, Option.map_some]

theorem lineText?_concat_newline (line : List UInt8) :
    lineText? (line ++ [newline]) = lineText? line := by
  have ends : ∀ text : String, (text ++ "\n").toList.rdropWhile isLineEnd =
      text.toList.rdropWhile isLineEnd := by
    intro text
    rw [String.toList_append]
    exact List.rdropWhile_concat_pos isLineEnd _ '\n' rfl
  simp only [lineText?, Text.fromUTF8?_concat_newline, Option.map_map, Function.comp_def, ends]

/-- The first line says what the first turn hears, with its newline or without. -/
theorem lines_of_ne_nil (filled : input ≠ []) :
    ∃ line, lines input = line :: lines (afterLine input) ∧
      lineText? line = lineText? (firstLine input) := by
  have plain := newline_not_mem_firstLine input
  rcases firstLine_append_afterLine input with ⟨whole, nothing⟩ | split
  · refine ⟨input, ?_, by rw [whole]⟩
    rw [whole] at plain
    obtain ⟨bytes, last, rfl⟩ := (List.eq_nil_or_concat' input).resolve_left filled
    rw [nothing, lines_concat fun member => plain (List.mem_append_left _ member)]
    rfl
  · refine ⟨firstLine input ++ [newline], ?_, lineText?_concat_newline _⟩
    have apart : lines ((firstLine input ++ [newline]) ++ afterLine input) =
        lines (firstLine input ++ [newline]) ++ lines (afterLine input) := by
      apply List.splitBy_append
      simp
    rw [lines_concat plain, List.append_assoc, List.singleton_append, split] at apart
    exact apart

theorem lines_of_mem (member : line ∈ lines input) : line ≠ [] ∧ lines line = [line] := by
  have filled := List.ne_nil_of_mem_splitBy member
  exact ⟨filled, List.splitBy_of_isChain filled (List.isChain_of_mem_splitBy member)⟩

theorem withoutReturns_eq {text : String} (plain : '\n' ∉ text.toList) :
    withoutReturns text = String.ofList (text.toList.rdropWhile isLineEnd) := by
  change String.ofList (text.toList.rdropWhile (· == '\r')) = _
  congr 1
  generalize text.toList = characters at plain
  induction characters using List.reverseRecOn with
  | nil => rfl
  | append_singleton characters last ih =>
      rw [List.mem_append, not_or, List.mem_singleton] at plain
      have same : (last == '\r') = isLineEnd last := by
        simp [isLineEnd, Ne.symm plain.2]
      simp only [List.rdropWhile_concat, same, ih plain.1]

/-- A turn does what the text of its line says. -/
theorem Turn.ofLine_eq (plain : newline ∉ line) :
    Turn.ofLine line = match lineText? line with
      | none => .leave .invalidText
      | some text => if text = exitCommand then .leave .finished else .ask text := by
  unfold Turn.ofLine lineText?
  cases decoded : String.fromUTF8? ⟨line.toArray⟩ with
  | none => rfl
  | some text =>
      have ended : '\n' ∉ text.toList := by
        rw [Text.fromUTF8?_eq_some_iff_flatMap] at decoded
        rw [← Text.newline_mem_flatMap, decoded]
        exact plain
      simp only [withoutReturns_eq ended, Option.map_some]

/-- A session reacts to the first of the lines that are left, and to what it says. -/
theorem Settings.react_of_ne_nil (settings : Settings) (filled : input ≠ []) :
    ∃ line, lines input = line :: lines (afterLine input) ∧
      settings.react input = match lineText? line with
        | none => ⟨"", [], some .invalidText⟩
        | some text =>
            if text = exitCommand then ⟨"", [], some .finished⟩
            else settings.reactTo (.ask text) := by
  obtain ⟨line, split, heard⟩ := lines_of_ne_nil filled
  obtain ⟨byte, rest, rfl⟩ := List.exists_cons_of_ne_nil filled
  refine ⟨line, split, ?_⟩
  rw [react, Turn.ofLine_eq (newline_not_mem_firstLine _), ← heard]
  cases lineText? line with
  | none => rfl
  | some text =>
      dsimp only
      split <;> rfl

/-- So it reacts in the same way if it is given its input line by line. -/
theorem Settings.react_line (settings : Settings) {more : List (List UInt8)}
    (split : lines input = line :: more) : settings.react line = settings.react input := by
  have filled : input ≠ [] := by
    rintro rfl
    cases split
  obtain ⟨filled', alone⟩ := lines_of_mem (split ▸ List.mem_cons_self)
  obtain ⟨first, split', whole⟩ := settings.react_of_ne_nil filled
  obtain ⟨single, split'', part⟩ := settings.react_of_ne_nil filled'
  obtain ⟨rfl, _⟩ := List.cons_eq_cons.mp (split.symm.trans split')
  obtain ⟨rfl, _⟩ := List.cons_eq_cons.mp (alone.symm.trans split'')
  rw [whole, part]

end Reckoner
