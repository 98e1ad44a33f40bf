import Reckoner.Proofs.Lexing.Numeral
import Reckoner.Proofs.Text.Bytes

namespace Reckoner

/-! Texts in which point and comma change places.  The exchange undoes itself,
and it can be made in the characters or in their bytes: no other character
contains the byte of a point or of a comma.
-/

namespace Exchange

def char (character : Char) : Char :=
  if character = '.' then ',' else if character = ',' then '.' else character

def text (source : String) : String :=
  String.ofList (source.toList.map char)

def byte (value : UInt8) : UInt8 :=
  if value = 46 then 44 else if value = 44 then 46 else value

def bytes (values : ByteArray) : ByteArray :=
  ⟨values.data.map byte⟩

theorem char_cases (character : Char) :
    character = '.' ∧ char character = ',' ∨ character = ',' ∧ char character = '.' ∨
      character ≠ '.' ∧ character ≠ ',' ∧ char character = character := by
  unfold char
  split
  · exact .inl ⟨‹_›, rfl⟩
  · split
    · exact .inr (.inl ⟨‹_›, rfl⟩)
    · exact .inr (.inr ⟨‹_›, ‹_›, rfl⟩)

/-- What does not tell a point from a comma does not notice the exchange. -/
theorem apply_char {α : Type} (view : Char → α) (alike : view '.' = view ',') (character : Char) :
    view (char character) = view character := by
  rcases char_cases character with ⟨rfl, same⟩ | ⟨rfl, same⟩ | ⟨_, _, same⟩
  · rw [same, alike]
  · rw [same, alike]
  · rw [same]

theorem isNumeral_char (character : Char) : isNumeral (char character) = isNumeral character :=
  apply_char isNumeral rfl character

theorem isDigit_char (character : Char) : (char character).isDigit = character.isDigit :=
  apply_char Char.isDigit rfl character

theorem isBlank_char (character : Char) : isBlank (char character) = isBlank character :=
  apply_char isBlank rfl character

theorem char_char (character : Char) : char (char character) = character := by
  rcases char_cases character with ⟨rfl, _⟩ | ⟨rfl, _⟩ | ⟨_, _, same⟩
  · rfl
  · rfl
  · rw [same, same]

theorem char_injective : Function.Injective char :=
  Function.LeftInverse.injective char_char

theorem char_separator (separator : Separator) : char separator.char = separator.other.char := by
  cases separator <;> rfl

theorem char_of_not_isNumeral {character : Char} (plain : isNumeral character = false) :
    char character = character := by
  rcases char_cases character with ⟨rfl, _⟩ | ⟨rfl, _⟩ | ⟨_, _, same⟩
  · cases plain
  · cases plain
  · exact same

theorem char_of_isDigit {character : Char} (digit : character.isDigit = true) :
    char character = character := by
  rcases char_cases character with ⟨rfl, _⟩ | ⟨rfl, _⟩ | ⟨_, _, same⟩
  · cases digit
  · cases digit
  · exact same

theorem map_eq_self {characters : List Char}
    (fixed : ∀ character ∈ characters, char character = character) :
    characters.map char = characters :=
  (List.map_congr_left fixed).trans (List.map_id characters)

@[simp] theorem text_ofList (characters : List Char) :
    text (String.ofList characters) = String.ofList (characters.map char) := by
  rw [text, String.toList_ofList]

@[simp] theorem toList_text (source : String) : (text source).toList = source.toList.map char :=
  String.toList_ofList

theorem text_append (left right : String) : text (left ++ right) = text left ++ text right := by
  rw [text, String.toList_append, List.map_append, String.ofList_append]
  rfl

/-- A text without numerals stays as it is. -/
theorem text_of_plain {source : String} (plain : source.toList.any isNumeral = false) :
    text source = source := by
  rw [text, map_eq_self, String.ofList_toList]
  intro character member
  exact char_of_not_isNumeral (by simpa using List.any_eq_false.mp plain character member)

theorem text_text (source : String) : text (text source) = source := by
  have twice : source.toList.map (char ∘ char) = source.toList :=
    (List.map_congr_left fun character _ => char_char character).trans (List.map_id _)
  rw [text, toList_text, List.map_map, twice, String.ofList_toList]

theorem text_injective : Function.Injective text :=
  Function.LeftInverse.injective text_text

theorem byte_byte (value : UInt8) : byte (byte value) = value := by
  unfold byte
  split
  · simp [*]
  · split
    · simp [*]
    · simp [*]

theorem byte_ofNat {value : Nat} (point : value % 256 ≠ 46) (comma : value % 256 ≠ 44) :
    byte (UInt8.ofNat value) = UInt8.ofNat value := by
  unfold byte
  rw [if_neg, if_neg]
  · exact fun same => comma (congrArg UInt8.toNat same)
  · exact fun same => point (congrArg UInt8.toNat same)

theorem map_utf8EncodeChar (character : Char) :
    (String.utf8EncodeChar character).map byte = String.utf8EncodeChar (char character) := by
  rcases char_cases character with ⟨rfl, _⟩ | ⟨rfl, _⟩ | ⟨point, comma, same⟩
  · rfl
  · rfl
  · have unlike : ∀ other : Char, character ≠ other → character.val.toNat ≠ other.val.toNat :=
      fun other ne same => ne (Char.ext (UInt32.toNat_inj.mp same))
    have noPoint : character.val.toNat ≠ 46 := unlike '.' point
    have noComma : character.val.toNat ≠ 44 := unlike ',' comma
    rw [same]
    refine (List.map_congr_left fun value member => ?_).trans (List.map_id _)
    -- Beyond ASCII all bytes are 128 or more.
    unfold String.utf8EncodeChar at member
    dsimp only at member
    split_ifs at member
    all_goals
      simp only [List.mem_cons, List.not_mem_nil, or_false] at member
      rcases member with rfl | rfl | rfl | rfl
    all_goals exact byte_ofNat (by omega) (by omega)

theorem bytes_bytes (values : ByteArray) : bytes (bytes values) = values := by
  have twice : byte ∘ byte = id := funext byte_byte
  refine ByteArray.ext ?_
  rw [bytes, bytes, Array.map_map, twice, Array.map_id]

theorem toUTF8_text (source : String) : (text source).toUTF8 = bytes source.toUTF8 := by
  apply ByteArray.ext
  rw [Text.toUTF8_eq, Text.toUTF8_eq, bytes, List.data_toByteArray, List.data_toByteArray,
    toList_text, List.flatMap_map, List.map_toArray, List.map_flatMap]
  simp only [map_utf8EncodeChar]

theorem fromUTF8?_bytes (values : ByteArray) :
    String.fromUTF8? (bytes values) = (String.fromUTF8? values).map text := by
  refine Option.ext fun source => ?_
  have undone : (String.fromUTF8? values).map text = some source ↔
      String.fromUTF8? values = some (text source) := by
    rw [Option.map_eq_some_iff]
    constructor
    · intro found
      obtain ⟨original, found, rfl⟩ := found
      rw [text_text, found]
    · exact fun found => ⟨_, found, text_text source⟩
  rw [undone, Text.fromUTF8?_eq_some_iff, Text.fromUTF8?_eq_some_iff, toUTF8_text]
  constructor
  · intro same
    rw [same, bytes_bytes]
  · intro same
    rw [← same, bytes_bytes]

end Exchange

end Reckoner
