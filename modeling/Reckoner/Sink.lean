namespace Reckoner

/-- What has been written, and the room that is left; without a number there is
always room. -/
structure Sink where
  written : ByteArray
  room : Option Nat

namespace Sink

def fresh (room : Option Nat) : Sink :=
  ⟨.empty, room⟩

/-- Writes a text, or as much of it as there is room for, and tells whether all
of it was written. -/
def write (sink : Sink) (text : String) : Sink × Bool :=
  let bytes := text.toUTF8
  match sink.room with
  | none => (⟨sink.written ++ bytes, none⟩, true)
  | some room =>
      if bytes.size ≤ room then (⟨sink.written ++ bytes, some (room - bytes.size)⟩, true)
      else (⟨sink.written ++ bytes.extract 0 room, some 0⟩, false)

theorem write_unbounded (sink : Sink) (text : String) (unbounded : sink.room = none) :
    sink.write text = (⟨sink.written ++ text.toUTF8, none⟩, true) := by
  simp only [write, unbounded]

theorem write_fits (sink : Sink) (text : String) {room : Nat} (bounded : sink.room = some room)
    (fits : text.toUTF8.size ≤ room) :
    sink.write text =
      (⟨sink.written ++ text.toUTF8, some (room - text.toUTF8.size)⟩, true) := by
  simp only [write, bounded, if_pos fits]

theorem write_overflows (sink : Sink) (text : String) {room : Nat}
    (bounded : sink.room = some room) (overflows : room < text.toUTF8.size) :
    sink.write text = (⟨sink.written ++ text.toUTF8.extract 0 room, some 0⟩, false) := by
  simp only [write, bounded, if_neg (Nat.not_le_of_lt overflows)]

end Sink

end Reckoner
