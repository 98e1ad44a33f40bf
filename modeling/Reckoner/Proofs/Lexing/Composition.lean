import Reckoner.Proofs.Lexing.Joining

namespace Reckoner

def LexError.moved (move : Nat → Nat) : LexError → LexError
  | .unexpectedCharacter character position => .unexpectedCharacter character (move position)
  | .malformedNumber literal position => .malformedNumber literal (move position)

/-- The text divides what stands around it, and consists of these tokens. -/
inductive Divides : List Char → List Token → Prop where
  | blanks {text} (filled : text ≠ []) (blank : ∀ character ∈ text, isBlank character = true) :
      Divides text []
  | sign {character token} (signs : Token.ofChar? character = some token) :
      Divides [character] [token]

namespace Divides

variable {divider : List Char} {between : List Token}

theorem detached (divides : Divides divider between) (rest : List Char) :
    Lexeme.Detached (divider ++ rest) := by
  cases divides with
  | blanks filled blank =>
      obtain ⟨first, more, rfl⟩ := List.exists_cons_of_ne_nil filled
      intro character others same
      cases same
      rcases Bool.or_eq_true_iff.mp (blank first List.mem_cons_self) with space | line
      · rw [eq_of_beq space]
        decide
      · rw [eq_of_beq line]
        decide
  | sign signs => exact Lexeme.detached_sign signs rest

theorem scan_append (divides : Divides divider between) (separator : Separator) (position : Nat)
    (found : List Lexeme) (rest : List Char) :
    Lexeme.scan separator position found (divider ++ rest) =
      Lexeme.scan separator (position + divider.length)
        ((between.map (Lexeme.mk · position)).reverse ++ found) rest := by
  cases divides with
  | blanks filled blank => exact Lexeme.scan_blanks blank found rest
  | sign signs => exact Lexeme.scan_sign separator position found signs rest

end Divides

namespace Lexeme

end Lexeme

theorem Layout.Valid.utf8Size {separator : Separator} {layout : Layout}
    (valid : layout.Valid separator) : ∀ character ∈ layout.text, character.utf8Size = 1 := by
  intro character member
  rcases List.mem_append.mp member with blank | written
  · exact utf8Size_of_isBlank (valid.indent character blank)
  · obtain ⟨entry, among, inside⟩ := List.mem_flatMap.mp written
    rcases List.mem_append.mp inside with spelled | blank
    · exact (valid.spelled entry among).utf8Size character spelled
    · exact utf8Size_of_isBlank (valid.gaps entry among character blank)

section

variable {separator : Separator} {left divider right : String} {between : List Token}

end

end Reckoner
