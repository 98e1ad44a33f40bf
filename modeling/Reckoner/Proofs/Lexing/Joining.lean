import Reckoner.Proofs.Lexing.Layout

namespace Reckoner

def Lexeme.moved (move : Nat → Nat) (lexeme : Lexeme) : Lexeme :=
  ⟨lexeme.token, move lexeme.position⟩

theorem Lexeme.map_moved_back (distance : Nat) (lexemes : List Lexeme) :
    (lexemes.map (Lexeme.moved (distance + ·))).map (Lexeme.moved (· - distance)) = lexemes := by
  rw [List.map_map]
  refine (List.map_congr_left fun lexeme _ => ?_).trans (List.map_id lexemes)
  simp only [Function.comp_apply, Lexeme.moved, Nat.add_sub_cancel_left, id]

theorem Spells.byteSize_pos {separator : Separator} {text : List Char} {token : Token}
    (spells : Spells separator text token) : 0 < byteSize text := by
  obtain ⟨first, more, starts, _⟩ := spells.starts
  rw [byteSize_eq_length spells.utf8Size, starts]
  exact Nat.succ_pos _

namespace Layout

variable {separator : Separator} {before : List Char} {entries : List Entry}

def joined (left : Layout) (text : List Char) (token : Token) (right : Layout) : Layout :=
  ⟨left.indent, left.entries ++ ⟨text, token, right.indent⟩ :: right.entries⟩

theorem text_joined (left : Layout) (written : List Char) (token : Token) (right : Layout) :
    (joined left written token right).text = left.text ++ (written ++ right.text) := by
  simp only [joined, text, List.flatMap_append, List.flatMap_cons, List.append_assoc]

theorem lexemesAfter_append (before : List Char) (entries more : List Entry) :
    lexemesAfter before (entries ++ more) =
      lexemesAfter before entries ++ lexemesAfter (text ⟨before, entries⟩) more := by
  induction entries generalizing before with
  | nil => simp [lexemesAfter, text]
  | cons entry entries ih =>
      rw [List.cons_append, lexemesAfter, lexemesAfter, ih, List.cons_append]
      simp only [text, List.flatMap_cons, List.append_assoc]

/-- More text before the entries moves their lexemes. -/
theorem lexemesAfter_moved (earlier before : List Char) (entries : List Entry) :
    lexemesAfter (earlier ++ before) entries =
      (lexemesAfter before entries).map (Lexeme.moved (byteSize earlier + ·)) := by
  induction entries generalizing before with
  | nil => rfl
  | cons entry entries ih =>
      rw [lexemesAfter, lexemesAfter, List.map_cons, List.append_assoc, List.append_assoc,
        ← List.append_assoc before, ih, byteSize_append]
      rfl

theorem lexemes_joined (left : Layout) (written : List Char) (token : Token) (right : Layout) :
    (joined left written token right).lexemes = left.lexemes ++ ⟨token, byteSize left.text⟩ ::
      right.lexemes.map (Lexeme.moved (byteSize (left.text ++ written) + ·)) := by
  rw [lexemes, joined, lexemesAfter_append, lexemesAfter, lexemesAfter_moved]
  rfl

theorem Valid.joined {left right : Layout} {written : List Char} {token : Token}
    (valid : left.Valid separator) (spells : Spells separator written token)
    (plain : token.isNumber = false) (valid' : right.Valid separator) :
    (Layout.joined left written token right).Valid separator := by
  have counts : token.isNumber ≠ true := by simp [plain]
  refine ⟨valid.indent, ?_, ?_, ?_⟩
  · exact List.forall_mem_append.mpr
      ⟨valid.spelled, List.forall_mem_cons.mpr ⟨spells, valid'.spelled⟩⟩
  · exact List.forall_mem_append.mpr
      ⟨valid.gaps, List.forall_mem_cons.mpr ⟨valid'.indent, valid'.gaps⟩⟩
  · refine List.isChain_append.mpr ⟨valid.apart, ?_, ?_⟩
    · refine List.isChain_cons.mpr ⟨?_, valid'.apart⟩
      exact fun _ _ number => absurd number counts
    · intro entry _ next starts _ number
      cases starts
      exact absurd number counts

theorem position_of_mem {lexeme : Lexeme}
    (spelled : ∀ entry ∈ entries, Spells separator entry.text entry.token)
    (member : lexeme ∈ lexemesAfter before entries) :
    byteSize before ≤ lexeme.position ∧ lexeme.position < byteSize (text ⟨before, entries⟩) := by
  induction entries generalizing before with
  | nil => cases member
  | cons entry entries ih =>
      have filled := (spelled entry List.mem_cons_self).byteSize_pos
      have whole : text ⟨before, entry :: entries⟩ =
          before ++ (entry.text ++ text ⟨entry.gap, entries⟩) := text_cons
      have rest : text ⟨before ++ entry.text ++ entry.gap, entries⟩ =
          text ⟨before, entry :: entries⟩ := by
        simp only [text, List.flatMap_cons, List.append_assoc]
      rcases List.mem_cons.mp member with rfl | later
      · rw [whole, byteSize_append, byteSize_append]
        dsimp only
        exact ⟨Nat.le_refl _, by omega⟩
      · have bounds := ih (fun next member => spelled next (List.mem_cons_of_mem _ member)) later
        rw [rest, byteSize_append, byteSize_append] at bounds
        exact ⟨by omega, bounds.2⟩

theorem Valid.of_joined {left right : Layout} {written : List Char} {token : Token}
    (valid : (Layout.joined left written token right).Valid separator) :
    left.Valid separator ∧ Spells separator written token ∧ right.Valid separator := by
  obtain ⟨blank, spelled, gaps, apart⟩ := valid
  obtain ⟨leftSpelled, spelled⟩ := List.forall_mem_append.mp spelled
  obtain ⟨leftGaps, gaps⟩ := List.forall_mem_append.mp gaps
  obtain ⟨spells, rightSpelled⟩ := List.forall_mem_cons.mp spelled
  obtain ⟨gap, rightGaps⟩ := List.forall_mem_cons.mp gaps
  obtain ⟨leftApart, apart, _⟩ := List.isChain_append.mp apart
  exact ⟨⟨blank, leftSpelled, leftGaps, leftApart⟩, spells,
    ⟨gap, rightSpelled, rightGaps, apart.tail⟩⟩

theorem position_lt {layout : Layout} (valid : layout.Valid separator) {lexeme : Lexeme}
    (member : lexeme ∈ layout.lexemes) : lexeme.position < byteSize layout.text :=
  (position_of_mem valid.spelled member).2

theorem pairwise_lexemesAfter
    (spelled : ∀ entry ∈ entries, Spells separator entry.text entry.token) :
    (lexemesAfter before entries).Pairwise fun lexeme next => lexeme.position < next.position := by
  induction entries generalizing before with
  | nil => exact .nil
  | cons entry entries ih =>
      obtain ⟨spells, spelled⟩ := List.forall_mem_cons.mp spelled
      refine List.pairwise_cons.mpr ⟨fun next member => ?_, ih spelled⟩
      have later := (position_of_mem spelled member).1
      rw [byteSize_append, byteSize_append] at later
      have filled := spells.byteSize_pos
      dsimp only
      omega

/-- Every lexeme stands before all that come after it. -/
theorem pairwise_position {layout : Layout} (valid : layout.Valid separator) :
    layout.lexemes.Pairwise fun lexeme next => lexeme.position < next.position :=
  pairwise_lexemesAfter valid.spelled

/-- A number with nothing around it. -/
def numeral (separator : Separator) (written : List Char) : Layout :=
  ⟨[], [⟨written, .number (Double.toFloat (Double.ofDecimal (separator.decimal written))), []⟩]⟩

theorem Valid.numeral {written : List Char} (numeral : separator.Numeral written) :
    (Layout.numeral separator written).Valid separator :=
  ⟨nofun, List.forall_mem_singleton.mpr (.numeral numeral), List.forall_mem_singleton.mpr nofun,
    .singleton _⟩

end Layout

theorem Separator.Numeral.of_isDigit {separator : Separator} {digit : Char}
    (isDigit : digit.isDigit = true) : separator.Numeral [digit] := by
  have unlike := separator.ne_char_of_isDigit isDigit
  refine ⟨?_, ⟨digit, List.mem_singleton_self digit, isDigit⟩, ?_⟩
  · exact List.forall_mem_singleton.mpr (.inl isDigit)
  · rw [List.count_singleton]
    split <;> omega

end Reckoner
