import Reckoner.Proofs.Double.ReadBack
import Reckoner.Proofs.Expr.Spelling
import Reckoner.Proofs.Lexing.Layout

namespace Reckoner

namespace Formula

/-- The texts of the numbers have neither signs nor names. -/
def Unsigned (formula : Formula) : Prop :=
  ∀ value ∈ formula.literals, ∃ rung, Double.ofFloat value = .finite false rung

theorem scan_number {value : Float} {rung : Nat}
    (finite : Double.ofFloat value = .finite false rung) (position : Nat) :
    Lexeme.scan .point position [] (Double.ofFloat value).text =
      .ok [⟨.number value, position⟩] := by
  obtain ⟨below, same⟩ := Double.toFloat_of_ofFloat finite
  have scanned := Lexeme.scan_decimal .point position (Double.shortest rung)
  rw [Double.ofDecimal_shortest below, same] at scanned
  rw [finite]
  exact scanned

theorem detached_space (rest : List Char) : Lexeme.Detached (' ' :: rest) := by
  intro first others same
  cases same
  decide

theorem detached_closing (rest : List Char) : Lexeme.Detached (')' :: rest) :=
  Lexeme.detached_sign (rfl : Token.ofChar? ')' = some .closing) rest

theorem scan_unary (operator : UnaryOp) (position : Nat) (found : List Lexeme) (rest : List Char) :
    ∃ after, Lexeme.scan .point position found (operator.symbol.toList ++ ' ' :: rest) =
      Lexeme.scan .point after (⟨operator.token, position⟩ :: found) rest := by
  cases operator with
  | negate =>
      refine ⟨position + 1 + 1, (Lexeme.scan_sign _ _ _ rfl _).trans ?_⟩
      exact Lexeme.scan_blank _ _ _ _ rfl
  | ln =>
      refine ⟨position + 3 + 1, (Lexeme.scan_log _ _ _ _).trans ?_⟩
      exact Lexeme.scan_blank _ _ _ _ rfl

theorem scan_text {formula : Formula} (unsigned : formula.Unsigned) (position : Nat) :
    ∃ lexemes, Lexeme.scan .point position [] formula.text = .ok lexemes ∧
      formula.Spelled lexemes := by
  induction formula generalizing position with
  | literal value =>
      obtain ⟨rung, finite⟩ := unsigned value (by simp [literals])
      exact ⟨_, scan_number finite position, rfl⟩
  | unary operator operand ih =>
      obtain ⟨start, scanned⟩ := scan_unary operator (position + 1) [⟨.opening, position⟩]
        (operand.text ++ [')'])
      obtain ⟨inside, insideScanned, spelled⟩ := ih unsigned start
      refine ⟨⟨.opening, position⟩ :: ⟨operator.token, position + 1⟩ ::
        (inside ++ [⟨.closing, start + operand.text.length⟩]), ?_, ?_⟩
      · rw [text, Lexeme.scan_sign _ _ _ rfl, scanned,
          Lexeme.scan_of_scan insideScanned (detached_closing _), Lexeme.scan_sign _ _ _ rfl,
          Lexeme.scan_nil]
        simp
      · have same : inside.map Lexeme.token = operand.tokens := spelled
        simp [Spelled, tokens, same]
  | binary operator left right leftIH rightIH =>
      obtain ⟨before, beforeScanned, beforeSpelled⟩ := leftIH
        (fun value member => unsigned value (List.mem_append_left _ member)) (position + 1)
      obtain ⟨after, afterScanned, afterSpelled⟩ := rightIH
        (fun value member => unsigned value (List.mem_append_right _ member))
        (position + 1 + left.text.length + 1 + 1 + 1)
      refine ⟨⟨.opening, position⟩ :: (before ++
        ⟨.operator operator, position + 1 + left.text.length + 1⟩ :: (after ++
          [⟨.closing, position + 1 + left.text.length + 1 + 1 + 1 + right.text.length⟩])), ?_, ?_⟩
      · rw [text, Lexeme.scan_sign _ _ _ rfl,
          Lexeme.scan_of_scan beforeScanned (detached_space _), Lexeme.scan_blank _ _ _ _ rfl,
          Lexeme.scan_sign _ _ _ (Token.ofChar?_symbol operator), Lexeme.scan_blank _ _ _ _ rfl,
          Lexeme.scan_of_scan afterScanned (detached_closing _), Lexeme.scan_sign _ _ _ rfl,
          Lexeme.scan_nil]
        simp
      · have leftSame : before.map Lexeme.token = left.tokens := beforeSpelled
        have rightSame : after.map Lexeme.token = right.tokens := afterSpelled
        simp [Spelled, tokens, leftSame, rightSame]

theorem Spelled.exists_ofLexemes {formula : Formula} {lexemes : List Lexeme}
    (spelled : formula.Spelled lexemes) (room : formula.depth ≤ 128) :
    ∃ expr, Expr.ofLexemes lexemes = .ok expr ∧ expr.unplaced = formula.expr := by
  have fits : formula.Fits .standard 0 := fun level below =>
    decide_eq_true (show 0 + level < 128 by omega)
  obtain ⟨expr, derives, same⟩ := spelled.derives fits
  exact ⟨expr, Expr.ofLexemes_of_accepted derives.sum_of_primary.reads_all, same⟩

theorem Spelled.ofLexemes_tooDeep {formula : Formula} {lexemes : List Lexeme}
    (spelled : formula.Spelled lexemes) (deep : 128 < formula.depth) :
    ∃ position, Expr.ofLexemes lexemes = .error (.nestingTooDeep position) := by
  have free : formula.Fits none 0 := fun _ _ => rfl
  obtain ⟨expr, derives, _⟩ := spelled.derives free
  have reads : Reads none (.expression .sum) 0 (lexemes ++ (Reading.accepted expr []).rest)
    (.accepted expr []) := derives.sum_of_primary.reads [] nofun
  rcases Tier.bounded 128 reads with ⟨within, _⟩ | ⟨before, lexeme, ⟨after, rfl⟩, _, stops⟩
  · have opens : Place.Opens 0 Tier.sum.start lexemes _ :=
      spelled.opens _ nofun (Nat.zero_lt_of_lt deep)
    obtain ⟨before, lexeme, after, rfl, opensAt⟩ := opens
    have bounded := within before lexeme _ ⟨after, by simp⟩ opensAt
    have start : Tier.sum.start.around.length = 0 := rfl
    omega
  · have stopped := stops after
    rw [List.append_cons] at stopped
    exact ⟨lexeme.position, Expr.ofLexemes_of_rejected (by simp) stopped⟩

end Formula

namespace Expr

theorem tokenize_text {expr : Expr} (unsigned : expr.formula.Unsigned) :
    ∃ lexemes, tokenize .point expr.text = .ok lexemes ∧ expr.formula.Spelled lexemes := by
  rw [tokenize_eq_scan, text_eq_formula]
  exact Formula.scan_text unsigned 0

/-- The text of an expression without signed numbers always has lexemes.  Up to
the nesting that is allowed they spell the same expression, chains taken apart
and positions aside, with the same text and the same value; beyond it they are
rejected for their nesting. -/
theorem ofLexemes_text {expr : Expr} (unsigned : expr.formula.Unsigned) :
    ∃ lexemes, tokenize .point expr.text = .ok lexemes ∧
      (expr.formula.depth ≤ 128 → ∃ read, ofLexemes lexemes = .ok read ∧
        read.unplaced = expr.formula.expr ∧ read.text = expr.text ∧ read.eval = expr.eval) ∧
      (128 < expr.formula.depth → ∃ position,
        ofLexemes lexemes = .error (.nestingTooDeep position)) := by
  obtain ⟨lexemes, scanned, spelled⟩ := tokenize_text unsigned
  refine ⟨lexemes, scanned, fun room => ?_, fun deep => ?_⟩
  · obtain ⟨read, reads, same⟩ := spelled.exists_ofLexemes room
    have formulas : read.formula = expr.formula := by
      rw [← formula_unplaced read, same, expr.formula.formula_expr]
    refine ⟨read, reads, same, ?_, ?_⟩
    · apply String.toList_injective
      rw [text_eq_formula, text_eq_formula, formulas]
    · rw [eval_eq_formula, eval_eq_formula, formulas]
  · exact spelled.ofLexemes_tooDeep deep

/-- `8 - -2 - 3 ^ 0.5` as one chain: its text is `((8 - (- 2)) - (3 ^ 0.5))`, and
what is read from that is two chains of one link each. -/
theorem ofLexemes_text_of_chain :
    ∃ lexemes read,
      tokenize .point (chain (.literal 8 0) [⟨.sub, 2, .unary .negate 4 (.literal 2 5)⟩,
        ⟨.sub, 7, .binary .pow 11 (.literal 3 9) (.literal 0.5 13)⟩]).text = .ok lexemes ∧
      ofLexemes lexemes = .ok read ∧
      read.unplaced = .chain
        (.chain (.literal 8 0) [⟨.sub, 0, .unary .negate 0 (.literal 2 0)⟩])
        [⟨.sub, 0, .binary .pow 0 (.literal 3 0) (.literal 0.5 0)⟩] ∧
      read.eval = 8 - -2 - Float.pow 3 0.5 := by
  have unsigned : (chain (.literal 8 0) [⟨.sub, 2, .unary .negate 4 (.literal 2 5)⟩,
      ⟨.sub, 7, .binary .pow 11 (.literal 3 9) (.literal 0.5 13)⟩]).formula.Unsigned := by
    intro value member
    have cases : value ∈ [(8 : Float), 2, 3, 0.5] := member
    simp only [List.mem_cons, List.not_mem_nil, or_false] at cases
    rcases cases with rfl | rfl | rfl | rfl
    · exact ⟨0x4020000000000000, rfl⟩
    · exact ⟨0x4000000000000000, rfl⟩
    · exact ⟨0x4008000000000000, rfl⟩
    · exact ⟨0x3FE0000000000000, rfl⟩
  obtain ⟨lexemes, scanned, shallow, _⟩ := ofLexemes_text unsigned
  obtain ⟨read, reads, same, _, value⟩ := shallow (by decide)
  exact ⟨lexemes, read, scanned, reads, same, value⟩

end Expr

end Reckoner
