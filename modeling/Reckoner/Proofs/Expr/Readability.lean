import Reckoner.Proofs.Double.Text
import Reckoner.Proofs.Expr.Formula

namespace Reckoner

theorem BinaryOp.symbol_injective : Function.Injective symbol := fun _ _ same =>
  Option.some.inj ((ofChar?_symbol _).symm.trans ((congrArg ofChar? same).trans (ofChar?_symbol _)))

/-- Whether a character can stand in a number or the name of an operation.  The
others hold the text of a formula together. -/
def inWord (character : Char) : Bool :=
  character != ' ' && character != '(' && character != ')'

def IsWord (text : List Char) : Prop :=
  ∀ character ∈ text, inWord character = true

theorem inWord_of_isDigit {character : Char} (digit : character.isDigit = true) :
    inWord character = true := by
  simp [inWord, ne_of_isDigit digit (rfl : ' '.isDigit = false),
    ne_of_isDigit digit (rfl : '('.isDigit = false),
    ne_of_isDigit digit (rfl : ')'.isDigit = false)]

namespace IsWord

variable {word other rest more : List Char}

theorem signed (isWord : IsWord word) (negative : Bool) : IsWord (Double.signed negative word) := by
  cases negative with
  | false => exact isWord
  | true => exact List.forall_mem_cons.mpr ⟨rfl, isWord⟩

theorem decimal (decimal : Decimal) : IsWord (decimal.text '.') := by
  intro character member
  rcases decimal.mem_text member with digit | rfl
  · exact inWord_of_isDigit digit
  · rfl

theorem double (double : Double) : IsWord double.text := by
  cases double with
  | notANumber => exact List.all_eq_true.mp rfl
  | infinite negative => exact signed (List.all_eq_true.mp rfl) negative
  | finite negative rung => exact signed (decimal _) negative

theorem symbol (operator : UnaryOp) : IsWord operator.symbol.toList := by
  cases operator <;> exact List.all_eq_true.mp rfl

/-- A word reaches as far as no other character comes. -/
theorem unique (isWord : IsWord word) (isOther : IsWord other)
    (ends : rest.takeWhile inWord = []) (stops : more.takeWhile inWord = [])
    (same : word ++ rest = other ++ more) : word = other ∧ rest = more := by
  have words : word = other := by
    simpa only [List.takeWhile_append_of_pos isWord, List.takeWhile_append_of_pos isOther, ends,
      stops, List.append_nil] using congrArg (List.takeWhile inWord) same
  exact ⟨words, List.append_cancel_left (words ▸ same)⟩

end IsWord

namespace Formula

variable {rest more : List Char}

theorem literal_ne_group (value : Float) : (literal value).text ++ rest ≠ '(' :: more := by
  intro same
  cases digits : (Double.ofFloat value).text with
  | nil => exact Double.text_ne_of_read (by decide +kernel) digits
  | cons first others =>
      have word := IsWord.double (Double.ofFloat value) first (digits ▸ List.mem_cons_self)
      rw [text, digits] at same
      cases same
      cases word

theorem symbol_ne_text (operator : UnaryOp) (formula : Formula) :
    operator.symbol.toList ++ ' ' :: rest ≠ formula.text ++ ' ' :: more := by
  intro same
  cases formula with
  | literal value =>
      have word := ((IsWord.symbol operator).unique (.double _) rfl rfl same).1
      refine Double.text_ne_of_read ?_ word.symm
      cases operator <;> decide +kernel
  | unary | binary => cases operator <;> cases same

theorem symbol_unique {operator other : UnaryOp}
    (same : operator.symbol.toList ++ ' ' :: rest = other.symbol.toList ++ ' ' :: more) :
    operator = other ∧ rest = more := by
  cases operator <;> cases other <;> cases same <;> exact ⟨rfl, rfl⟩

/-- Only a literal could go on into what follows it: every other text ends with
the parenthesis that closes it. -/
theorem text_unique {formula other : Formula} (ends : rest.takeWhile inWord = [])
    (stops : more.takeWhile inWord = []) (same : formula.text ++ rest = other.text ++ more) :
    formula = other ∧ rest = more := by
  -- After an opening parenthesis there is a symbol or a text, and no text goes on
  -- as a symbol does; so the two are operations of one kind.
  induction formula generalizing other rest more with
  | literal value =>
      cases other with
      | literal number =>
          obtain ⟨texts, rests⟩ := (IsWord.double _).unique (.double _) ends stops same
          exact ⟨congrArg literal (Double.text_ofFloat_injective texts), rests⟩
      | unary | binary => exact absurd same (literal_ne_group value)
  | unary operator operand ih =>
      cases other with
      | literal number => exact absurd same.symm (literal_ne_group number)
      | unary operator' operand' =>
          simp only [text, List.cons_append, List.append_assoc] at same
          obtain ⟨rfl, inside⟩ := symbol_unique (List.cons.inj same).2
          obtain ⟨rfl, closed⟩ := ih rfl rfl inside
          exact ⟨rfl, (List.cons.inj closed).2⟩
      | binary operator' left right =>
          simp only [text, List.cons_append, List.append_assoc] at same
          exact absurd (List.cons.inj same).2 (symbol_ne_text operator left)
  | binary operator left right leftIH rightIH =>
      cases other with
      | literal number => exact absurd same.symm (literal_ne_group number)
      | unary operator' operand' =>
          simp only [text, List.cons_append, List.append_assoc] at same
          exact absurd (List.cons.inj same).2.symm (symbol_ne_text operator' left)
      | binary operator' left' right' =>
          simp only [text, List.cons_append, List.append_assoc] at same
          obtain ⟨rfl, link⟩ := leftIH rfl rfl (List.cons.inj same).2
          obtain ⟨symbols, after⟩ := List.cons.inj (List.cons.inj link).2
          obtain ⟨rfl, closed⟩ := rightIH rfl rfl (List.cons.inj after).2
          cases BinaryOp.symbol_injective symbols
          exact ⟨rfl, (List.cons.inj closed).2⟩

theorem text_eq_iff {formula other : Formula} : formula.text = other.text ↔ formula = other := by
  refine ⟨fun same => ?_, congrArg text⟩
  have followed : formula.text ++ [] = other.text ++ [] := congrArg (· ++ []) same
  exact (text_unique rfl rfl followed).1

end Formula

namespace Expr

/-- Expressions have one text exactly if they have one formula.  Then they have
one value. -/
theorem formula_and_eval_of_text (expr other : Expr) :
    (expr.text = other.text ↔ expr.formula = other.formula) ∧
      (expr.text = other.text → expr.eval = other.eval) := by
  have reads : expr.text = other.text ↔ expr.formula = other.formula := by
    rw [← String.toList_inj, text_eq_formula, text_eq_formula, Formula.text_eq_iff]
  refine ⟨reads, fun same => ?_⟩
  rw [eval_eq_formula, eval_eq_formula, reads.mp same]

/-- A chain of one link is written like an operation on two operands, and a chain
of none like what it begins with; but `-2` is not written like `(- 2)`. -/
theorem formula_and_eval_of_link_text :
    let chain := Expr.chain (.literal 8 0) [⟨.sub, 2, .literal 2 4⟩]
    let node := Expr.binary .sub 9 (.chain (.literal 8 1) []) (.literal 2 5)
    chain.text = node.text ∧ chain.eval = node.eval ∧
      (Expr.literal (-2) 0).text ≠ (Expr.unary .negate 0 (.literal 2 1)).text := by
  intro chain node
  have same : chain.text = node.text := (formula_and_eval_of_text chain node).1.mpr rfl
  refine ⟨same, (formula_and_eval_of_text chain node).2 same, fun alike => ?_⟩
  have formulas := (formula_and_eval_of_text _ _).1.mp alike
  cases formulas

end Expr

end Reckoner
