import Reckoner.Proofs.Evaluation.Pointing
import Reckoner.Proofs.Expr.Spelling
import Reckoner.Proofs.Lexing.Joining

namespace Reckoner

def Token.isGrouping : Token → Bool
  | .opening | .closing => true
  | .number _ | .log | .operator _ => false

/-- The lexemes without the parentheses among them. -/
def ungrouped (lexemes : List Lexeme) : List Lexeme :=
  lexemes.filter fun lexeme => !lexeme.token.isGrouping

theorem ungrouped_append (left right : List Lexeme) :
    ungrouped (left ++ right) = ungrouped left ++ ungrouped right :=
  List.filter_append left right

theorem ungrouped_group (start stop : Nat) (lexemes : List Lexeme) :
    ungrouped (⟨.opening, start⟩ :: (lexemes ++ [⟨.closing, stop⟩])) = ungrouped lexemes :=
  (ungrouped_append lexemes _).trans (List.append_nil _)

namespace Expr

mutual

/-- The numbers and operators of the expression from left to right, each as the
lexeme it was read from. -/
def inorder : Expr → List Lexeme
  | .literal value position => [⟨.number value, position⟩]
  | .unary operator position operand => ⟨operator.token, position⟩ :: operand.inorder
  | .binary operator position left right =>
      left.inorder ++ ⟨.operator operator, position⟩ :: right.inorder
  | .chain first links => first.inorder ++ inorderLinks links

def inorderLinks : List (Link Expr) → List Lexeme
  | [] => []
  | ⟨operator, position, operand⟩ :: links =>
      ⟨.operator operator, position⟩ :: (operand.inorder ++ inorderLinks links)

end

theorem inorder_chained (first : Expr) (links : List (Link Expr)) :
    (first.chained links).inorder = first.inorder ++ inorderLinks links := by
  cases links with
  | nil => exact (List.append_nil _).symm
  | cons link links => rfl

end Expr

theorem Part.inorderLinks_map_link {parts : List Part}
    (operands : ∀ part ∈ parts, part.expr.inorder = ungrouped part.lexemes) :
    Expr.inorderLinks (parts.map link) = ungrouped (parts.flatMap spelling) := by
  induction parts with
  | nil => rfl
  | cons part parts ih =>
      obtain ⟨operand, operands⟩ := List.forall_mem_cons.mp operands
      rw [List.map_cons, List.flatMap_cons, ungrouped_append, ← ih operands]
      simp only [link, Expr.inorderLinks, operand]
      rfl

/-- What the grammar derives an expression from are its lexemes in order, and
parentheses. -/
theorem Derives.inorder_eq {nesting : Nesting} {tier : Tier} {depth : Nat}
    {lexemes : List Lexeme} {expr : Expr} (derives : Derives nesting tier depth lexemes expr) :
    expr.inorder = ungrouped lexemes := by
  induction derives with
  | number | negatedNumber => rfl
  | group _ _ content => exact content.trans (ungrouped_group _ _ _).symm
  | @negatedGroup _ position start stop lexemes expr _ _ content =>
      rw [Expr.inorder, content, ← ungrouped_group start stop lexemes]
      rfl
  | base _ primary => exact primary
  | power _ _ _ raised power =>
      rw [Expr.inorder, raised, power, ungrouped_append]
      rfl
  | negatedLogarithm _ _ argument =>
      rw [Expr.inorder, Expr.inorder, argument]
      rfl
  | logarithm _ _ argument =>
      rw [Expr.inorder, argument]
      rfl
  | plain _ power => exact power
  | product _ _ _ begins operands | sum _ _ _ begins operands =>
      rw [Expr.inorder_chained, begins, Part.inorderLinks_map_link operands, ungrouped_append]

namespace Expr

variable {nesting : Nesting} {tier : Tier} {depth : Nat} {lexemes rest : List Lexeme} {expr : Expr}

theorem inorder_of_read (read : tier.read nesting depth lexemes = .accepted expr rest) :
    ∃ consumed, lexemes = consumed ++ rest ∧ consumed ≠ [] ∧
      expr.inorder = ungrouped consumed := by
  have reads : Reads nesting (.expression tier) depth lexemes (.accepted expr rest) :=
    reads_iff.mpr read
  have derived : ∃ consumed derivedTier, lexemes = consumed ++ rest ∧
      Derives nesting derivedTier depth consumed expr := by
    have spelled := reads.spelled _ _ rfl
    cases tier with
    | primary =>
        obtain ⟨consumed, same, derives | ⟨derives, _⟩⟩ := spelled
        · exact ⟨consumed, _, same, derives⟩
        · exact ⟨consumed, _, same, derives⟩
    | sum | product | logarithm | power =>
        obtain ⟨consumed, same, derives⟩ := spelled
        exact ⟨consumed, _, same, derives⟩
  obtain ⟨consumed, _, rfl, derives⟩ := derived
  refine ⟨consumed, rfl, ?_, derives.inorder_eq⟩
  intro empty
  subst empty
  exact Nat.lt_irrefl _ reads.rest_length_lt

/-- Every lexeme that a reader takes stands in the expression it accepts, once
and in its order, except for the parentheses.  In the expression of a source
each stands at the place where the source has it. -/
theorem inorder_of_read_of_tokenize :
    (∀ nesting tier depth lexemes expr rest,
      Tier.read nesting tier depth lexemes = .accepted expr rest →
        ∃ consumed, lexemes = consumed ++ rest ∧ consumed ≠ [] ∧
          expr.inorder = ungrouped consumed) ∧
    ∀ separator source lexemes expr, tokenize separator source = .ok lexemes →
      ofLexemes lexemes = .ok expr →
        expr.inorder = ungrouped lexemes ∧
        (expr.inorder.map Lexeme.position).Pairwise (· < ·) ∧
        ∀ lexeme ∈ expr.inorder, ∃ written, Spells separator written lexeme.token ∧
          WrittenAt source lexeme.position written := by
  refine ⟨fun nesting tier depth lexemes expr rest => inorder_of_read, ?_⟩
  intro separator source lexemes expr scanned spelled
  obtain ⟨layout, valid, same, rfl⟩ := Layout.exists_of_tokenize scanned
  have inorder : expr.inorder = ungrouped layout.lexemes :=
    (Derives.of_ofLexemes spelled).inorder_eq
  have within : expr.inorder.Sublist layout.lexemes := inorder ▸ List.filter_sublist
  refine ⟨inorder, ?_, fun lexeme member => ?_⟩
  · exact List.pairwise_map.mpr ((Layout.pairwise_position valid).sublist within)
  · exact layout.writtenAt_of_mem valid same (within.mem member)

/-- `2-(1,5+log3)`: the parentheses leave no trace, and the comma is within a
number. -/
theorem inorder_of_difference :
    ∃ lexemes expr, tokenize .comma "2-(1,5+log3)" = .ok lexemes ∧
      ofLexemes lexemes = .ok expr ∧
      expr.inorder = [⟨.number 2, 0⟩, ⟨.operator .sub, 1⟩, ⟨.number 1.5, 3⟩, ⟨.operator .add, 6⟩,
        ⟨.log, 7⟩, ⟨.number 3, 10⟩] := by
  obtain ⟨lexemes, same⟩ : ∃ lexemes : List Lexeme, lexemes =
      [⟨.number 2, 0⟩, ⟨.operator .sub, 1⟩, ⟨.opening, 2⟩, ⟨.number 1.5, 3⟩, ⟨.operator .add, 6⟩,
        ⟨.log, 7⟩, ⟨.number 3, 10⟩, ⟨.closing, 11⟩] := ⟨_, rfl⟩
  have scanned : tokenize .comma "2-(1,5+log3)" = .ok lexemes := by
    rw [same]
    decide +kernel
  have passes : Tier.sum.start.run .standard 0 lexemes = .ok () := by
    rw [same]
    rfl
  obtain ⟨expr, spelled⟩ := exists_ofLexemes passes
  obtain ⟨inorder, _⟩ := inorder_of_read_of_tokenize.2 _ _ _ _ scanned spelled
  refine ⟨lexemes, expr, scanned, spelled, inorder.trans ?_⟩
  rw [same]
  rfl

end Expr

end Reckoner
