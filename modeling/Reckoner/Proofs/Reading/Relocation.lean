import Reckoner.Proofs.Expr.Rewriting
import Reckoner.Proofs.Lexing.Joining
import Reckoner.Proofs.Reading.Grammar

namespace Reckoner

/-- The lexemes in the place of this one: those of `spell` for a number, and the
same token at another position for any other. -/
def Lexeme.rewritten (spell : Float → Nat → List Lexeme) (move : Nat → Nat) : Lexeme → List Lexeme
  | ⟨.number value, position⟩ => spell value position
  | ⟨token, position⟩ => [⟨token, move position⟩]

def Part.rewritten (spell : Float → Nat → List Lexeme) (build : Float → Nat → Expr)
    (move : Nat → Nat) (part : Part) : Part :=
  ⟨part.operator, move part.position, part.lexemes.flatMap (Lexeme.rewritten spell move),
    part.expr.rewritten build move⟩

theorem Lexeme.flatMap_rewritten {spell : Float → Nat → List Lexeme} {move : Nat → Nat}
    {lexemes : List Lexeme}
    (alone : ∀ lexeme ∈ lexemes, ∀ value, spell value lexeme.position =
      [⟨.number value, move lexeme.position⟩]) :
    lexemes.flatMap (Lexeme.rewritten spell move) = lexemes.map (Lexeme.moved move) := by
  induction lexemes with
  | nil => rfl
  | cons lexeme lexemes ih =>
      rw [List.flatMap_cons, List.map_cons,
        ih fun other member => alone other (List.mem_cons_of_mem _ member)]
      obtain ⟨token, position⟩ := lexeme
      cases token with
      | number value => rw [Lexeme.rewritten, alone _ List.mem_cons_self]; rfl
      | log | operator sign | opening | closing => rfl

/-- The lexemes can stand wherever a number can, and spell the expression. -/
structure Operand (nesting : Nesting) (lexemes : List Lexeme) (expr : Expr) : Prop where
  primary : ∀ depth, Derives nesting .primary depth lexemes expr
  negated : ∀ depth position, nesting.admits depth = true →
    Derives nesting .primary depth (⟨.operator .sub, position⟩ :: lexemes)
      (.unary .negate position expr)

namespace Operand

theorem number {nesting : Nesting} (value : Float) (position : Nat) :
    Operand nesting [⟨.number value, position⟩] (.literal value position) :=
  ⟨fun _ => .number, fun _ _ admitted => .negatedNumber admitted⟩

theorem group {start stop : Nat} {lexemes : List Lexeme} {expr : Expr}
    (content : ∀ depth, Derives none .sum depth lexemes expr) :
    Operand none (⟨.opening, start⟩ :: (lexemes ++ [⟨.closing, stop⟩])) expr :=
  ⟨fun depth => .group rfl (content (depth + 1)),
    fun depth _ _ => .negatedGroup rfl (content (depth + 2))⟩

end Operand

variable {nesting : Nesting} {tier : Tier} {depth : Nat} {lexemes : List Lexeme} {expr : Expr}

section

variable (spell : Float → Nat → List Lexeme) (build : Float → Nat → Expr) (move : Nat → Nat)

theorem flatMap_spelling_rewritten (parts : List Part) :
    (parts.flatMap Part.spelling).flatMap (Lexeme.rewritten spell move) =
      (parts.map (Part.rewritten spell build move)).flatMap Part.spelling := by
  rw [List.flatMap_assoc, List.flatMap_map]
  rfl

theorem map_link_rewritten (parts : List Part) :
    Expr.rewrittenLinks build move (parts.map Part.link) =
      (parts.map (Part.rewritten spell build move)).map Part.link := by
  induction parts with
  | nil => rfl
  | cons part parts ih =>
      simp only [List.map_cons, ← ih]
      rfl

theorem Derives.rewritten
    (operands : ∀ value position, Operand nesting (spell value position) (build value position))
    (derives : Derives nesting tier depth lexemes expr) :
    Derives nesting tier depth (lexemes.flatMap (Lexeme.rewritten spell move))
      (expr.rewritten build move) := by
  induction derives with
  | @number depth value position =>
      rw [List.flatMap_singleton]
      exact (operands value position).primary depth
  | group admitted _ content =>
      rw [List.flatMap_cons, List.flatMap_append, List.flatMap_singleton]
      exact .group admitted content
  | @negatedNumber depth position value place admitted =>
      rw [List.flatMap_cons, List.flatMap_singleton]
      exact (operands value place).negated depth (move position) admitted
  | negatedGroup admitted _ content =>
      rw [List.flatMap_cons, List.flatMap_cons, List.flatMap_append, List.flatMap_singleton]
      exact .negatedGroup admitted content
  | base _ primary => exact .base primary
  | power admitted _ _ raised power =>
      rw [List.flatMap_append, List.flatMap_cons]
      exact .power admitted raised power
  | negatedLogarithm admitted _ argument =>
      rw [List.flatMap_cons, List.flatMap_cons]
      exact .negatedLogarithm admitted argument
  | logarithm admitted _ argument =>
      rw [List.flatMap_cons]
      exact .logarithm admitted argument
  | plain _ power => exact .plain power
  | product _ operators _ begins operands =>
      rw [List.flatMap_append, flatMap_spelling_rewritten spell build,
        Expr.rewritten_chained, map_link_rewritten spell]
      exact .product begins (List.forall_mem_map.mpr operators) (List.forall_mem_map.mpr operands)
  | sum _ operators _ begins operands =>
      rw [List.flatMap_append, flatMap_spelling_rewritten spell build,
        Expr.rewritten_chained, map_link_rewritten spell]
      exact .sum begins (List.forall_mem_map.mpr operators) (List.forall_mem_map.mpr operands)

end

theorem Derives.moved (derives : Derives nesting tier depth lexemes expr) (move : Nat → Nat) :
    Derives nesting tier depth (lexemes.map (Lexeme.moved move)) (expr.moved move) := by
  have rewritten := derives.rewritten
    (fun value position => [⟨.number value, move position⟩]) _ move
    fun value position => .number value (move position)
  rwa [Lexeme.flatMap_rewritten fun _ _ _ => rfl] at rewritten

/-- An expression stands as well where no more constructs are too many. -/
theorem Derives.relaxed (derives : Derives nesting tier depth lexemes expr) {other : Nesting}
    {depth' : Nat}
    (admits : ∀ inside, nesting.admits (depth + inside) = true →
      other.admits (depth' + inside) = true) :
    Derives other tier depth' lexemes expr := by
  have deeper : ∀ {depth depth' : Nat} (steps : Nat),
      (∀ inside, nesting.admits (depth + inside) = true → other.admits (depth' + inside) = true) →
      ∀ inside, nesting.admits (depth + steps + inside) = true →
        other.admits (depth' + steps + inside) = true := by
    intro depth depth' steps admits inside
    rw [Nat.add_assoc, Nat.add_assoc]
    exact admits (steps + inside)
  induction derives generalizing depth' with
  | number => exact .number
  | group admitted _ content => exact .group (admits 0 admitted) (content (deeper 1 admits))
  | negatedNumber admitted => exact .negatedNumber (admits 0 admitted)
  | negatedGroup admitted _ content =>
      exact .negatedGroup (admits 1 admitted) (content (deeper 2 admits))
  | base _ primary => exact .base (primary admits)
  | power admitted _ _ raised power =>
      exact .power (admits 0 admitted) (raised admits) (power (deeper 1 admits))
  | negatedLogarithm admitted _ argument =>
      exact .negatedLogarithm (admits 1 admitted) (argument (deeper 2 admits))
  | logarithm admitted _ argument =>
      exact .logarithm (admits 0 admitted) (argument (deeper 1 admits))
  | plain _ power => exact .plain (power admits)
  | product _ operators _ begins operands =>
      exact .product (begins admits) operators fun part member => operands part member admits
  | sum _ operators _ begins operands =>
      exact .sum (begins admits) operators fun part member => operands part member admits

/-- Without a bound it does not matter how deep an expression stands. -/
theorem Derives.unbounded (derives : Derives nesting tier depth lexemes expr) (depth' : Nat) :
    Derives none tier depth' lexemes expr :=
  derives.relaxed fun _ _ => rfl

end Reckoner
