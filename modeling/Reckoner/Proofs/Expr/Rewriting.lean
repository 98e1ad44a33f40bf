import Reckoner.Proofs.Expr.Formula

namespace Reckoner.Expr

mutual

/-- The expression with `operand value position` for each number, and with its
operators moved. -/
def rewritten (operand : Float → Nat → Expr) (move : Nat → Nat) : Expr → Expr
  | .literal value position => operand value position
  | .unary operator position inner =>
      .unary operator (move position) (inner.rewritten operand move)
  | .binary operator position left right =>
      .binary operator (move position) (left.rewritten operand move) (right.rewritten operand move)
  | .chain first links => .chain (first.rewritten operand move) (rewrittenLinks operand move links)

def rewrittenLinks (operand : Float → Nat → Expr) (move : Nat → Nat) :
    List (Link Expr) → List (Link Expr)
  | [] => []
  | ⟨operator, position, inner⟩ :: links =>
      ⟨operator, move position, inner.rewritten operand move⟩ :: rewrittenLinks operand move links

end

/-- The expression with another one for the number at the position. -/
def replaced (expr : Expr) (position : Nat) (replacement : Expr) : Expr :=
  expr.rewritten (fun value place => if place = position then replacement else .literal value place)
    id

/-- The expression with all its positions moved. -/
def moved (move : Nat → Nat) (expr : Expr) : Expr :=
  expr.rewritten (fun value position => .literal value (move position)) move

variable {operand other : Float → Nat → Expr} {move move' : Nat → Nat}

theorem rewritten_chained (first : Expr) (links : List (Link Expr)) :
    (first.chained links).rewritten operand move =
      (first.rewritten operand move).chained (rewrittenLinks operand move links) := by
  cases links <;> rfl

mutual

theorem unplaced_rewritten
    (alike : ∀ value position, (operand value position).unplaced = (other value position).unplaced) :
    ∀ expr : Expr, (expr.rewritten operand move).unplaced = (expr.rewritten other move').unplaced
  | .literal value position => alike value position
  | .unary operator _ inner => by
      simp only [rewritten, unplaced, unplaced_rewritten alike inner]
  | .binary operator _ left right => by
      simp only [rewritten, unplaced, unplaced_rewritten alike left, unplaced_rewritten alike right]
  | .chain first links => by
      simp only [rewritten, unplaced, unplaced_rewritten alike first,
        unplacedLinks_rewritten alike links]

theorem unplacedLinks_rewritten
    (alike : ∀ value position, (operand value position).unplaced = (other value position).unplaced) :
    ∀ links : List (Link Expr), unplacedLinks (rewrittenLinks operand move links) =
      unplacedLinks (rewrittenLinks other move' links)
  | [] => rfl
  | ⟨operator, _, inner⟩ :: links => by
      simp only [rewrittenLinks, unplacedLinks, unplaced_rewritten alike inner,
        unplacedLinks_rewritten alike links]

end

mutual

theorem eval_rewritten
    (alike : ∀ value position, (operand value position).eval = (other value position).eval) :
    ∀ expr : Expr, (expr.rewritten operand move).eval = (expr.rewritten other move').eval
  | .literal value position => alike value position
  | .unary operator _ inner => by
      simp only [rewritten, eval, eval_rewritten alike inner]
  | .binary operator _ left right => by
      simp only [rewritten, eval, eval_rewritten alike left, eval_rewritten alike right]
  | .chain first links => by
      simp only [rewritten, eval, eval_rewritten alike first]
      exact evalLinks_rewritten alike links _

theorem evalLinks_rewritten
    (alike : ∀ value position, (operand value position).eval = (other value position).eval) :
    ∀ (links : List (Link Expr)) (before : Float),
      evalLinks before (rewrittenLinks operand move links) =
        evalLinks before (rewrittenLinks other move' links)
  | [], _ => rfl
  | ⟨operator, _, inner⟩ :: links, before => by
      simp only [rewrittenLinks, evalLinks, eval_rewritten alike inner]
      exact evalLinks_rewritten alike links _

end

mutual

theorem rewritten_self : ∀ expr : Expr, expr.rewritten .literal id = expr
  | .literal value position => rfl
  | .unary operator _ inner => by simp only [rewritten, id, rewritten_self inner]
  | .binary operator _ left right => by
      simp only [rewritten, id, rewritten_self left, rewritten_self right]
  | .chain first links => by
      simp only [rewritten, rewritten_self first, rewrittenLinks_self links]

theorem rewrittenLinks_self : ∀ links : List (Link Expr), rewrittenLinks .literal id links = links
  | [] => rfl
  | ⟨operator, _, inner⟩ :: links => by
      simp only [rewrittenLinks, id, rewritten_self inner, rewrittenLinks_self links]

end

theorem eval_moved (expr : Expr) : (expr.moved move).eval = expr.eval :=
  calc (expr.rewritten (fun value position => .literal value (move position)) move).eval
      = (expr.rewritten .literal id).eval := eval_rewritten (by intros; rfl) expr
    _ = expr.eval := by rw [rewritten_self]

theorem unplaced_moved (expr : Expr) : (expr.moved move).unplaced = expr.unplaced :=
  calc (expr.rewritten (fun value position => .literal value (move position)) move).unplaced
      = (expr.rewritten .literal id).unplaced := unplaced_rewritten (by intros; rfl) expr
    _ = expr.unplaced := by rw [rewritten_self]

theorem unplaced_replaced (expr : Expr) (position : Nat) {replacement other : Expr}
    (alike : replacement.unplaced = other.unplaced) :
    (expr.replaced position replacement).unplaced = (expr.replaced position other).unplaced := by
  refine unplaced_rewritten (fun value place => ?_) expr
  split
  · exact alike
  · rfl

/-- Only the value of what replaces a number counts. -/
theorem eval_replaced (expr : Expr) (position : Nat) (replacement : Expr) :
    (expr.replaced position replacement).eval =
      (expr.replaced position (.literal replacement.eval position)).eval := by
  refine eval_rewritten (fun value place => ?_) expr
  split <;> rfl

end Reckoner.Expr
