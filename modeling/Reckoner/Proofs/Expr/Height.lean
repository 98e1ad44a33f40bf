import Reckoner.Expr

namespace Reckoner.Expr

mutual

/-- How many operands of operands there can be, with the expression itself. -/
def height : Expr → Nat
  | .literal _ _ => 1
  | .unary _ _ operand => operand.height + 1
  | .binary _ _ left right => max left.height right.height + 1
  | .chain first links => max first.height (linksHeight links) + 1

/-- The height of the highest operand. -/
def linksHeight : List (Link Expr) → Nat
  | [] => 0
  | ⟨_, _, operand⟩ :: links => max operand.height (linksHeight links)

end

theorem height_pos (expr : Expr) : 0 < expr.height := by
  cases expr <;> simp only [height] <;> exact Nat.succ_pos _

theorem linksHeight_le_iff {links : List (Link Expr)} {bound : Nat} :
    linksHeight links ≤ bound ↔ ∀ link ∈ links, link.operand.height ≤ bound := by
  induction links with
  | nil => exact ⟨fun _ => nofun, fun _ => Nat.zero_le bound⟩
  | cons link links ih =>
      rw [List.forall_mem_cons, ← ih]
      exact Nat.max_le

theorem height_chained_le {first : Expr} {links : List (Link Expr)} {bound : Nat}
    (begins : first.height ≤ bound) (operands : ∀ link ∈ links, link.operand.height ≤ bound) :
    (first.chained links).height ≤ bound + 1 := by
  cases links with
  | nil => exact Nat.le_succ_of_le begins
  | cons link links =>
      exact Nat.succ_le_succ (Nat.max_le.mpr ⟨begins, linksHeight_le_iff.mpr operands⟩)

/-- The value, if it can be found with no more than `levels` evaluations inside
one another; each operand takes one. -/
def evalWithin : Nat → Expr → Option Float
  | 0, _ => none
  | _ + 1, .literal value _ => some value
  | levels + 1, .unary operator _ operand => (evalWithin levels operand).map operator.apply
  | levels + 1, .binary operator _ left right => do
      return operator.apply (← evalWithin levels left) (← evalWithin levels right)
  | levels + 1, .chain first links => do
      links.foldlM (fun value link => (evalWithin levels link.operand).map (link.operator.apply value))
        (← evalWithin levels first)

theorem foldlM_evalWithin {levels : Nat}
    (operands : ∀ operand : Expr, operand.evalWithin levels =
      if operand.height ≤ levels then some operand.eval else none)
    (links : List (Link Expr)) (value : Float) :
    links.foldlM (fun value link => (evalWithin levels link.operand).map (link.operator.apply value))
        value = if linksHeight links ≤ levels then some (evalLinks value links) else none := by
  induction links generalizing value with
  | nil => rfl
  | cons link links ih =>
      obtain ⟨operator, position, operand⟩ := link
      rw [List.foldlM_cons, operands, linksHeight, evalLinks]
      simp only [Nat.max_le]
      by_cases fits : operand.height ≤ levels
      · simp [fits, ih]
      · simp [fits]

/-- The height is the number of evaluations inside one another. -/
theorem evalWithin_eq (levels : Nat) (expr : Expr) :
    expr.evalWithin levels = if expr.height ≤ levels then some expr.eval else none := by
  induction levels generalizing expr with
  | zero =>
      have positive := expr.height_pos
      rw [if_neg (Nat.not_le_of_lt positive)]
      rfl
  | succ levels ih =>
      cases expr with
      | literal value position =>
          rw [evalWithin, height, if_pos (Nat.le_add_left 1 levels), eval]
      | unary operator position operand =>
          rw [evalWithin, height, eval, ih]
          simp only [Nat.add_le_add_iff_right]
          by_cases fits : operand.height ≤ levels
          · simp [fits]
          · simp [fits]
      | binary operator position left right =>
          rw [evalWithin, height, eval, ih, ih]
          simp only [Nat.add_le_add_iff_right, Nat.max_le]
          by_cases leftFits : left.height ≤ levels
          · by_cases rightFits : right.height ≤ levels
            · simp [leftFits, rightFits]
            · simp [leftFits, rightFits]
          · simp [leftFits]
      | chain first links =>
          rw [evalWithin, height, eval, ih]
          simp only [Nat.add_le_add_iff_right, Nat.max_le]
          by_cases fits : first.height ≤ levels
          · simp [fits, foldlM_evalWithin ih]
          · simp [fits]

end Reckoner.Expr
