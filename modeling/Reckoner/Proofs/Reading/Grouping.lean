import Reckoner.Proofs.Reading.Chains
import Reckoner.Proofs.Reading.Moving
import Reckoner.Proofs.Reading.Nesting
import Reckoner.Proofs.Reading.Relocation

namespace Reckoner

namespace Place

variable {nesting : Nesting} {place : Place} {position : Nat} {content rest : List Lexeme}

/-- A number comes where an operand is due. -/
theorem next_number {base : Nat} {value : Float} {after : Place}
    (step : place.next nesting base ⟨.number value, position⟩ = .ok after) :
    place.expected ≠ .operator ∧ after = ⟨settle place.around, .operator⟩ := by
  obtain ⟨around, expected⟩ := place
  rcases next_eq_ok.mp step with ⟨opened, _⟩ | ⟨_, passed⟩
  · cases expected <;> cases opened
  · cases expected with
    | operator =>
        simp only [Place.passed] at passed
        split at passed <;> cases passed
    | operand | argument | negatable =>
        cases passed
        exact ⟨Expected.noConfusion, rfl⟩

theorem opened?_group (due : place.expected ≠ .operator) :
    place.opened? ⟨.opening, position⟩ = some ⟨.group position :: place.around, .operand⟩ := by
  obtain ⟨around, expected⟩ := place
  cases expected with
  | operator => exact absurd rfl due
  | operand | argument | negatable => rfl

/-- Inside a group that has just been opened. -/
theorem startsAt_group (position : Nat) (around : List Frame) (lexemes : List Lexeme) :
    (Task.expression .sum).StartsAt 0 (around.length + 1) (.group position :: around) lexemes
      ⟨.group position :: around, .operand⟩ :=
  ⟨(Nat.zero_add _).symm, rfl, rfl⟩

theorem next_group (due : place.expected ≠ .operator)
    (admitted : nesting.admits place.around.length = true) :
    place.next nesting 0 ⟨.opening, position⟩ =
      .ok ⟨.group position :: place.around, .operand⟩ := by
  rw [next_eq_ok, Nat.zero_add]
  exact .inl ⟨opened?_group due, admitted⟩

/-- A group whose content is read passes like a number. -/
theorem run_group (position stop : Nat) (due : place.expected ≠ .operator)
    (admitted : nesting.admits place.around.length = true) {expr : Expr}
    (reads : Reads nesting (.expression .sum) (place.around.length + 1) content
      (.accepted expr []))
    (onward : run nesting 0 ⟨settle place.around, .operator⟩ rest = .ok ()) :
    place.run nesting 0 (⟨.opening, position⟩ :: (content ++ ⟨.closing, stop⟩ :: rest)) =
      .ok () := by
  obtain ⟨consumed, inner, same, ungrouped, _, walked⟩ :=
    reads.follows _ _ (startsAt_group position _ _)
  rw [List.append_nil] at same
  subst same
  have closed : next nesting 0 ⟨inner ++ .group position :: place.around, .operator⟩
      ⟨.closing, stop⟩ = .ok ⟨settle place.around, .operator⟩ := by
    have flushed := flush_append (.group position :: place.around) ungrouped
    rw [show flush (.group position :: place.around) = .group position :: place.around from rfl]
      at flushed
    simp only [next, opened?, passed, flushed]
  rw [run_cons, next_group due admitted]
  refine (run_append _ walked).trans ?_
  rw [run_cons, closed]
  exact onward

/-- A group with an expression in it that is too deep there. -/
theorem run_group_tooDeep (position : Nat) (lexemes : List Lexeme)
    (due : place.expected ≠ .operator)
    (admitted : nesting.admits place.around.length = true) {blamed : Nat}
    (reads : Reads nesting (.expression .sum) (place.around.length + 1) content
      (.rejected (.nestingTooDeep blamed) rest)) :
    place.run nesting 0 (⟨.opening, position⟩ :: (content ++ lexemes)) =
        .error (.nestingTooDeep blamed) ∧
      ∃ lexeme ∈ content, lexeme.position = blamed := by
  obtain ⟨consumed, middle, more, same, walked, refuses, _⟩ :=
    reads.follows _ _ (startsAt_group position _ _)
  obtain ⟨lexeme, others, rfl, rfl, opens, full⟩ := refuses.tooDeep
  subst same
  refine ⟨?_, lexeme, by simp, rfl⟩
  rw [run_cons, next_group due admitted, List.append_assoc]
  have refused : middle.Refuses nesting 0 (.nestingTooDeep lexeme.position)
      (lexeme :: others ++ lexemes) := refuses
  exact run_of_refuses walked refused

/-- Where a number stands, the way to the end goes on from a place where an
operand is due. -/
theorem exists_place {start : Place} {before : List Lexeme} {value : Float}
    (passes : start.run nesting 0 (before ++ ⟨.number value, position⟩ :: rest) = .ok ()) :
    ∃ place, start.walk nesting 0 before = .ok place ∧ place.expected ≠ .operator ∧
      run nesting 0 ⟨settle place.around, .operator⟩ rest = .ok () := by
  cases walked : start.walk nesting 0 (before ++ ⟨.number value, position⟩ :: rest) with
  | error error =>
      unfold run at passes
      rw [walked] at passes
      cases passes
  | ok final =>
      obtain ⟨place, reached, onward⟩ := walk_prefix walked
      obtain ⟨after, step, _⟩ := next_of_walk onward
      obtain ⟨due, rfl⟩ := next_number step
      rw [run_append _ reached, run_cons, step] at passes
      exact ⟨place, reached, due, passes⟩

end Place

namespace Derives

variable {lexemes before rest content : List Lexeme} {expr inner : Expr} {value : Float}
  {start stop : Nat}

theorem unique {other : Expr} (derives : Derives none .sum 0 lexemes expr)
    (derives' : Derives none .sum 0 lexemes other) : expr = other := by
  cases derives.reads_all.read_eq.symm.trans derives'.reads_all.read_eq
  rfl

/-- What `group` makes of a number: itself at `start`, and anywhere else the
number again. -/
def spellGrouped (start : Nat) (group : List Lexeme) (move : Nat → Nat) (value : Float)
    (position : Nat) : List Lexeme :=
  if position = start then group else [⟨.number value, move position⟩]

def buildGrouped (start : Nat) (inner : Expr) (move : Nat → Nat) (value : Float)
    (position : Nat) : Expr :=
  if position = start then inner else .literal value (move position)

/-- A group in the place of a number, in lexemes that may be moved for it. -/
theorem grouped (derives : Derives none .sum 0 (before ++ ⟨.number value, start⟩ :: rest) expr)
    (inside : Derives none .sum 0 content inner) (stop : Nat) (move : Nat → Nat)
    (earlier : ∀ lexeme ∈ before, lexeme.position ≠ start)
    (later : ∀ lexeme ∈ rest, lexeme.position ≠ start) :
    ∃ tree, Derives none .sum 0 (before.map (Lexeme.moved move) ++ ⟨.opening, start⟩ ::
        (content ++ ⟨.closing, stop⟩ :: rest.map (Lexeme.moved move))) tree ∧
      tree.unplaced = (expr.replaced start inner).unplaced ∧
      tree.eval = (expr.replaced start (.literal inner.eval start)).eval := by
  have rewritten := derives.rewritten
    (spellGrouped start (⟨.opening, start⟩ :: (content ++ [⟨.closing, stop⟩])) move)
    (buildGrouped start inner move) move fun value position => by
      unfold spellGrouped buildGrouped
      split
      · exact .group inside.unbounded
      · exact .number value _
  have here : ∀ group, Lexeme.rewritten (spellGrouped start group move) move
      ⟨.number value, start⟩ = group := fun group => if_pos rfl
  rw [List.flatMap_append, List.flatMap_cons, here,
    Lexeme.flatMap_rewritten fun lexeme member value => if_neg (earlier lexeme member),
    Lexeme.flatMap_rewritten fun lexeme member value => if_neg (later lexeme member)] at rewritten
  refine ⟨expr.rewritten (buildGrouped start inner move) move, ?_, ?_, ?_⟩
  · simpa using rewritten
  · refine Expr.unplaced_rewritten (fun value position => ?_) expr
    unfold buildGrouped
    split <;> rfl
  · rw [← Expr.eval_replaced]
    refine Expr.eval_rewritten (fun value position => ?_) expr
    unfold buildGrouped
    split <;> rfl

end Derives

/-- Where a reader does not take an expression that stands elsewhere, it is the
nesting that is too deep. -/
theorem Reads.tooDeep_of_derives {depth : Nat} {lexemes : List Lexeme} {inner : Expr}
    (derives : Derives none .sum 0 lexemes inner) (distance : Nat)
    (crowded : ¬ ∃ expr, Tier.read .standard .sum depth lexemes = .accepted expr []) :
    ∃ blamed rest, Reads .standard (.expression .sum) depth
      (lexemes.map (Lexeme.moved (distance + ·))) (.rejected (.nestingTooDeep blamed) rest) := by
  have reads := ((derives.unbounded depth).moved (distance + ·)).reads_all
  rcases reads.bounded 128 with accepted | ⟨blamed, rest, rejected, _⟩
  · have back := (Derives.of_read_all (by decide) accepted.read_eq).moved (· - distance)
    rw [Lexeme.map_moved_back] at back
    exact absurd ⟨_, back.reads_all.read_eq⟩ crowded
  · exact ⟨blamed, rest, rejected⟩

namespace Expr

variable {before rest lexemes : List Lexeme} {value : Float} {expr inner : Expr} {place : Place}
  {start stop distance : Nat} {move : Nat → Nat}

theorem run_of_ofLexemes (accepted : ofLexemes lexemes = .ok expr) :
    Tier.sum.start.run .standard 0 lexemes = .ok () := by
  have filled : lexemes ≠ [] := by
    intro empty
    subst empty
    cases accepted
  rw [← ofLexemes_eq_run filled, accepted]
  rfl

/-- A group that there is room for. -/
theorem ofLexemes_grouped
    (spelled : ofLexemes (before ++ ⟨.number value, start⟩ :: rest) = .ok expr)
    (spelled' : ofLexemes lexemes = .ok inner)
    (stays : ∀ lexeme ∈ before, lexeme.position ≠ start ∧ move lexeme.position = lexeme.position)
    (later : ∀ lexeme ∈ rest, lexeme.position ≠ start)
    (passes : Tier.sum.start.run .standard 0 (before ++ ⟨.opening, start⟩ ::
      (lexemes.map (Lexeme.moved (distance + ·)) ++
        ⟨.closing, stop⟩ :: rest.map (Lexeme.moved move))) = .ok ()) :
    ∃ tree, ofLexemes (before ++ ⟨.opening, start⟩ ::
        (lexemes.map (Lexeme.moved (distance + ·)) ++
          ⟨.closing, stop⟩ :: rest.map (Lexeme.moved move))) = .ok tree ∧
      tree.unplaced = (expr.replaced start inner).unplaced ∧
      tree.eval = (expr.replaced start (.literal inner.eval start)).eval := by
  have inside := ((Derives.of_ofLexemes spelled').unbounded 0).moved (distance + ·)
  obtain ⟨tree, derives, shape, amount⟩ := ((Derives.of_ofLexemes spelled).unbounded 0).grouped
    inside stop move (fun lexeme member => (stays lexeme member).1) later
  have kept : before.map (Lexeme.moved move) = before := by
    refine (List.map_congr_left fun lexeme member => ?_).trans (List.map_id before)
    rw [Lexeme.moved, (stays lexeme member).2]
    rfl
  rw [kept] at derives
  obtain ⟨found, accepted⟩ := exists_ofLexemes passes
  cases ((Derives.of_ofLexemes accepted).unbounded 0).unique derives
  refine ⟨tree, accepted, ?_, ?_⟩
  · rw [shape, unplaced_replaced expr start inner.unplaced_moved]
  · rw [amount, inner.eval_moved]

/-- A group that there is no room for. -/
theorem ofLexemes_grouped_tooDeep (start distance : Nat) (rest : List Lexeme)
    (reached : Tier.sum.start.walk .standard 0 before = .ok place)
    (due : place.expected ≠ .operator) (spelled : ofLexemes lexemes = .ok inner)
    (crowded : ¬ (place.around.length < 128 ∧
      ∃ expr, Tier.read .standard .sum (place.around.length + 1) lexemes = .accepted expr [])) :
    ∃ blamed, ofLexemes (before ++ ⟨.opening, start⟩ ::
        (lexemes.map (Lexeme.moved (distance + ·)) ++ rest)) = .error (.nestingTooDeep blamed) ∧
      (blamed = start ∨ ∃ lexeme ∈ lexemes, distance + lexeme.position = blamed) := by
  have filled : before ++ ⟨.opening, start⟩ ::
      (lexemes.map (Lexeme.moved (distance + ·)) ++ rest) ≠ [] := by simp
  simp only [ofLexemes_eq_error filled, Place.run_append _ reached]
  by_cases room : place.around.length < 128
  · have derives := (Derives.of_ofLexemes spelled).unbounded 0
    obtain ⟨blamed, others, reads⟩ := Reads.tooDeep_of_derives derives distance
      fun accepted => crowded ⟨room, accepted⟩
    have admitted : Nesting.standard.admits place.around.length = true := decide_eq_true room
    obtain ⟨rejected, lexeme, member, same⟩ :=
      Place.run_group_tooDeep start rest due admitted reads
    obtain ⟨original, among, rfl⟩ := List.mem_map.mp member
    exact ⟨blamed, rejected, .inr ⟨original, among, same⟩⟩
  · refine ⟨start, ?_, .inl rfl⟩
    refine Place.run_of_refuses (rfl : place.walk .standard 0 [] = .ok place) ?_
    refine Place.next_eq_error.mpr (.inl ⟨?_, ?_, rfl⟩)
    · rw [Place.opened?_group due]
      nofun
    · rw [Nat.zero_add]
      exact decide_eq_false room

end Expr

end Reckoner
