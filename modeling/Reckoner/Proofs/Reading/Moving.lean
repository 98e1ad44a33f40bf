import Reckoner.Proofs.Lexing.Joining
import Reckoner.Proofs.Reading.Blame

namespace Reckoner

namespace Frame

def moved (move : Nat → Nat) : Frame → Frame
  | .group position => .group (move position)
  | frame => frame

theorem isGroup_moved (move : Nat → Nat) (frame : Frame) :
    (frame.moved move).isGroup = frame.isGroup := by
  cases frame <;> rfl

end Frame

namespace Place

def moved (move : Nat → Nat) (place : Place) : Place :=
  ⟨place.around.map (Frame.moved move), place.expected⟩

variable (move : Nat → Nat) (nesting : Nesting) (base : Nat)

theorem flush_moved (around : List Frame) :
    flush (around.map (Frame.moved move)) = (flush around).map (Frame.moved move) := by
  have same : (!·.isGroup) ∘ Frame.moved move = (!·.isGroup) := by
    funext frame
    exact congrArg (!·) (frame.isGroup_moved move)
  rw [flush, List.dropWhile_map, same]
  rfl

theorem settle_moved (around : List Frame) :
    settle (around.map (Frame.moved move)) = (settle around).map (Frame.moved move) := by
  rcases around with _ | ⟨frame, around⟩
  · rfl
  · cases frame <;> rfl

theorem opened?_moved (place : Place) (lexeme : Lexeme) :
    (place.moved move).opened? (lexeme.moved move) =
      (place.opened? lexeme).map (Place.moved move) := by
  obtain ⟨around, expected⟩ := place
  obtain ⟨token, position⟩ := lexeme
  cases expected <;> cases token <;> try rfl
  all_goals
    rename_i sign
    cases sign <;> rfl

theorem passed_moved (place : Place) (lexeme : Lexeme) :
    ((place.moved move).passed (lexeme.moved move)).toOption =
      (place.passed lexeme).toOption.map (Place.moved move) := by
  obtain ⟨around, expected⟩ := place
  obtain ⟨token, position⟩ := lexeme
  cases expected with
  | operator =>
      have flushed := flush_moved move around
      cases token with
      | operator sign => exact congrArg some (congrArg (Place.mk · .operand) flushed)
      | number value | log | opening | closing =>
          simp only [moved, Lexeme.moved, passed, flushed]
          rcases flush around with _ | ⟨frame, outer⟩
          · rfl
          · cases frame <;>
              simp only [List.map_cons, Frame.moved, settle_moved, Except.toOption] <;> rfl
  | operand | argument | negatable =>
      cases token with
      | number value =>
          exact congrArg some (congrArg (Place.mk · .operator) (settle_moved move around))
      | log | operator sign | opening | closing => rfl

theorem next_moved (place : Place) (lexeme : Lexeme) :
    ((place.moved move).next nesting base (lexeme.moved move)).toOption =
      (place.next nesting base lexeme).toOption.map (Place.moved move) := by
  unfold next
  rw [opened?_moved]
  cases place.opened? lexeme with
  | none => exact passed_moved move place lexeme
  | some inside =>
      have depth : (place.moved move).around.length = place.around.length := List.length_map _
      dsimp only [Option.map_some]
      rw [depth]
      split <;> rfl

theorem finish_moved (place : Place) :
    (place.moved move).finish.toOption = place.finish.toOption := by
  obtain ⟨around, expected⟩ := place
  cases expected with
  | operator =>
      simp only [moved, finish, flush_moved move around]
      rcases flush around with _ | ⟨frame, outer⟩
      · rfl
      · cases frame <;> rfl
  | operand | argument | negatable => rfl

theorem run_cons (place : Place) (lexeme : Lexeme) (rest : List Lexeme) :
    place.run nesting base (lexeme :: rest) =
      (place.next nesting base lexeme).bind fun after => after.run nesting base rest := by
  unfold run walk
  rw [List.foldlM_cons]
  cases place.next nesting base lexeme <;> rfl

theorem run_moved (place : Place) (lexemes : List Lexeme) :
    ((place.moved move).run nesting base (lexemes.map (Lexeme.moved move))).toOption =
      (place.run nesting base lexemes).toOption := by
  induction lexemes generalizing place with
  | nil => exact finish_moved move place
  | cons lexeme rest ih =>
      have step := next_moved move nesting base place lexeme
      rw [List.map_cons, run_cons, run_cons]
      cases next : place.next nesting base lexeme with
      | ok after =>
          cases moved : (place.moved move).next nesting base (lexeme.moved move) with
          | ok after' =>
              rw [next, moved] at step
              cases step
              exact ih after
          | error error => rw [next, moved] at step; cases step
      | error error =>
          cases moved : (place.moved move).next nesting base (lexeme.moved move) with
          | ok after' => rw [next, moved] at step; cases step
          | error error' => rfl

/-- Only the tokens decide whether the lexemes lead to an end. -/
theorem run_eq_ok_of_tokens {place : Place} {lexemes others : List Lexeme}
    (tokens : lexemes.map Lexeme.token = others.map Lexeme.token)
    (passes : place.run nesting base lexemes = .ok ()) :
    place.run nesting base others = .ok () := by
  have moved : ∀ some : List Lexeme, some.map (Lexeme.moved fun _ => 0) =
      (some.map Lexeme.token).map (Lexeme.mk · 0) := by
    intro some
    rw [List.map_map]
    rfl
  have ends := (run_moved (fun _ => 0) nesting base place others).symm
  rw [moved, ← tokens, ← moved, run_moved, passes] at ends
  cases outcome : place.run nesting base others with
  | ok finished => rfl
  | error error => rw [outcome] at ends; cases ends

end Place

end Reckoner
