import Reckoner.Proofs.Reading.Grammar

namespace Reckoner

/-! The places between lexemes.  A place knows the constructs that are open
around it and what may come next; it passes from lexeme to lexeme without
building an expression and without going back.  Main statement: a reader takes
the lexemes that the places pass, and is rejected where a place is, for the
same reason (`Reads.follows`).
-/

inductive Frame where
  | group (position : Nat)
  | negation
  | logarithm
  | exponent
deriving DecidableEq

/-- What may come next: an operand, an operand that does not start with `log`,
the operand of a minus sign, or what follows an operand. -/
inductive Expected where
  | operand
  | argument
  | negatable
  | operator
deriving DecidableEq

structure Place where
  around : List Frame
  expected : Expected
deriving DecidableEq

namespace Frame

def isGroup : Frame → Bool
  | .group _ => true
  | .negation | .logarithm | .exponent => false

end Frame

namespace Place

/-- What stays open at an operator between operands: groups, and what is around
them. -/
def flush (around : List Frame) : List Frame :=
  around.dropWhile (!·.isGroup)

/-- What stays open after a number or a group: a minus sign takes no more than
that. -/
def settle : List Frame → List Frame
  | .negation :: outer => outer
  | around => around

def opened? (place : Place) (lexeme : Lexeme) : Option Place :=
  match place.expected, lexeme.token with
  | .operand, .opening | .argument, .opening | .negatable, .opening =>
      some ⟨.group lexeme.position :: place.around, .operand⟩
  | .operand, .log | .negatable, .log => some ⟨.logarithm :: place.around, .argument⟩
  | .operand, .operator .sub | .argument, .operator .sub =>
      some ⟨.negation :: place.around, .negatable⟩
  | .operator, .operator .pow => some ⟨.exponent :: place.around, .argument⟩
  | _, _ => none

def passed (place : Place) (lexeme : Lexeme) : Except ParseError Place :=
  match place.expected, lexeme.token with
  | .operator, .operator _ => .ok ⟨flush place.around, .operand⟩
  | .operator, .closing =>
      match flush place.around with
      | .group _ :: outer => .ok ⟨settle outer, .operator⟩
      | _ => .error (.trailingToken lexeme)
  | .operator, _ =>
      match flush place.around with
      | .group position :: _ => .error (.unclosedGroup position)
      | _ => .error (.trailingToken lexeme)
  | _, .number _ => .ok ⟨settle place.around, .operator⟩
  | _, _ => .error (.unexpectedToken lexeme)

/-- The place after the next lexeme, in a reading that began inside `base`
constructs. -/
def next (nesting : Nesting) (base : Nat) (place : Place) (lexeme : Lexeme) :
    Except ParseError Place :=
  match place.opened? lexeme with
  | some inside =>
      if nesting.admits (base + place.around.length) then .ok inside
      else .error (.nestingTooDeep lexeme.position)
  | none => place.passed lexeme

def finish (place : Place) : Except ParseError Unit :=
  match place.expected with
  | .operator =>
      match flush place.around with
      | .group position :: _ => .error (.unclosedGroup position)
      | _ => .ok ()
  | _ => .error .unexpectedEnd

def walk (nesting : Nesting) (base : Nat) (place : Place) (lexemes : List Lexeme) :
    Except ParseError Place :=
  lexemes.foldlM (next nesting base) place

/-- The lexemes that come next are refused at this place. -/
def Refuses (nesting : Nesting) (base : Nat) (place : Place) (error : ParseError) :
    List Lexeme → Prop
  | [] => place.finish = .error error
  | lexeme :: _ => place.next nesting base lexeme = .error error

/-- After `before` the lexeme opens a construct, and `level` constructs are open
from there, with the `base` constructs around the first place. -/
def OpensAt (base : Nat) (place : Place) (before : List Lexeme) (lexeme : Lexeme)
    (level : Nat) : Prop :=
  ∃ stop, place.walk none base before = .ok stop ∧ stop.opened? lexeme ≠ none ∧
    level = base + stop.around.length + 1

variable {nesting : Nesting} {base : Nat} {place final : Place}

theorem next_eq_ok {lexeme : Lexeme} {after : Place} :
    place.next nesting base lexeme = .ok after ↔
      (place.opened? lexeme = some after ∧ nesting.admits (base + place.around.length) = true) ∨
        (place.opened? lexeme = none ∧ place.passed lexeme = .ok after) := by
  unfold next
  cases place.opened? lexeme with
  | none => simp
  | some inside => cases nesting.admits (base + place.around.length) <;> simp

theorem next_eq_error {lexeme : Lexeme} {error : ParseError} :
    place.next nesting base lexeme = .error error ↔
      (place.opened? lexeme ≠ none ∧ nesting.admits (base + place.around.length) = false ∧
          error = .nestingTooDeep lexeme.position) ∨
        (place.opened? lexeme = none ∧ place.passed lexeme = .error error) := by
  unfold next
  cases place.opened? lexeme with
  | none => simp
  | some inside => cases nesting.admits (base + place.around.length) <;> simp [eq_comm]

theorem walk_append {middle : Place} {left : List Lexeme} (right : List Lexeme)
    (walked : place.walk nesting base left = .ok middle) :
    place.walk nesting base (left ++ right) = middle.walk nesting base right := by
  unfold walk at *
  rw [List.foldlM_append, walked]
  rfl

theorem walk_cons {after : Place} {lexeme : Lexeme} (rest : List Lexeme)
    (step : place.next nesting base lexeme = .ok after) :
    place.walk nesting base (lexeme :: rest) = after.walk nesting base rest := by
  unfold walk
  rw [List.foldlM_cons, step]
  rfl

theorem walk_prefix {left right : List Lexeme}
    (walked : place.walk nesting base (left ++ right) = .ok final) :
    ∃ middle, place.walk nesting base left = .ok middle ∧
      middle.walk nesting base right = .ok final := by
  cases first : place.walk nesting base left with
  | ok middle => exact ⟨middle, rfl, (walk_append right first).symm.trans walked⟩
  | error error =>
      unfold walk at first walked
      rw [List.foldlM_append, first] at walked
      cases walked

theorem next_of_walk {lexeme : Lexeme} {rest : List Lexeme}
    (walked : place.walk nesting base (lexeme :: rest) = .ok final) :
    ∃ after, place.next nesting base lexeme = .ok after ∧
      after.walk nesting base rest = .ok final := by
  cases step : place.next nesting base lexeme with
  | ok after => exact ⟨after, rfl, (walk_cons rest step).symm.trans walked⟩
  | error error =>
      unfold walk at walked
      rw [List.foldlM_cons, step] at walked
      cases walked

theorem flush_append {inner : List Frame} (outer : List Frame)
    (ungrouped : ∀ frame ∈ inner, frame.isGroup = false) :
    flush (inner ++ outer) = flush outer :=
  List.dropWhile_append_of_pos (by simpa using ungrouped)

theorem settle_of_flush {outer : List Frame} (flushed : flush outer = outer) :
    settle outer = outer := by
  cases outer with
  | nil => rfl
  | cons frame outer =>
      cases frame with
      | group position | logarithm | exponent => rfl
      | negation =>
          have shorter : (flush outer).length ≤ outer.length :=
            (List.dropWhile_sublist _).length_le
          rw [show flush (.negation :: outer) = flush outer from rfl] at flushed
          rw [flushed, List.length_cons] at shorter
          omega

end Place

def Tier.start : Tier → Place
  | .sum | .product | .logarithm => ⟨[], .operand⟩
  | .power | .primary => ⟨[], .argument⟩

/-- Where a task may begin that is to read `lexemes` inside `depth` constructs,
if `base` constructs are around the first place and `outer` stays open after
the task. -/
def Task.StartsAt (base depth : Nat) (outer : List Frame) (lexemes : List Lexeme)
    (place : Place) : Task → Prop
  | .expression .power | .expression .primary =>
      depth = base + outer.length ∧ Place.settle outer = outer ∧
        (place = ⟨outer, .argument⟩ ∨
          place = ⟨outer, .operand⟩ ∧ ∀ position rest, lexemes ≠ ⟨.log, position⟩ :: rest)
  | .expression _ =>
      depth = base + outer.length ∧ Place.flush outer = outer ∧ place = ⟨outer, .operand⟩
  | .links _ _ _ =>
      depth = base + outer.length ∧ Place.flush outer = outer ∧
        ∃ inner, (∀ frame ∈ inner, Frame.isGroup frame = false) ∧
          place = ⟨inner ++ outer, .operator⟩ ∧ (inner = [] ∨ Tier.power.EndsBefore lexemes)
  | .exponent _ =>
      depth = base + outer.length ∧
        ∃ inner, (∀ frame ∈ inner, Frame.isGroup frame = false) ∧
          place = ⟨inner ++ outer, .operator⟩ ∧ (inner = [] ∨ Tier.power.EndsBefore lexemes)
  | .operand => depth = base + outer.length + 1 ∧ place = ⟨.negation :: outer, .negatable⟩

/-- The reading takes the lexemes that are passed from `place` on.  If it
accepts, no more than `outer` stays open of what was open there; if it is
rejected, then where a place refuses the next lexeme, or the end. -/
def Reading.Follows (nesting : Nesting) (base : Nat) (place : Place) (outer : List Frame)
    (lexemes : List Lexeme) : Reading → Prop
  | .accepted _ rest => ∃ consumed inner, lexemes = consumed ++ rest ∧
      (∀ frame ∈ inner, Frame.isGroup frame = false) ∧
      (inner = [] ∨ Tier.power.EndsBefore rest) ∧
      place.walk nesting base consumed = .ok ⟨inner ++ outer, .operator⟩
  | .rejected error rest => ∃ consumed stop more, lexemes = consumed ++ more ∧
      place.walk nesting base consumed = .ok stop ∧ stop.Refuses nesting base error more ∧
      (rest = more.tail ∨ rest = more ∧ ∃ lexeme, error = .unexpectedToken lexeme)

namespace Reading.Follows

variable {nesting : Nesting} {base : Nat} {place middle : Place} {outer : List Frame}
  {lexemes : List Lexeme} {reading : Reading}

theorem prepend {consumed : List Lexeme} (walked : place.walk nesting base consumed = .ok middle)
    (follows : reading.Follows nesting base middle outer lexemes) :
    reading.Follows nesting base place outer (consumed ++ lexemes) := by
  cases reading with
  | accepted expr rest =>
      obtain ⟨more, inner, rfl, ungrouped, ended, onward⟩ := follows
      exact ⟨consumed ++ more, inner, by simp, ungrouped, ended,
        (Place.walk_append more walked).trans onward⟩
  | rejected error rest =>
      obtain ⟨more, stop, others, rfl, onward, refuses, left⟩ := follows
      exact ⟨consumed ++ more, stop, others, by simp, (Place.walk_append more walked).trans onward,
        refuses, left⟩

theorem cons {lexeme : Lexeme} (step : place.next nesting base lexeme = .ok middle)
    (follows : reading.Follows nesting base middle outer lexemes) :
    reading.Follows nesting base place outer (lexeme :: lexemes) :=
  prepend (Place.walk_cons [] step) follows

theorem map {build : Expr → Expr} (frames : List Frame)
    (follows : reading.Follows nesting base place (frames ++ outer) lexemes)
    (ungrouped : ∀ frame ∈ frames, Frame.isGroup frame = false)
    (ended : ∀ expr rest, reading = .accepted expr rest →
      frames = [] ∨ Tier.power.EndsBefore rest) :
    (reading.map build).Follows nesting base place outer lexemes := by
  cases reading with
  | accepted expr rest =>
      obtain ⟨consumed, inner, rfl, nested, last, walked⟩ := follows
      refine ⟨consumed, inner ++ frames, rfl, ?_, ?_, by simpa using walked⟩
      · simpa [or_imp, forall_and] using ⟨nested, ungrouped⟩
      · rcases ended expr rest rfl with rfl | ended
        · simpa using last
        · exact .inr ended
  | rejected error rest => exact follows

theorem closed {position : Nat}
    (follows : reading.Follows nesting base place (.group position :: outer) lexemes)
    (ended : ∀ expr rest, reading = .accepted expr rest → Tier.sum.EndsBefore rest) :
    (reading.closed position).Follows nesting base place (Place.settle outer) lexemes := by
  rcases reading with ⟨expr, rest⟩ | ⟨error, rest⟩
  · obtain ⟨consumed, inner, rfl, ungrouped, _, walked⟩ := follows
    have flushed := Place.flush_append (.group position :: outer) ungrouped
    rw [show Place.flush (.group position :: outer) = .group position :: outer from rfl] at flushed
    rcases rest with _ | ⟨⟨token, stop⟩, rest⟩
    · refine ⟨consumed, _, [], rfl, walked, ?_, .inl rfl⟩
      simp only [Place.Refuses, Place.finish, flushed]
    · cases token with
      | closing =>
          refine ⟨consumed ++ [⟨.closing, stop⟩], [], by simp, List.forall_mem_nil _,
            .inl rfl, ?_⟩
          rw [Place.walk_append _ walked]
          refine Place.walk_cons [] ?_
          simp only [Place.next, Place.opened?, Place.passed, flushed, List.nil_append]
      | operator sign => exact (ended _ _ rfl).not_operator.elim
      | number value | log | opening =>
          refine ⟨consumed, _, _, rfl, walked, ?_, .inl rfl⟩
          simp only [Place.Refuses, Place.next, Place.opened?, Place.passed, flushed]
  · exact follows

end Reading.Follows

namespace Task.StartsAt

variable {nesting : Nesting} {base depth : Nat} {outer : List Frame} {place : Place}

theorem operands {tier : Tier} {sequel : Expr → Task} {lexemes : List Lexeme}
    (starts : StartsAt base depth outer lexemes place (.expression tier))
    (goesOn : tier.sequel? = some sequel) :
    StartsAt base depth outer lexemes place (.expression tier.operands) := by
  cases tier with
  | sum | product | power => exact starts
  | logarithm | primary => cases goesOn

theorem sequel {tier : Tier} {sequel : Expr → Task} {lexemes rest : List Lexeme}
    {inner : List Frame} (starts : StartsAt base depth outer lexemes place (.expression tier))
    (goesOn : tier.sequel? = some sequel)
    (ungrouped : ∀ frame ∈ inner, Frame.isGroup frame = false)
    (ended : inner = [] ∨ Tier.power.EndsBefore rest) (first : Expr) :
    StartsAt base depth outer rest ⟨inner ++ outer, .operator⟩ (sequel first) := by
  cases tier with
  | sum | product =>
      cases goesOn
      exact ⟨starts.1, starts.2.1, inner, ungrouped, rfl, ended⟩
  | power =>
      cases goesOn
      exact ⟨starts.1, inner, ungrouped, rfl, ended⟩
  | logarithm | primary => cases goesOn

theorem link {tier : Tier} {operator : BinaryOp} {position : Nat} {lexemes rest : List Lexeme}
    {first : Expr} {found : List (Link Expr)} (links : tier.links operator = true)
    (starts : StartsAt base depth outer lexemes place (.links tier first found)) :
    place.next nesting base ⟨.operator operator, position⟩ = .ok ⟨outer, .operand⟩ ∧
      StartsAt base depth outer rest ⟨outer, .operand⟩ (.expression tier.operands) := by
  obtain ⟨depth, flushed, inner, ungrouped, rfl, _⟩ := starts
  constructor
  · cases operator with
    | pow => cases tier <;> cases links
    | add | sub | mul | div =>
        simp only [Place.next, Place.opened?, Place.passed, Place.flush_append _ ungrouped, flushed]
  · cases tier with
    | sum | product => exact ⟨depth, flushed, rfl⟩
    | logarithm | power | primary => cases links

/-- What a construct opens is inside the place where the construct begins, and
the construct ends outside it again. -/
theorem opened (nesting : Nesting) {task : Task} {token : Token} {construct : Construct}
    {position : Nat} {rest : List Lexeme} (opens : task.Opens token construct)
    (starts : task.StartsAt base depth outer (⟨token, position⟩ :: rest) place) :
    depth = base + place.around.length ∧
      ∃ inside within, place.opened? ⟨token, position⟩ = some inside ∧
        construct.content.StartsAt base (depth + 1) within rest inside ∧
        ∀ reading, Reads nesting construct.content (depth + 1) rest reading →
          reading.Follows nesting base inside within rest →
          (construct.build position reading).Follows nesting base inside outer rest := by
  cases opens with
  | logarithm =>
      obtain ⟨rfl, flushed, rfl⟩ := starts
      refine ⟨rfl, _, .logarithm :: outer, rfl, ⟨rfl, rfl, .inl rfl⟩,
        fun reading reads follows => ?_⟩
      exact .map [.logarithm] follows (by simp [Frame.isGroup])
        fun expr rest accepted => .inr (reads.ends expr rest accepted)
  | negation =>
      obtain ⟨rfl, _, rfl | ⟨rfl, _⟩⟩ := starts <;>
        exact ⟨rfl, _, outer, rfl, ⟨rfl, rfl⟩, fun reading _ follows =>
          .map [] follows (List.forall_mem_nil _) fun _ _ _ => .inl rfl⟩
  | group =>
      obtain ⟨rfl, settled, place⟩ := starts
      have closes : ∀ reading : Reading,
          Reads nesting (.expression .sum) (base + outer.length + 1) rest reading →
          reading.Follows nesting base ⟨.group position :: outer, .operand⟩
            (.group position :: outer) rest →
          (reading.closed position).Follows nesting base ⟨.group position :: outer, .operand⟩
            outer rest := by
        intro reading reads follows
        have closed := follows.closed reads.ends
        rwa [settled] at closed
      rcases place with rfl | ⟨rfl, _⟩
      · exact ⟨rfl, _, .group position :: outer, rfl, ⟨rfl, rfl, rfl⟩, closes⟩
      · exact ⟨rfl, _, .group position :: outer, rfl, ⟨rfl, rfl, rfl⟩, closes⟩
  | exponent first =>
      obtain ⟨rfl, inner, ungrouped, rfl, rfl | ended⟩ := starts
      · refine ⟨rfl, _, .exponent :: outer, rfl, ⟨rfl, rfl, .inl rfl⟩,
          fun reading reads follows => ?_⟩
        exact .map [.exponent] follows (by simp [Frame.isGroup])
          fun expr rest accepted => .inr (reads.ends expr rest accepted)
      · -- What is left open ends with a power, and a power takes every `^`.
        exact absurd (ended _ _ _ rfl) (by decide)
  | negatedLogarithm =>
      obtain ⟨rfl, rfl⟩ := starts
      refine ⟨rfl, _, .logarithm :: .negation :: outer, rfl, ⟨rfl, rfl, .inl rfl⟩,
        fun reading reads follows => ?_⟩
      exact .map [.logarithm, .negation] follows (by simp [Frame.isGroup])
        fun expr rest accepted => .inr (reads.ends expr rest accepted)
  | negatedGroup =>
      obtain ⟨rfl, rfl⟩ := starts
      exact ⟨rfl, _, .group position :: .negation :: outer, rfl, ⟨rfl, rfl, rfl⟩,
        fun reading reads follows => follows.closed reads.ends⟩

theorem number {task : Task} {value : Float} {position : Nat} {rest : List Lexeme}
    (simple : task.Simple)
    (starts : task.StartsAt base depth outer (⟨.number value, position⟩ :: rest) place) :
    place.next nesting base ⟨.number value, position⟩ = .ok ⟨outer, .operator⟩ := by
  rcases simple with rfl | rfl
  · obtain ⟨_, settled, rfl | ⟨rfl, _⟩⟩ := starts <;>
      simp only [Place.next, Place.opened?, Place.passed, settled]
  · obtain ⟨_, rfl⟩ := starts
    rfl

theorem missing {task : Task} (simple : task.Simple)
    (starts : task.StartsAt base depth outer [] place) :
    place.finish = .error .unexpectedEnd := by
  rcases simple with rfl | rfl
  · obtain ⟨_, _, rfl | ⟨rfl, _⟩⟩ := starts <;> rfl
  · obtain ⟨_, rfl⟩ := starts
    rfl

theorem refused {task : Task} {token : Token} {position : Nat} {rest : List Lexeme}
    (simple : task.Simple) (unfit : ∀ construct, ¬ task.Opens token construct)
    (uncounted : ∀ value, token ≠ .number value)
    (starts : task.StartsAt base depth outer (⟨token, position⟩ :: rest) place) :
    place.next nesting base ⟨token, position⟩ = .error (.unexpectedToken ⟨token, position⟩) := by
  rcases simple with rfl | rfl
  · obtain ⟨_, _, place⟩ := starts
    cases token with
    | number value => exact absurd rfl (uncounted value)
    | opening => exact absurd .group (unfit _)
    | log =>
        rcases place with rfl | ⟨rfl, plain⟩
        · rfl
        · exact absurd rfl (plain _ _)
    | closing => rcases place with rfl | ⟨rfl, _⟩ <;> rfl
    | operator sign =>
        cases sign with
        | sub => exact absurd .negation (unfit _)
        | add | mul | div | pow => rcases place with rfl | ⟨rfl, _⟩ <;> rfl
  · obtain ⟨_, rfl⟩ := starts
    cases token with
    | number value => exact absurd rfl (uncounted value)
    | log => exact absurd .negatedLogarithm (unfit _)
    | opening => exact absurd .negatedGroup (unfit _)
    | operator _ | closing => rfl

end Task.StartsAt

theorem Tier.startsAt (tier : Tier) (depth : Nat) (lexemes : List Lexeme) :
    (Task.expression tier).StartsAt depth depth [] lexemes tier.start := by
  cases tier with
  | sum | product | logarithm => exact ⟨rfl, rfl, rfl⟩
  | power | primary => exact ⟨rfl, rfl, .inl rfl⟩

/-- A reader follows the places from wherever its task may begin. -/
theorem Reads.follows {nesting : Nesting} {base depth : Nat} {task : Task} {lexemes : List Lexeme}
    {reading : Reading} (reads : Reads nesting task depth lexemes reading) :
    ∀ outer place, task.StartsAt base depth outer lexemes place →
      reading.Follows nesting base place outer lexemes := by
  induction reads with
  | opened opens admitted reads content =>
      intro outer place starts
      obtain ⟨rfl, inside, within, opened, begins, ends⟩ := starts.opened nesting opens
      refine .cons ?_ (ends _ reads (content within inside begins))
      simp only [Place.next, opened, admitted, if_true]
  | tooDeep opens full =>
      intro outer place starts
      obtain ⟨rfl, inside, _, opened, _⟩ := starts.opened nesting opens
      refine ⟨[], place, _, rfl, rfl, ?_, .inl rfl⟩
      simp only [Place.Refuses, Place.next, opened, full, Bool.false_eq_true, if_false]
  | begun goesOn _ _ begins ends =>
      intro outer place starts
      obtain ⟨consumed, inner, rfl, ungrouped, ended, walked⟩ :=
        begins outer place (starts.operands goesOn)
      exact .prepend walked (ends _ _ (starts.sequel goesOn ungrouped ended _))
  | unbegun goesOn _ begins =>
      exact fun outer place starts => begins outer place (starts.operands goesOn)
  | linked links _ _ reads ends =>
      intro outer place starts
      obtain ⟨passed, operand⟩ := starts.link links
      obtain ⟨consumed, inner, rfl, ungrouped, ended, walked⟩ := reads _ _ operand
      exact .cons passed
        (.prepend walked (ends _ _ ⟨starts.1, starts.2.1, inner, ungrouped, rfl, ended⟩))
  | unlinked links _ reads =>
      intro outer place starts
      obtain ⟨passed, operand⟩ := starts.link links
      exact .cons passed (reads _ _ operand)
  | chained ended =>
      intro outer place starts
      obtain ⟨_, _, inner, ungrouped, rfl, last⟩ := starts
      exact ⟨[], inner, rfl, ungrouped, last, rfl⟩
  | unraised ended =>
      intro outer place starts
      obtain ⟨_, inner, ungrouped, rfl, last⟩ := starts
      exact ⟨[], inner, rfl, ungrouped, last, rfl⟩
  | plain plain _ power =>
      intro outer place starts
      obtain ⟨depth, flushed, rfl⟩ := starts
      exact power _ _ ⟨depth, Place.settle_of_flush flushed, .inr ⟨rfl, plain⟩⟩
  | number simple =>
      exact fun outer place starts =>
        ⟨[_], [], rfl, List.forall_mem_nil _, .inl rfl,
          Place.walk_cons [] (starts.number simple)⟩
  | missing simple =>
      exact fun outer place starts => ⟨[], place, [], rfl, rfl, starts.missing simple, .inl rfl⟩
  | @refused _ _ _ _ rest simple unfit uncounted =>
      intro outer place starts
      refine ⟨[], place, _, rfl, rfl, starts.refused simple unfit uncounted, ?_⟩
      rcases simple with rfl | rfl
      · exact .inl rfl
      · exact .inr ⟨rfl, _, rfl⟩

end Reckoner
