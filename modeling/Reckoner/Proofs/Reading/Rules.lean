import Reckoner.Expr.Reading

namespace Reckoner

namespace Reading

theorem map_eq_accepted {build : Expr → Expr} {reading : Reading} {expr : Expr}
    {rest : List Lexeme} :
    reading.map build = .accepted expr rest ↔
      ∃ inner, reading = .accepted inner rest ∧ expr = build inner := by
  cases reading with
  | accepted inner others => simp only [map, accepted.injEq]; grind
  | rejected error others => simp [map]

theorem closed_eq_accepted {position : Nat} {reading : Reading} {expr : Expr}
    {rest : List Lexeme} :
    reading.closed position = .accepted expr rest ↔
      ∃ stop, reading = .accepted expr (⟨.closing, stop⟩ :: rest) := by
  unfold closed
  split
  next inner stop others => simp only [accepted.injEq, List.cons.injEq]; grind
  next inner others unclosed =>
    simp only [accepted.injEq, reduceCtorEq, false_iff, not_exists, not_and]
    intro stop _ same
    exact unclosed stop rest same
  next => simp

end Reading

/-- What a reader is at work on: an expression of a tier, what follows the
first operand of a chain or the base of a power, or the operand of a minus
sign. -/
inductive Task where
  | expression (tier : Tier)
  | links (tier : Tier) (first : Expr) (found : List (Link Expr))
  | exponent (base : Expr)
  | operand

inductive Construct where
  | group
  | negation
  | logarithm
  | exponent (base : Expr)

namespace Construct

def content : Construct → Task
  | .group => .expression .sum
  | .negation => .operand
  | .logarithm => .expression .power
  | .exponent _ => .expression .power

def build (position : Nat) : Construct → Reading → Reading
  | .group => .closed position
  | .negation => .map (.unary .negate position)
  | .logarithm => .map (.unary .ln position)
  | .exponent base => .map (.binary .pow position base)

end Construct

/-- How a tier goes on after its first operand, if it begins with one. -/
def Tier.sequel? : Tier → Option (Expr → Task)
  | .sum => some fun first => .links .sum first []
  | .product => some fun first => .links .product first []
  | .power => some .exponent
  | .logarithm | .primary => none

namespace Task

def read (nesting : Nesting) : Task → Nat → List Lexeme → Reading
  | .expression tier => Tier.read nesting tier
  | .links tier first found => fun depth => Tier.readLinks nesting tier depth first found
  | .exponent base => fun depth => Tier.readExponent nesting depth base
  | .operand => Tier.readNegated nesting

/-- The token opens the construct where the task begins. -/
inductive Opens : Task → Token → Construct → Prop where
  | logarithm : Opens (.expression .logarithm) .log .logarithm
  | negation : Opens (.expression .primary) (.operator .sub) .negation
  | group : Opens (.expression .primary) .opening .group
  | exponent (base : Expr) : Opens (.exponent base) (.operator .pow) (.exponent base)
  | negatedLogarithm : Opens .operand .log .logarithm
  | negatedGroup : Opens .operand .opening .group

def Simple (task : Task) : Prop :=
  task = .expression .primary ∨ task = .operand

/-- What is left when the task refuses its first lexeme: a minus sign only looks
at what follows it, a primary expression takes what it cannot use. -/
def leave (lexeme : Lexeme) (rest : List Lexeme) : Task → List Lexeme
  | .operand => lexeme :: rest
  | .expression _ | .links _ _ _ | .exponent _ => rest

end Task

inductive Reads (nesting : Nesting) : Task → Nat → List Lexeme → Reading → Prop where
  | opened {task token construct depth position rest reading}
      (opens : task.Opens token construct)
      (admitted : nesting.admits depth = true)
      (content : Reads nesting construct.content (depth + 1) rest reading) :
      Reads nesting task depth (⟨token, position⟩ :: rest) (construct.build position reading)
  | tooDeep {task token construct depth position rest}
      (opens : task.Opens token construct)
      (full : nesting.admits depth = false) :
      Reads nesting task depth (⟨token, position⟩ :: rest)
        (.rejected (.nestingTooDeep position) rest)
  | begun {tier sequel depth lexemes first rest reading}
      (goesOn : tier.sequel? = some sequel)
      (begins : Reads nesting (.expression tier.operands) depth lexemes (.accepted first rest))
      (ends : Reads nesting (sequel first) depth rest reading) :
      Reads nesting (.expression tier) depth lexemes reading
  | unbegun {tier sequel depth lexemes error rest}
      (goesOn : tier.sequel? = some sequel)
      (begins : Reads nesting (.expression tier.operands) depth lexemes (.rejected error rest)) :
      Reads nesting (.expression tier) depth lexemes (.rejected error rest)
  | linked {tier depth first found operator position operand lexemes rest reading}
      (links : tier.links operator = true)
      (reads : Reads nesting (.expression tier.operands) depth lexemes (.accepted operand rest))
      (ends : Reads nesting (.links tier first (⟨operator, position, operand⟩ :: found)) depth
        rest reading) :
      Reads nesting (.links tier first found) depth (⟨.operator operator, position⟩ :: lexemes)
        reading
  | unlinked {tier depth first found operator position error lexemes rest}
      (links : tier.links operator = true)
      (reads : Reads nesting (.expression tier.operands) depth lexemes (.rejected error rest)) :
      Reads nesting (.links tier first found) depth (⟨.operator operator, position⟩ :: lexemes)
        (.rejected error rest)
  | chained {tier depth first found lexemes}
      (ended : ∀ operator position rest, lexemes = ⟨.operator operator, position⟩ :: rest →
        tier.links operator = false) :
      Reads nesting (.links tier first found) depth lexemes
        (.accepted (first.chained found.reverse) lexemes)
  | unraised {base depth lexemes}
      (ended : ∀ position rest, lexemes ≠ ⟨.operator .pow, position⟩ :: rest) :
      Reads nesting (.exponent base) depth lexemes (.accepted base lexemes)
  | plain {depth lexemes reading}
      (plain : ∀ position rest, lexemes ≠ ⟨.log, position⟩ :: rest)
      (reads : Reads nesting (.expression .power) depth lexemes reading) :
      Reads nesting (.expression .logarithm) depth lexemes reading
  | number {task depth value position rest} (simple : task.Simple) :
      Reads nesting task depth (⟨.number value, position⟩ :: rest)
        (.accepted (.literal value position) rest)
  | missing {task depth} (simple : task.Simple) :
      Reads nesting task depth [] (.rejected .unexpectedEnd [])
  | refused {task token depth position rest} (simple : task.Simple)
      (unfit : ∀ construct, ¬ task.Opens token construct)
      (uncounted : ∀ value, token ≠ .number value) :
      Reads nesting task depth (⟨token, position⟩ :: rest)
        (.rejected (.unexpectedToken ⟨token, position⟩) (task.leave ⟨token, position⟩ rest))

namespace Task

variable {nesting : Nesting} {depth : Nat}

theorem read_opens {task : Task} {token : Token} {construct : Construct}
    (opens : task.Opens token construct) (position : Nat) (rest : List Lexeme) :
    task.read nesting depth (⟨token, position⟩ :: rest) =
      if nesting.admits depth then
        construct.build position (construct.content.read nesting (depth + 1) rest)
      else .rejected (.nestingTooDeep position) rest := by
  cases opens with
  | logarithm => exact Tier.read_logarithm_log nesting depth position rest
  | negation => exact Tier.read_primary_minus nesting depth position rest
  | group => exact Tier.read_primary_opening nesting depth position rest
  | exponent base => rfl
  | negatedLogarithm => exact Tier.read_logarithm_log nesting depth position rest
  | negatedGroup => exact Tier.read_primary_opening nesting depth position rest

theorem read_sequel {tier : Tier} {sequel : Expr → Task} (lexemes : List Lexeme)
    (goesOn : tier.sequel? = some sequel) :
    read nesting (.expression tier) depth lexemes =
      (read nesting (.expression tier.operands) depth lexemes).andThen fun first rest =>
        (sequel first).read nesting depth rest := by
  cases tier with
  | sum => cases goesOn; exact Tier.read_sum nesting depth lexemes
  | product => cases goesOn; exact Tier.read_product nesting depth lexemes
  | power => cases goesOn; exact Tier.read_power nesting depth lexemes
  | logarithm | primary => cases goesOn

theorem read_number {task : Task} (simple : task.Simple) (value : Float) (position : Nat)
    (rest : List Lexeme) :
    task.read nesting depth (⟨.number value, position⟩ :: rest) =
      .accepted (.literal value position) rest := by
  rcases simple with rfl | rfl
  · exact Tier.read_primary_number nesting depth value position rest
  · exact Tier.read_primary_number nesting depth value position rest

theorem read_missing {task : Task} (simple : task.Simple) :
    task.read nesting depth [] = .rejected .unexpectedEnd [] := by
  rcases simple with rfl | rfl
  · exact Tier.read_primary_nil nesting depth
  · rfl

theorem read_refused {task : Task} (simple : task.Simple) {token : Token}
    (unfit : ∀ construct, ¬ task.Opens token construct)
    (uncounted : ∀ value, token ≠ .number value) (position : Nat) (rest : List Lexeme) :
    task.read nesting depth (⟨token, position⟩ :: rest) =
      .rejected (.unexpectedToken ⟨token, position⟩) (task.leave ⟨token, position⟩ rest) := by
  rcases simple with rfl | rfl
  · refine Tier.read_primary_refused _ _ _ _ ?_ ?_
    · intro same
      cases (same : token = _)
      exact unfit _ .negation
    · cases token with
      | number value => exact absurd rfl (uncounted value)
      | opening => exact absurd .group (unfit _)
      | log | operator _ | closing => simp [Tier.negated?]
  · cases token with
    | number value => exact absurd rfl (uncounted value)
    | log => exact absurd .negatedLogarithm (unfit _)
    | opening => exact absurd .negatedGroup (unfit _)
    | operator _ | closing => rfl

/-- Every task hands on either fewer lexemes or, at a tighter tier, the same. -/
def size (lexemes : List Lexeme) : Task → Nat
  | .expression tier => 8 * lexemes.length + tier.rank
  | .links _ _ _ | .exponent _ | .operand => 8 * lexemes.length

theorem size_lt {lexemes rest : List Lexeme} (inner outer : Task)
    (fewer : rest.length < lexemes.length) : inner.size rest < outer.size lexemes := by
  have least : 8 * lexemes.length ≤ outer.size lexemes := by
    cases outer <;> simp [size]
  have most : inner.size rest < 8 * rest.length + 8 := by
    cases inner with
    | expression tier =>
        have rank := tier.rank_lt
        simp only [size]
        omega
    | links tier first found | exponent base | operand => simp [size]
  omega

theorem size_operands_lt {tier : Tier} {sequel : Expr → Task} (lexemes : List Lexeme)
    (goesOn : tier.sequel? = some sequel) :
    size lexemes (.expression tier.operands) < size lexemes (.expression tier) := by
  cases tier with
  | sum | product | power => exact Nat.add_lt_add_left (by decide) _
  | logarithm | primary => cases goesOn

end Task

variable {nesting : Nesting}

theorem Reads.read_eq {task : Task} {depth : Nat} {lexemes : List Lexeme} {reading : Reading}
    (reads : Reads nesting task depth lexemes reading) :
    task.read nesting depth lexemes = reading := by
  induction reads with
  | opened opens admitted _ content => rw [Task.read_opens opens, if_pos admitted, content]
  | tooDeep opens full => rw [Task.read_opens opens, full]; rfl
  | begun goesOn _ _ begins ends => rw [Task.read_sequel _ goesOn, begins]; exact ends
  | unbegun goesOn _ begins => rw [Task.read_sequel _ goesOn, begins]; rfl
  | linked links _ _ reads ends =>
      refine (Tier.readLinks_link _ _ _ _ _ _ _ _ links).trans ?_
      simp only [Task.read] at reads ends
      rw [reads]
      exact ends
  | unlinked links _ reads =>
      refine (Tier.readLinks_link _ _ _ _ _ _ _ _ links).trans ?_
      simp only [Task.read] at reads
      rw [reads]
      rfl
  | chained ended => exact Tier.readLinks_end _ _ _ _ _ _ ended
  | @unraised base depth lexemes ended =>
      simp only [Task.read, Tier.readExponent]
  | plain plain _ reads => exact (Tier.read_logarithm _ _ _ plain).trans reads
  | number simple => exact Task.read_number simple _ _ _
  | missing simple => exact Task.read_missing simple
  | refused simple unfit uncounted => exact Task.read_refused simple unfit uncounted _ _

namespace Reads

variable {task : Task} {depth : Nat} {lexemes : List Lexeme}

theorem rest_length_lt {tier : Tier} {expr : Expr} {rest : List Lexeme}
    (reads : Reads nesting (.expression tier) depth lexemes (.accepted expr rest)) :
    rest.length < lexemes.length := by
  have within := Tier.read_within nesting depth tier lexemes
  rw [show Tier.read nesting tier depth lexemes = _ from reads.read_eq] at within
  exact within

theorem exists_opens {token : Token} {construct : Construct} {position : Nat} {rest : List Lexeme}
    (opens : task.Opens token construct)
    (content : ∃ reading, Reads nesting construct.content (depth + 1) rest reading) :
    ∃ reading, Reads nesting task depth (⟨token, position⟩ :: rest) reading := by
  obtain ⟨reading, content⟩ := content
  cases admitted : nesting.admits depth with
  | true => exact ⟨_, .opened opens admitted content⟩
  | false => exact ⟨_, .tooDeep opens admitted⟩

theorem exists_sequel {tier : Tier} {sequel : Expr → Task} (goesOn : tier.sequel? = some sequel)
    (begins : ∃ reading, Reads nesting (.expression tier.operands) depth lexemes reading)
    (ends : ∀ first rest, rest.length < lexemes.length →
      ∃ reading, Reads nesting (sequel first) depth rest reading) :
    ∃ reading, Reads nesting (.expression tier) depth lexemes reading := by
  obtain ⟨first | error, begins⟩ := begins
  case accepted rest =>
    obtain ⟨reading, ends⟩ := ends first rest begins.rest_length_lt
    exact ⟨reading, .begun goesOn begins ends⟩
  case rejected rest => exact ⟨_, .unbegun goesOn begins⟩

theorem exists_link {tier : Tier} {first : Expr} {found : List (Link Expr)} {operator : BinaryOp}
    {position : Nat} (links : tier.links operator = true)
    (reads : ∃ reading, Reads nesting (.expression tier.operands) depth lexemes reading)
    (ends : ∀ found rest, rest.length < lexemes.length →
      ∃ reading, Reads nesting (.links tier first found) depth rest reading) :
    ∃ reading, Reads nesting (.links tier first found) depth
      (⟨.operator operator, position⟩ :: lexemes) reading := by
  obtain ⟨operand | error, reads⟩ := reads
  case accepted rest =>
    obtain ⟨reading, ends⟩ :=
      ends (⟨operator, position, operand⟩ :: found) rest reads.rest_length_lt
    exact ⟨reading, .linked links reads ends⟩
  case rejected rest => exact ⟨_, .unlinked links reads⟩

theorem exists_simple (simple : task.Simple)
    (shorter : ∀ (inner : Task) depth rest, rest.length < lexemes.length →
      ∃ reading, Reads nesting inner depth rest reading) :
    ∃ reading, Reads nesting task depth lexemes reading := by
  rcases lexemes with _ | ⟨⟨token, position⟩, rest⟩
  · exact ⟨_, .missing simple⟩
  · by_cases opens : ∃ construct, task.Opens token construct
    · obtain ⟨construct, opens⟩ := opens
      exact exists_opens opens (shorter _ _ _ (by simp))
    · by_cases counted : ∃ value, token = .number value
      · obtain ⟨value, rfl⟩ := counted
        exact ⟨_, .number simple⟩
      · exact ⟨_, .refused simple (not_exists.mp opens) (not_exists.mp counted)⟩

theorem total (nesting : Nesting) (task : Task) (depth : Nat) (lexemes : List Lexeme) :
    ∃ reading, Reads nesting task depth lexemes reading := by
  induction size : task.size lexemes using Nat.strongRecOn generalizing task depth lexemes with
  | ind _ smaller =>
      subst size
      -- All tasks but one begin after a lexeme; only the operands of a tier begin
      -- with the same lexemes.
      have shorter : ∀ (inner : Task) depth rest, rest.length < lexemes.length →
          ∃ reading, Reads nesting inner depth rest reading :=
        fun inner depth rest fewer => smaller _ (inner.size_lt task fewer) inner depth rest rfl
      cases task with
      | expression tier =>
          cases tier with
          | sum | product | power =>
              refine exists_sequel rfl ?_ fun first rest => shorter _ depth rest
              exact smaller _ (Task.size_operands_lt lexemes rfl) _ _ _ rfl
          | logarithm =>
              by_cases log : ∃ position rest, lexemes = ⟨.log, position⟩ :: rest
              · obtain ⟨position, rest, rfl⟩ := log
                exact exists_opens .logarithm (shorter _ _ _ (by simp))
              · obtain ⟨reading, power⟩ := smaller (Task.size lexemes (.expression .power))
                  (Nat.add_lt_add_left (by decide) _) _ depth lexemes rfl
                exact ⟨reading, .plain (fun position rest same => log ⟨position, rest, same⟩) power⟩
          | primary => exact exists_simple (.inl rfl) shorter
      | links tier first found =>
          by_cases link : ∃ operator position rest,
              lexemes = ⟨.operator operator, position⟩ :: rest ∧ tier.links operator = true
          · obtain ⟨operator, position, rest, rfl, links⟩ := link
            refine exists_link links (shorter _ _ _ (by simp)) fun found others fewer => ?_
            exact shorter _ _ _ (Nat.lt_succ_of_lt fewer)
          · refine ⟨_, .chained fun operator position rest same => ?_⟩
            exact Bool.eq_false_iff.mpr fun links => link ⟨operator, position, rest, same, links⟩
      | exponent base =>
          by_cases raised : ∃ position rest, lexemes = ⟨.operator .pow, position⟩ :: rest
          · obtain ⟨position, rest, rfl⟩ := raised
            exact exists_opens (.exponent base) (shorter _ _ _ (by simp))
          · exact ⟨_, .unraised fun position rest same => raised ⟨position, rest, same⟩⟩
      | operand => exact exists_simple (.inr rfl) shorter

end Reads

theorem reads_iff {task : Task} {depth : Nat} {lexemes : List Lexeme} {reading : Reading} :
    Reads nesting task depth lexemes reading ↔ task.read nesting depth lexemes = reading := by
  constructor
  · exact Reads.read_eq
  · intro same
    obtain ⟨other, reads⟩ := Reads.total nesting task depth lexemes
    rw [← same, reads.read_eq]
    exact reads

namespace Expr

theorem ofLexemes_of_accepted {lexemes : List Lexeme} {expr : Expr}
    (reads : Reads .standard (.expression .sum) 0 lexemes (.accepted expr [])) :
    ofLexemes lexemes = .ok expr := by
  cases lexemes with
  | nil => exact absurd reads.rest_length_lt (Nat.lt_irrefl 0)
  | cons lexeme rest =>
      have same : Tier.read .standard .sum 0 (lexeme :: rest) = .accepted expr [] := reads.read_eq
      rw [ofLexemes_cons, same]
      rfl

theorem ofLexemes_of_rejected {lexemes rest : List Lexeme} {error : ParseError}
    (spelled : lexemes ≠ [])
    (reads : Reads .standard (.expression .sum) 0 lexemes (.rejected error rest)) :
    ofLexemes lexemes = .error error := by
  obtain ⟨lexeme, others, rfl⟩ := List.exists_cons_of_ne_nil spelled
  have same : Tier.read .standard .sum 0 (lexeme :: others) = .rejected error rest := reads.read_eq
  rw [ofLexemes_cons, same]
  rfl

end Expr

end Reckoner
