import Reckoner.Proofs.Reading.Rules

namespace Reckoner

/-! The grammar of expressions with its nesting, as derivations that carry the
expression they spell:

    sum        := product (('+' | '-') product)*
    product    := logarithm (('*' | '/') logarithm)*
    logarithm  := 'log' power | power
    power      := primary | primary '^' power | '-' 'log' power
    primary    := NUMBER | '(' sum ')' | '-' NUMBER | '-' '(' sum ')'

Here a negated logarithm is a power and no primary expression, for nothing can
be raised that ends in the argument of a logarithm.  Main statement: above the
primary tier the readers accept what the grammar derives, as far as it goes.
-/

/-- An operator and the operand after it: the lexemes of the operand, and the
expression they spell. -/
structure Part where
  operator : BinaryOp
  position : Nat
  lexemes : List Lexeme
  expr : Expr

namespace Part

def spelling (part : Part) : List Lexeme :=
  ⟨.operator part.operator, part.position⟩ :: part.lexemes

def link (part : Part) : Link Expr :=
  ⟨part.operator, part.position, part.expr⟩

end Part

inductive Derives (nesting : Nesting) : Tier → Nat → List Lexeme → Expr → Prop where
  | number {depth value position} :
      Derives nesting .primary depth [⟨.number value, position⟩] (.literal value position)
  | group {depth start stop lexemes expr} (admitted : nesting.admits depth = true)
      (content : Derives nesting .sum (depth + 1) lexemes expr) :
      Derives nesting .primary depth (⟨.opening, start⟩ :: (lexemes ++ [⟨.closing, stop⟩])) expr
  | negatedNumber {depth position value place} (admitted : nesting.admits depth = true) :
      Derives nesting .primary depth
        [⟨.operator .sub, position⟩, ⟨.number value, place⟩]
        (.unary .negate position (.literal value place))
  | negatedGroup {depth position start stop lexemes expr}
      (admitted : nesting.admits (depth + 1) = true)
      (content : Derives nesting .sum (depth + 2) lexemes expr) :
      Derives nesting .primary depth
        (⟨.operator .sub, position⟩ :: ⟨.opening, start⟩ :: (lexemes ++ [⟨.closing, stop⟩]))
        (.unary .negate position expr)
  | base {depth lexemes expr} (primary : Derives nesting .primary depth lexemes expr) :
      Derives nesting .power depth lexemes expr
  | power {depth position left right base exponent} (admitted : nesting.admits depth = true)
      (raised : Derives nesting .primary depth left base)
      (power : Derives nesting .power (depth + 1) right exponent) :
      Derives nesting .power depth (left ++ ⟨.operator .pow, position⟩ :: right)
        (.binary .pow position base exponent)
  | negatedLogarithm {depth position place lexemes expr}
      (admitted : nesting.admits (depth + 1) = true)
      (argument : Derives nesting .power (depth + 2) lexemes expr) :
      Derives nesting .power depth (⟨.operator .sub, position⟩ :: ⟨.log, place⟩ :: lexemes)
        (.unary .negate position (.unary .ln place expr))
  | logarithm {depth position lexemes expr} (admitted : nesting.admits depth = true)
      (argument : Derives nesting .power (depth + 1) lexemes expr) :
      Derives nesting .logarithm depth (⟨.log, position⟩ :: lexemes) (.unary .ln position expr)
  | plain {depth lexemes expr} (power : Derives nesting .power depth lexemes expr) :
      Derives nesting .logarithm depth lexemes expr
  | product {depth lexemes first} {parts : List Part}
      (begins : Derives nesting .logarithm depth lexemes first)
      (operators : ∀ part ∈ parts, part.operator = .mul ∨ part.operator = .div)
      (operands : ∀ part ∈ parts, Derives nesting .logarithm depth part.lexemes part.expr) :
      Derives nesting .product depth (lexemes ++ parts.flatMap Part.spelling)
        (first.chained (parts.map Part.link))
  | sum {depth lexemes first} {parts : List Part}
      (begins : Derives nesting .product depth lexemes first)
      (operators : ∀ part ∈ parts, part.operator = .add ∨ part.operator = .sub)
      (operands : ∀ part ∈ parts, Derives nesting .product depth part.lexemes part.expr) :
      Derives nesting .sum depth (lexemes ++ parts.flatMap Part.spelling)
        (first.chained (parts.map Part.link))

namespace Tier

def extends? : Tier → BinaryOp → Bool
  | .sum, _ => true
  | .product, operator => operator != .add && operator != .sub
  | .logarithm, operator | .power, operator => operator == .pow
  | .primary, _ => false

/-- The lexemes do not start with an operator that carries on an expression of
this tier. -/
def EndsBefore (tier : Tier) (lexemes : List Lexeme) : Prop :=
  ∀ operator position rest, lexemes = ⟨.operator operator, position⟩ :: rest →
    tier.extends? operator = false

theorem extends?_operands {tier : Tier} {operator : BinaryOp} (links : tier.links operator = true) :
    tier.operands.extends? operator = false := by
  cases tier <;> cases operator <;> first | rfl | cases links

theorem extends?_chain {tier : Tier} (chains : tier = .sum ∨ tier = .product)
    (operator : BinaryOp) :
    tier.extends? operator = (tier.operands.extends? operator || tier.links operator) := by
  rcases chains with rfl | rfl <;> cases operator <;> rfl

theorem endsBefore_chain {tier : Tier} {lexemes : List Lexeme}
    (chains : tier = .sum ∨ tier = .product) :
    tier.EndsBefore lexemes ↔ tier.operands.EndsBefore lexemes ∧
      ∀ operator position rest, lexemes = ⟨.operator operator, position⟩ :: rest →
        tier.links operator = false := by
  simp only [EndsBefore, extends?_chain chains, Bool.or_eq_false_iff]
  grind

theorem endsBefore_primary (lexemes : List Lexeme) : Tier.primary.EndsBefore lexemes :=
  fun _ _ _ _ => rfl

end Tier

theorem Tier.EndsBefore.unraised {lexemes : List Lexeme} (ended : Tier.power.EndsBefore lexemes) :
    ∀ position rest, lexemes ≠ ⟨.operator .pow, position⟩ :: rest := by
  intro position rest same
  have stays := ended _ _ _ same
  cases stays

theorem Tier.EndsBefore.not_operator {sign : BinaryOp} {position : Nat} {rest : List Lexeme}
    (ended : Tier.sum.EndsBefore (⟨.operator sign, position⟩ :: rest)) : False :=
  Bool.noConfusion (ended _ _ _ rfl)

theorem Nesting.admits_of_succ (nesting : Nesting) {depth : Nat}
    (admitted : nesting.admits (depth + 1) = true) : nesting.admits depth = true := by
  cases nesting with
  | none => rfl
  | some bound =>
      have within := of_decide_eq_true admitted
      exact decide_eq_true (Nat.lt_of_succ_lt within)

variable {nesting : Nesting}

namespace Task

/-- Where a reading of `lexemes` may end that leaves `rest`. -/
def Ends (lexemes rest : List Lexeme) : Task → Prop
  | .expression tier => tier.EndsBefore rest
  | .links tier _ _ => tier.operands.EndsBefore lexemes →
      tier.operands.EndsBefore rest ∧
        ∀ operator position more, rest = ⟨.operator operator, position⟩ :: more →
          tier.links operator = false
  | .exponent _ => Tier.power.EndsBefore rest
  | .operand => True

end Task

theorem Reads.ends {task : Task} {depth : Nat} {lexemes : List Lexeme} {reading : Reading}
    (reads : Reads nesting task depth lexemes reading) :
    ∀ expr rest, reading = .accepted expr rest → task.Ends lexemes rest := by
  induction reads with
  | opened opens _ _ content =>
      intro expr rest accepted
      cases opens with
      | logarithm =>
          obtain ⟨_, rfl, _⟩ := Reading.map_eq_accepted.mp accepted
          exact content _ _ rfl
      | exponent base =>
          obtain ⟨_, rfl, _⟩ := Reading.map_eq_accepted.mp accepted
          exact content _ _ rfl
      | negation | group => exact fun _ _ _ _ => rfl
      | negatedLogarithm | negatedGroup => trivial
  | tooDeep => nofun
  | @begun tier _ _ _ _ _ _ goesOn _ _ begins ends =>
      intro expr rest accepted
      subst accepted
      cases tier with
      | sum =>
          cases goesOn
          exact (Tier.endsBefore_chain (.inl rfl)).mpr (ends _ _ rfl (begins _ _ rfl))
      | product =>
          cases goesOn
          exact (Tier.endsBefore_chain (.inr rfl)).mpr (ends _ _ rfl (begins _ _ rfl))
      | power => cases goesOn; exact ends _ _ rfl
      | logarithm | primary => cases goesOn
  | unbegun => nofun
  | linked links _ _ reads ends =>
      intro expr rest accepted before
      subst accepted
      exact ends _ _ rfl (reads _ _ rfl)
  | unlinked => nofun
  | chained ended =>
      intro expr rest accepted before
      cases accepted
      exact ⟨before, ended⟩
  | unraised ended =>
      intro expr rest accepted operator position others same
      cases accepted
      subst same
      cases operator with
      | pow => exact absurd rfl (ended _ _)
      | add | sub | mul | div => rfl
  | plain plain _ power =>
      intro expr rest accepted
      subst accepted
      exact power _ _ rfl
  | number simple =>
      intro expr rest accepted
      cases accepted
      rcases simple with rfl | rfl
      · exact fun _ _ _ _ => rfl
      · trivial
  | missing => nofun
  | refused => nofun

theorem Tier.links_sum {operator : BinaryOp} (links : Tier.sum.links operator = true) :
    operator = .add ∨ operator = .sub := by
  cases operator <;> simp [Tier.links] at links ⊢

theorem Tier.links_product {operator : BinaryOp} (links : Tier.product.links operator = true) :
    operator = .mul ∨ operator = .div := by
  cases operator <;> simp [Tier.links] at links ⊢

/-- What the grammar says about a reading of `lexemes` that accepts `expr` and
leaves `rest`. -/
def Task.Spelled (nesting : Nesting) (depth : Nat) (lexemes rest : List Lexeme) (expr : Expr) :
    Task → Prop
  | .expression .primary => ∃ consumed, lexemes = consumed ++ rest ∧
      (Derives nesting .primary depth consumed expr ∨
        Derives nesting .power depth consumed expr ∧ Tier.power.EndsBefore rest)
  | .expression tier => ∃ consumed, lexemes = consumed ++ rest ∧
      Derives nesting tier depth consumed expr
  | .links tier first found => ∃ parts : List Part,
      lexemes = parts.flatMap Part.spelling ++ rest ∧
      (∀ part ∈ parts, tier.links part.operator = true ∧
        Derives nesting tier.operands depth part.lexemes part.expr) ∧
      expr = first.chained (found.reverse ++ parts.map Part.link)
  | .exponent base => (lexemes = rest ∧ expr = base) ∨
      ∃ position consumed exponent, lexemes = ⟨.operator .pow, position⟩ :: (consumed ++ rest) ∧
        nesting.admits depth = true ∧ Derives nesting .power (depth + 1) consumed exponent ∧
        expr = .binary .pow position base exponent
  | .operand => ∀ outside position, depth = outside + 1 → nesting.admits outside = true →
      ∃ consumed, lexemes = consumed ++ rest ∧
        (Derives nesting .primary outside (⟨.operator .sub, position⟩ :: consumed)
            (.unary .negate position expr) ∨
          Derives nesting .power outside (⟨.operator .sub, position⟩ :: consumed)
            (.unary .negate position expr) ∧ Tier.power.EndsBefore rest)

theorem Task.Spelled.operands {tier : Tier} {operator : BinaryOp} {depth : Nat}
    {lexemes rest : List Lexeme} {expr : Expr} (links : tier.links operator = true)
    (spelled : Task.Spelled nesting depth lexemes rest expr (.expression tier.operands)) :
    ∃ consumed, lexemes = consumed ++ rest ∧ Derives nesting tier.operands depth consumed expr := by
  cases tier with
  | sum | product => exact spelled
  | logarithm | power | primary => cases links

theorem Task.Opens.spelled {task : Task} {token : Token} {construct : Construct}
    {depth position : Nat} {lexemes rest : List Lexeme} {reading : Reading} {expr : Expr}
    (opens : task.Opens token construct) (admitted : nesting.admits depth = true)
    (reads : Reads nesting construct.content (depth + 1) lexemes reading)
    (content : ∀ expr rest, reading = .accepted expr rest →
      construct.content.Spelled nesting (depth + 1) lexemes rest expr)
    (accepted : construct.build position reading = .accepted expr rest) :
    task.Spelled nesting depth (⟨token, position⟩ :: lexemes) rest expr := by
  cases opens with
  | logarithm =>
      obtain ⟨argument, rfl, rfl⟩ := Reading.map_eq_accepted.mp accepted
      obtain ⟨consumed, rfl, derives⟩ := content _ _ rfl
      exact ⟨_ :: consumed, rfl, .logarithm admitted derives⟩
  | negation =>
      obtain ⟨operand, rfl, rfl⟩ := Reading.map_eq_accepted.mp accepted
      obtain ⟨consumed, rfl, derives⟩ := content _ _ rfl depth position rfl admitted
      exact ⟨_ :: consumed, rfl, derives⟩
  | group =>
      obtain ⟨stop, rfl⟩ := Reading.closed_eq_accepted.mp accepted
      obtain ⟨consumed, rfl, derives⟩ := content _ _ rfl
      exact ⟨⟨.opening, position⟩ :: (consumed ++ [⟨.closing, stop⟩]), by simp,
        .inl (.group admitted derives)⟩
  | exponent base =>
      obtain ⟨exponent, rfl, rfl⟩ := Reading.map_eq_accepted.mp accepted
      obtain ⟨consumed, rfl, derives⟩ := content _ _ rfl
      exact .inr ⟨position, consumed, exponent, rfl, admitted, derives, rfl⟩
  | negatedLogarithm =>
      intro outside minus same _
      subst same
      obtain ⟨argument, rfl, rfl⟩ := Reading.map_eq_accepted.mp accepted
      obtain ⟨consumed, rfl, derives⟩ := content _ _ rfl
      exact ⟨_ :: consumed, rfl, .inr ⟨.negatedLogarithm admitted derives, reads.ends _ _ rfl⟩⟩
  | negatedGroup =>
      intro outside minus same _
      subst same
      obtain ⟨stop, rfl⟩ := Reading.closed_eq_accepted.mp accepted
      obtain ⟨consumed, rfl, derives⟩ := content _ _ rfl
      exact ⟨⟨.opening, position⟩ :: (consumed ++ [⟨.closing, stop⟩]), by simp,
        .inl (.negatedGroup admitted derives)⟩

theorem Reads.spelled {task : Task} {depth : Nat} {lexemes : List Lexeme} {reading : Reading}
    (reads : Reads nesting task depth lexemes reading) :
    ∀ expr rest, reading = .accepted expr rest →
      task.Spelled nesting depth lexemes rest expr := by
  induction reads with
  | opened opens admitted reads content =>
      exact fun _ _ accepted => opens.spelled admitted reads content accepted
  | tooDeep => nofun
  | @begun tier _ _ _ _ _ _ goesOn _ _ begins ends =>
      intro expr rest accepted
      subst accepted
      cases tier with
      | sum =>
          cases goesOn
          obtain ⟨consumed, rfl, first⟩ := begins _ _ rfl
          obtain ⟨parts, rfl, derives, rfl⟩ := ends _ _ rfl
          exact ⟨consumed ++ parts.flatMap Part.spelling, by simp,
            .sum first (fun part member => Tier.links_sum (derives part member).1)
              fun part member => (derives part member).2⟩
      | product =>
          cases goesOn
          obtain ⟨consumed, rfl, first⟩ := begins _ _ rfl
          obtain ⟨parts, rfl, derives, rfl⟩ := ends _ _ rfl
          exact ⟨consumed ++ parts.flatMap Part.spelling, by simp,
            .product first (fun part member => Tier.links_product (derives part member).1)
              fun part member => (derives part member).2⟩
      | power =>
          cases goesOn
          obtain ⟨consumed, rfl, base⟩ := begins _ _ rfl
          rcases ends _ _ rfl with ⟨rfl, rfl⟩ |
            ⟨position, exponent, expr, rfl, admitted, power, rfl⟩
          · refine ⟨consumed, rfl, ?_⟩
            rcases base with primary | ⟨power, _⟩
            · exact .base primary
            · exact power
          · -- The second alternative is a minus sign before a logarithm; the power in
            -- its argument has taken every `^` already.
            rcases base with primary | ⟨_, ended⟩
            · exact ⟨consumed ++ ⟨.operator .pow, position⟩ :: exponent, by simp,
                .power admitted primary power⟩
            · exact absurd (ended _ _ _ rfl) (by decide)
      | logarithm | primary => cases goesOn
  | unbegun => nofun
  | @linked tier _ _ _ operator position operand _ _ _ links _ _ reads ends =>
      intro expr rest accepted
      subst accepted
      obtain ⟨parts, rfl, derives, rfl⟩ := ends _ _ rfl
      obtain ⟨consumed, rfl, first⟩ := (reads _ _ rfl).operands links
      refine ⟨⟨operator, position, consumed, operand⟩ :: parts, by simp [Part.spelling], ?_,
        by simp [Part.link]⟩
      intro part member
      rcases List.mem_cons.mp member with rfl | later
      · exact ⟨links, first⟩
      · exact derives part later
  | unlinked => nofun
  | chained ended =>
      intro expr rest accepted
      cases accepted
      exact ⟨[], rfl, nofun, by simp⟩
  | unraised ended =>
      intro expr rest accepted
      cases accepted
      exact .inl ⟨rfl, rfl⟩
  | plain plain _ power =>
      intro expr rest accepted
      subst accepted
      obtain ⟨consumed, rfl, derives⟩ := power _ _ rfl
      exact ⟨consumed, rfl, .plain derives⟩
  | number simple =>
      intro expr rest accepted
      cases accepted
      rcases simple with rfl | rfl
      · exact ⟨[_], rfl, .inl .number⟩
      · intro outside minus same admitted
        subst same
        exact ⟨[_], rfl, .inl (.negatedNumber admitted)⟩
  | missing => nofun
  | refused => nofun

theorem Derives.head_ne_log {tier : Tier} {depth : Nat} {consumed : List Lexeme} {expr : Expr}
    (derives : Derives nesting tier depth consumed expr) (tight : tier = .primary ∨ tier = .power) :
    ∃ lexeme more, consumed = lexeme :: more ∧ lexeme.token ≠ .log := by
  induction derives with
  | number | group | negatedNumber | negatedGroup | negatedLogarithm =>
      exact ⟨_, _, rfl, nofun⟩
  | base _ primary => exact primary (.inl rfl)
  | power _ _ _ raised _ =>
      obtain ⟨lexeme, more, rfl, unlike⟩ := raised (.inl rfl)
      exact ⟨lexeme, _, rfl, unlike⟩
  | logarithm | plain | product | sum => rcases tight with same | same <;> cases same

theorem Reads.links_of_parts {tier : Tier} {depth : Nat} {first : Expr} {rest : List Lexeme}
    (parts : List Part) (found : List (Link Expr))
    (links : ∀ part ∈ parts, tier.links part.operator = true)
    (operands : ∀ part ∈ parts, ∀ rest, tier.operands.EndsBefore rest →
      Reads nesting (.expression tier.operands) depth (part.lexemes ++ rest)
        (.accepted part.expr rest))
    (ended : tier.operands.EndsBefore rest)
    (unlinked : ∀ operator position more, rest = ⟨.operator operator, position⟩ :: more →
      tier.links operator = false) :
    tier.operands.EndsBefore (parts.flatMap Part.spelling ++ rest) ∧
      Reads nesting (.links tier first found) depth (parts.flatMap Part.spelling ++ rest)
        (.accepted (first.chained (found.reverse ++ parts.map Part.link)) rest) := by
  induction parts generalizing found with
  | nil =>
      refine ⟨ended, ?_⟩
      simpa using Reads.chained unlinked
  | cons part parts ih =>
      obtain ⟨before, reads⟩ := ih (part.link :: found)
        (fun other member => links other (List.mem_cons_of_mem _ member))
        (fun other member => operands other (List.mem_cons_of_mem _ member))
      constructor
      · intro operator position more same
        cases same
        exact Tier.extends?_operands (links part List.mem_cons_self)
      · have operand := operands part List.mem_cons_self _ before
        simpa [Part.spelling] using
          (Reads.linked (links part List.mem_cons_self) operand reads : Reads nesting _ _
            (⟨.operator part.operator, part.position⟩ :: (part.lexemes ++ _)) _)

theorem Reads.chain_of_parts {tier : Tier} {depth : Nat} {lexemes : List Lexeme} {first : Expr}
    {parts : List Part} (chains : tier = .sum ∨ tier = .product)
    (links : ∀ part ∈ parts, tier.links part.operator = true)
    (begins : ∀ rest, tier.operands.EndsBefore rest →
      Reads nesting (.expression tier.operands) depth (lexemes ++ rest) (.accepted first rest))
    (operands : ∀ part ∈ parts, ∀ rest, tier.operands.EndsBefore rest →
      Reads nesting (.expression tier.operands) depth (part.lexemes ++ rest)
        (.accepted part.expr rest)) :
    ∀ rest, tier.EndsBefore rest →
      Reads nesting (.expression tier) depth (lexemes ++ parts.flatMap Part.spelling ++ rest)
        (.accepted (first.chained (parts.map Part.link)) rest) := by
  intro rest ended
  obtain ⟨ended, unlinked⟩ := (Tier.endsBefore_chain chains).mp ended
  obtain ⟨before, reads⟩ := links_of_parts parts [] links operands ended unlinked
  rw [List.append_assoc]
  rcases chains with rfl | rfl
  · exact .begun rfl (begins _ before) reads
  · exact .begun rfl (begins _ before) reads

/-- What the grammar derives, a reader accepts, if nothing follows that carries
it on. -/
theorem Derives.reads {tier : Tier} {depth : Nat} {consumed : List Lexeme} {expr : Expr}
    (derives : Derives nesting tier depth consumed expr) :
    ∀ rest, tier.EndsBefore rest →
      Reads nesting (.expression tier) depth (consumed ++ rest) (.accepted expr rest) := by
  induction derives with
  | number => exact fun rest _ => .number (.inl rfl)
  | @group depth start stop lexemes expr admitted _ content =>
      intro rest _
      rw [List.cons_append, List.append_assoc]
      exact .opened .group admitted (content (⟨.closing, stop⟩ :: rest) nofun)
  | negatedNumber admitted =>
      exact fun rest _ => .opened .negation admitted (.number (.inr rfl))
  | @negatedGroup depth position start stop lexemes expr admitted _ content =>
      intro rest _
      rw [List.cons_append, List.cons_append, List.append_assoc]
      exact .opened .negation (nesting.admits_of_succ admitted)
        (.opened .negatedGroup admitted (content (⟨.closing, stop⟩ :: rest) nofun))
  | base _ primary =>
      intro rest ended
      exact .begun rfl (primary rest (Tier.endsBefore_primary rest)) (.unraised ended.unraised)
  | @power depth position left right base exponent admitted _ _ raised power =>
      intro rest ended
      rw [List.append_assoc]
      exact .begun rfl (raised _ (Tier.endsBefore_primary _))
        (.opened (.exponent base) admitted (power rest ended))
  | negatedLogarithm admitted _ argument =>
      intro rest ended
      exact .begun rfl (.opened .negation (nesting.admits_of_succ admitted)
        (.opened .negatedLogarithm admitted (argument rest ended))) (.unraised ended.unraised)
  | logarithm admitted _ argument =>
      exact fun rest ended => .opened .logarithm admitted (argument rest ended)
  | plain derives power =>
      intro rest ended
      refine .plain ?_ (power rest ended)
      obtain ⟨lexeme, more, rfl, unlike⟩ := derives.head_ne_log (.inr rfl)
      intro position others same
      cases same
      exact unlike rfl
  | product _ operators _ begins operands =>
      refine Reads.chain_of_parts (.inr rfl) (fun part member => ?_) begins operands
      rcases operators part member with same | same <;> rw [same] <;> rfl
  | sum _ operators _ begins operands =>
      refine Reads.chain_of_parts (.inl rfl) (fun part member => ?_) begins operands
      rcases operators part member with same | same <;> rw [same] <;> rfl

end Reckoner
