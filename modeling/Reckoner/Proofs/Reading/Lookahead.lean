import Reckoner.Proofs.Reading.Rules

namespace Reckoner

namespace Reading

def leaving (others : List Lexeme) : Reading → Reading
  | .accepted expr _ => .accepted expr others
  | .rejected error _ => .rejected error others

def TooDeep (reading : Reading) : Prop :=
  ∃ position rest, reading = .rejected (.nestingTooDeep position) rest

/-- The reading cannot tell `others` from what it leaves. -/
def Blind (others : List Lexeme) (reading : Reading) : Prop :=
  others.head? = reading.rest.head? ∨ reading.TooDeep

theorem Blind.accepted {expr : Expr} {rest others : List Lexeme}
    (blind : (Reading.accepted expr rest).Blind others) : others.head? = rest.head? := by
  rcases blind with same | ⟨_, _, ⟨⟩⟩
  exact same

theorem Blind.map {build : Expr → Expr} {others : List Lexeme} {reading : Reading}
    (blind : (reading.map build).Blind others) :
    reading.Blind others ∧
      (reading.leaving others).map build = (reading.map build).leaving others := by
  cases reading with
  | accepted expr rest => exact ⟨.inl blind.accepted, rfl⟩
  | rejected error rest => exact ⟨blind, rfl⟩

end Reading

/-- A construct takes what its content leaves as far as its closing parenthesis,
and looks no further. -/
theorem Construct.build_leaving (construct : Construct) (position : Nat) (reading : Reading) :
    ∃ passed, reading.rest = passed ++ (construct.build position reading).rest ∧
      ∀ others, (construct.build position reading).Blind others →
        reading.Blind (passed ++ others) ∧
          construct.build position (reading.leaving (passed ++ others)) =
            (construct.build position reading).leaving others := by
  cases construct with
  | negation | logarithm | exponent base =>
      refine ⟨[], ?_, fun others blind => blind.map⟩
      cases reading <;> rfl
  | group =>
      rcases reading with ⟨expr, _ | ⟨⟨token, place⟩, rest⟩⟩ | ⟨error, rest⟩
      · refine ⟨[], rfl, ?_⟩
        intro others blind
        rcases blind with empty | ⟨_, _, ⟨⟩⟩
        rw [List.head?_eq_none_iff.mp empty]
        exact ⟨.inl rfl, rfl⟩
      · refine ⟨[⟨token, place⟩], ?_, fun others _ => ⟨.inl rfl, ?_⟩⟩
        · cases token <;> rfl
        · cases token <;> rfl
      · exact ⟨[], rfl, fun others blind => ⟨blind, rfl⟩⟩

variable {nesting : Nesting}

theorem Reading.Blind.head?_append {consumed others : List Lexeme} {reading : Reading}
    (blind : reading.Blind others) (taken : reading.TooDeep → consumed ≠ []) :
    (consumed ++ others).head? = (consumed ++ reading.rest).head? := by
  rcases blind with same | tooDeep
  · simp only [List.head?_append, same]
  · obtain ⟨lexeme, more, rfl⟩ := List.exists_cons_of_ne_nil (taken tooDeep)
    rfl

theorem exists_cons_of_head?_eq {lexeme : Lexeme} {others lexemes rest : List Lexeme}
    (same : others.head? = lexemes.head?) (starts : others = lexeme :: rest) :
    ∃ more, lexemes = lexeme :: more := by
  subst starts
  exact List.head?_eq_some_iff.mp same.symm

/-- A reader that gets lexemes it cannot tell from those it left goes the same
way and leaves the new ones. -/
theorem Reads.exchange {task : Task} {depth : Nat} {lexemes : List Lexeme} {reading : Reading}
    (reads : Reads nesting task depth lexemes reading) :
    ∃ consumed, lexemes = consumed ++ reading.rest ∧ (reading.TooDeep → consumed ≠ []) ∧
      ∀ others, reading.Blind others →
        Reads nesting task depth (consumed ++ others) (reading.leaving others) := by
  induction reads with
  | @opened task token construct depth position rest reading opens admitted _ content =>
      obtain ⟨consumed, rfl, _, exchange⟩ := content
      obtain ⟨passed, left, build⟩ := construct.build_leaving position reading
      refine ⟨⟨token, position⟩ :: (consumed ++ passed), ?_, nofun, ?_⟩
      · rw [left]; simp
      · intro others blind
        obtain ⟨blind, same⟩ := build others blind
        rw [← same]
        simpa using Reads.opened opens admitted (exchange _ blind)
  | tooDeep opens full => exact ⟨[_], rfl, nofun, fun others _ => .tooDeep opens full⟩
  | begun goesOn _ _ begins ends =>
      obtain ⟨more, rfl, taken, ends⟩ := ends
      obtain ⟨consumed, rfl, _, begins⟩ := begins
      refine ⟨consumed ++ more, by simp [Reading.rest], ?_, fun others blind => ?_⟩
      · exact fun tooDeep => List.append_ne_nil_of_right_ne_nil _ (taken tooDeep)
      · rw [List.append_assoc]
        exact .begun goesOn (begins _ (.inl (blind.head?_append taken))) (ends others blind)
  | unbegun goesOn _ begins =>
      obtain ⟨consumed, rfl, taken, begins⟩ := begins
      exact ⟨consumed, rfl, taken, fun others blind => .unbegun goesOn (begins others blind)⟩
  | @linked _ _ _ _ operator position _ _ _ _ links _ _ reads ends =>
      obtain ⟨more, rfl, taken, ends⟩ := ends
      obtain ⟨consumed, rfl, _, reads⟩ := reads
      refine ⟨⟨.operator operator, position⟩ :: (consumed ++ more), by simp [Reading.rest], nofun,
        fun others blind => ?_⟩
      rw [List.cons_append, List.append_assoc]
      exact .linked links (reads _ (.inl (blind.head?_append taken))) (ends others blind)
  | unlinked links _ reads =>
      obtain ⟨consumed, rfl, _, reads⟩ := reads
      exact ⟨_ :: consumed, rfl, nofun, fun others blind => .unlinked links (reads others blind)⟩
  | chained ended =>
      refine ⟨[], rfl, nofun, fun others blind => .chained fun operator position rest starts => ?_⟩
      obtain ⟨more, rfl⟩ := exists_cons_of_head?_eq blind.accepted starts
      exact ended _ _ _ rfl
  | unraised ended =>
      refine ⟨[], rfl, nofun, fun others blind => .unraised fun position rest starts => ?_⟩
      obtain ⟨more, rfl⟩ := exists_cons_of_head?_eq blind.accepted starts
      exact ended _ _ rfl
  | plain plain _ power =>
      obtain ⟨consumed, rfl, taken, power⟩ := power
      refine ⟨consumed, rfl, taken, fun others blind => .plain ?_ (power others blind)⟩
      intro position rest starts
      obtain ⟨more, same⟩ := exists_cons_of_head?_eq (blind.head?_append taken) starts
      exact plain _ _ same
  | number simple => exact ⟨[_], rfl, nofun, fun others _ => .number simple⟩
  | missing simple =>
      refine ⟨[], rfl, nofun, ?_⟩
      intro others blind
      rcases blind with empty | ⟨_, _, ⟨⟩⟩
      rw [List.head?_eq_none_iff.mp empty]
      exact .missing simple
  | @refused task token _ position rest simple unfit uncounted =>
      rcases simple with rfl | rfl
      · exact ⟨[_], rfl, nofun, fun others _ => .refused (.inl rfl) unfit uncounted⟩
      · refine ⟨[], rfl, nofun, ?_⟩
        intro others blind
        rcases blind with same | ⟨_, _, ⟨⟩⟩
        cases others with
        | nil => cases same
        | cons lexeme others =>
            cases same
            exact .refused (.inr rfl) unfit uncounted

namespace Reading

theorem outcome_leaving (reading : Reading) (others : List Lexeme) :
    (reading.leaving others).outcome = reading.outcome := by
  cases reading <;> rfl

theorem rest_leaving (reading : Reading) (others : List Lexeme) :
    (reading.leaving others).rest = others := by
  cases reading <;> rfl

end Reading

/-- What a reader leaves is the end of what it was given, whether it accepts or
rejects.  If all of that but its first lexeme is replaced, the outcome is the
same, and the replacement is left. -/
theorem Tier.read_committed (nesting : Nesting) (tier : Tier) (depth : Nat)
    (lexemes : List Lexeme) :
    ∃ consumed, lexemes = consumed ++ (tier.read nesting depth lexemes).rest ∧
      ∀ others : List Lexeme, others.head? = (tier.read nesting depth lexemes).rest.head? →
        (tier.read nesting depth (consumed ++ others)).outcome =
            (tier.read nesting depth lexemes).outcome ∧
          (tier.read nesting depth (consumed ++ others)).rest = others := by
  have reads : Reads nesting (.expression tier) depth lexemes (tier.read nesting depth lexemes) :=
    reads_iff.mpr rfl
  obtain ⟨consumed, split, _, exchange⟩ := reads.exchange
  refine ⟨consumed, split, fun others same => ?_⟩
  have again : tier.read nesting depth (consumed ++ others) =
      (tier.read nesting depth lexemes).leaving others := (exchange others (.inl same)).read_eq
  rw [again]
  exact ⟨Reading.outcome_leaving _ _, Reading.rest_leaving _ _⟩

end Reckoner
