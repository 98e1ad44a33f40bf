import Reckoner.Proofs.Reading.Lookahead
import Reckoner.Proofs.Reading.Place

namespace Reckoner

namespace Place

variable {nesting : Nesting} {base bound : Nat} {place final : Place}

theorem next_unbounded {lexeme : Lexeme} {after : Place}
    (step : place.next nesting base lexeme = .ok after) :
    place.next none base lexeme = .ok after := by
  rcases next_eq_ok.mp step with ⟨opened, _⟩ | passed
  · exact next_eq_ok.mpr (.inl ⟨opened, rfl⟩)
  · exact next_eq_ok.mpr (.inr passed)

theorem walk_unbounded {lexemes : List Lexeme}
    (walked : place.walk nesting base lexemes = .ok final) :
    place.walk none base lexemes = .ok final := by
  induction lexemes generalizing place with
  | nil => exact walked
  | cons lexeme rest ih =>
      obtain ⟨after, step, onward⟩ := next_of_walk walked
      exact (walk_cons rest (next_unbounded step)).trans (ih onward)

theorem admits_of_next {lexeme : Lexeme} {after : Place} (opens : place.opened? lexeme ≠ none)
    (step : place.next nesting base lexeme = .ok after) :
    nesting.admits (base + place.around.length) = true := by
  rcases next_eq_ok.mp step with ⟨_, admitted⟩ | ⟨shut, _⟩
  · exact admitted
  · exact absurd shut opens

theorem passed_ne_tooDeep (place : Place) (lexeme : Lexeme) (position : Nat) :
    place.passed lexeme ≠ .error (.nestingTooDeep position) := by
  unfold passed
  split
  · nofun
  · split <;> nofun
  · split <;> nofun
  · nofun
  · nofun

theorem finish_ne_tooDeep (place : Place) (position : Nat) :
    place.finish ≠ .error (.nestingTooDeep position) := by
  unfold finish
  split
  · split <;> nofun
  · nofun

theorem Refuses.tooDeep {lexemes : List Lexeme} {position : Nat}
    (refuses : place.Refuses nesting base (.nestingTooDeep position) lexemes) :
    ∃ lexeme rest, lexemes = lexeme :: rest ∧ position = lexeme.position ∧
      place.opened? lexeme ≠ none ∧ nesting.admits (base + place.around.length) = false := by
  cases lexemes with
  | nil => exact absurd refuses (finish_ne_tooDeep place position)
  | cons lexeme rest =>
      rcases next_eq_error.mp refuses with ⟨opens, full, ⟨⟩⟩ | ⟨_, passed⟩
      · exact ⟨lexeme, rest, rfl, rfl, opens, full⟩
      · exact absurd passed (passed_ne_tooDeep place lexeme position)

end Place

namespace Reads

variable {task : Task} {depth : Nat} {lexemes : List Lexeme} {reading : Reading}

theorem rest_suffix {nesting : Nesting} (reads : Reads nesting task depth lexemes reading) :
    reading.rest <:+ lexemes := by
  obtain ⟨consumed, same, _⟩ := reads.exchange
  exact ⟨consumed, same.symm⟩

theorem bounded (reads : Reads none task depth lexemes reading) (bound : Nat) :
    Reads (some bound) task depth lexemes reading ∨ ∃ position rest,
      Reads (some bound) task depth lexemes (.rejected (.nestingTooDeep position) rest) ∧
        reading.rest <:+ rest := by
  induction reads with
  | @opened task token construct depth position rest reading opens _ reads content =>
      obtain ⟨passed, left, _⟩ := construct.build_leaving position reading
      have suffix : (construct.build position reading).rest <:+ reading.rest :=
        ⟨passed, left.symm⟩
      cases admitted : Nesting.admits (some bound) depth with
      | false =>
          exact .inr ⟨position, rest, .tooDeep opens admitted, suffix.trans reads.rest_suffix⟩
      | true =>
          rcases content with content | ⟨place, others, content, within⟩
          · exact .inl (.opened opens admitted content)
          · have stopped : Reads (some bound) task depth (⟨token, position⟩ :: rest)
                (construct.build position (.rejected (.nestingTooDeep place) others)) :=
              .opened opens admitted content
            refine .inr ⟨place, others, ?_, suffix.trans within⟩
            cases construct <;> exact stopped
  | tooDeep _ full => cases full
  | begun goesOn _ ends' begins ends =>
      rcases begins with begins | ⟨position, others, begins, within⟩
      · rcases ends with ends | ⟨position, others, ends, within⟩
        · exact .inl (.begun goesOn begins ends)
        · exact .inr ⟨position, others, .begun goesOn begins ends, within⟩
      · exact .inr ⟨position, others, .unbegun goesOn begins, ends'.rest_suffix.trans within⟩
  | unbegun goesOn _ begins =>
      rcases begins with begins | ⟨position, others, begins, within⟩
      · exact .inl (.unbegun goesOn begins)
      · exact .inr ⟨position, others, .unbegun goesOn begins, within⟩
  | linked links _ ends' operand ends =>
      rcases operand with operand | ⟨position, others, operand, within⟩
      · rcases ends with ends | ⟨position, others, ends, within⟩
        · exact .inl (.linked links operand ends)
        · exact .inr ⟨position, others, .linked links operand ends, within⟩
      · exact .inr ⟨position, others, .unlinked links operand, ends'.rest_suffix.trans within⟩
  | unlinked links _ operand =>
      rcases operand with operand | ⟨position, others, operand, within⟩
      · exact .inl (.unlinked links operand)
      · exact .inr ⟨position, others, .unlinked links operand, within⟩
  | chained ended => exact .inl (.chained ended)
  | unraised ended => exact .inl (.unraised ended)
  | plain plain _ power =>
      rcases power with power | ⟨position, others, power, within⟩
      · exact .inl (.plain plain power)
      · exact .inr ⟨position, others, .plain plain power, within⟩
  | number simple => exact .inl (.number simple)
  | missing simple => exact .inl (.missing simple)
  | refused simple unfit uncounted => exact .inl (.refused simple unfit uncounted)

theorem not_tooDeep (reads : Reads none task depth lexemes reading) {base : Nat}
    {outer : List Frame} {place : Place} (starts : task.StartsAt base depth outer lexemes place) :
    ¬ reading.TooDeep := by
  intro tooDeep
  obtain ⟨position, rest, rfl⟩ := tooDeep
  obtain ⟨_, stop, _, _, _, refuses, _⟩ := reads.follows outer place starts
  obtain ⟨_, _, _, _, _, full⟩ := refuses.tooDeep
  cases full

end Reads

namespace Tier

/-- No lexeme of `taken` opens a level above the bound. -/
def Within (bound : Nat) (tier : Tier) (depth : Nat) (taken : List Lexeme) : Prop :=
  ∀ before lexeme level, before ++ [lexeme] <+: taken →
    tier.start.OpensAt depth before lexeme level → level ≤ bound

/-- After `before`, the lexeme is the first that opens a level above the bound. -/
def FirstAbove (bound : Nat) (tier : Tier) (depth : Nat) (before : List Lexeme)
    (lexeme : Lexeme) : Prop :=
  (∃ level, tier.start.OpensAt depth before lexeme level ∧ bound < level) ∧
    tier.Within bound depth before

variable {tier : Tier} {depth bound : Nat}

theorem Within.of_walk {taken : List Lexeme} {final : Place}
    (walked : tier.start.walk (some bound) depth taken = .ok final) :
    tier.Within bound depth taken := by
  intro before lexeme level within opensAt
  obtain ⟨after, rfl⟩ := within
  obtain ⟨place, reached, opens, rfl⟩ := opensAt
  rw [List.append_assoc] at walked
  obtain ⟨stop, walked, onward⟩ := Place.walk_prefix walked
  cases (Place.walk_unbounded walked).symm.trans reached
  obtain ⟨_, step, _⟩ := Place.next_of_walk onward
  exact of_decide_eq_true (Place.admits_of_next opens step)

theorem Within.of_reads {taken : List Lexeme} {reading : Reading}
    (free : Reads none (.expression tier) depth (taken ++ reading.rest) reading)
    (reads : Reads (some bound) (.expression tier) depth (taken ++ reading.rest) reading) :
    tier.Within bound depth taken := by
  have follows := reads.follows [] _ (tier.startsAt depth _)
  cases reading with
  | accepted expr rest =>
      obtain ⟨consumed, inner, same, _, _, walked⟩ := follows
      cases List.append_cancel_right same
      exact .of_walk walked
  | rejected error rest =>
      obtain ⟨consumed, stop, more, same, walked, refuses, left⟩ := follows
      have last : taken = consumed ∨ ∃ last, taken = consumed ++ [last] ∧ more = last :: rest := by
        rcases left with rfl | ⟨rfl, _⟩
        · cases more with
          | nil => exact .inl (List.append_cancel_right same)
          | cons last rest =>
              rw [List.append_cons] at same
              exact .inr ⟨last, List.append_cancel_right same, rfl⟩
        · exact .inl (List.append_cancel_right same)
      rcases last with rfl | ⟨last, rfl, rfl⟩
      · exact .of_walk walked
      · intro before lexeme level within opensAt
        rcases List.prefix_concat_iff.mp within with refused | earlier
        · -- The refused lexeme opens nothing, or it would be blamed for its level.
          obtain ⟨rfl, ⟨⟩⟩ := List.append_inj' refused rfl
          obtain ⟨place, reached, opens, _⟩ := opensAt
          cases (Place.walk_unbounded walked).symm.trans reached
          rcases Place.next_eq_error.mp refuses with ⟨_, _, rfl⟩ | ⟨shut, _⟩
          · exact absurd ⟨_, rest, rfl⟩ (free.not_tooDeep (tier.startsAt depth _))
          · exact absurd shut opens
        · exact Within.of_walk walked before lexeme level earlier opensAt

/-- With a bound, a reader goes the way of one without unless some lexeme opens
a level above the bound; it is rejected at the first. -/
theorem bounded {taken : List Lexeme} {free : Reading} (bound : Nat)
    (reads : Reads none (.expression tier) depth (taken ++ free.rest) free) :
    (tier.Within bound depth taken ∧
        Reads (some bound) (.expression tier) depth (taken ++ free.rest) free) ∨
      ∃ before lexeme, before ++ [lexeme] <+: taken ∧ tier.FirstAbove bound depth before lexeme ∧
        ∀ others, Reads (some bound) (.expression tier) depth (before ++ lexeme :: others)
          (.rejected (.nestingTooDeep lexeme.position) others) := by
  rcases reads.bounded bound with same | ⟨position, rest, stopped, left⟩
  · exact .inl ⟨.of_reads reads same, same⟩
  · obtain ⟨before, stop, more, split, walked, refuses, passed⟩ :=
      stopped.follows [] _ (tier.startsAt depth _)
    obtain ⟨lexeme, after, rfl, rfl, opens, full⟩ := refuses.tooDeep
    obtain rfl : rest = after := by
      rcases passed with tail | ⟨_, _, ⟨⟩⟩
      exact tail
    refine .inr ⟨before, lexeme, ?_, ⟨⟨_, ⟨stop, Place.walk_unbounded walked, opens, rfl⟩, ?_⟩,
      .of_walk walked⟩, fun others => ?_⟩
    · obtain ⟨more, rfl⟩ := left
      rw [List.append_cons, ← List.append_assoc] at split
      exact ⟨more, (List.append_cancel_right split).symm⟩
    · have above : ¬ depth + stop.around.length < bound := of_decide_eq_false full
      exact Nat.lt_succ_of_le (Nat.le_of_not_lt above)
    · obtain ⟨consumed, same, _, exchange⟩ := stopped.exchange
      rw [split, List.append_cons] at same
      rw [List.append_cons, List.append_cancel_right same]
      exact exchange others (.inr ⟨_, _, rfl⟩)

/-- The nesting that expressions are held to cuts a reading short and changes
nothing else: `taken` is what a reader without a bound takes.  Counting one
construct more never wraps around. -/
theorem read_standard (tier : Tier) (depth : Nat) (lexemes : List Lexeme) :
    ∃ taken, lexemes = taken ++ (tier.read none depth lexemes).rest ∧
      (tier.Within 128 depth taken →
        tier.read .standard depth lexemes = tier.read none depth lexemes) ∧
      (¬ tier.Within 128 depth taken →
        ∃ before lexeme, before ++ [lexeme] <+: taken ∧ tier.FirstAbove 128 depth before lexeme ∧
          ∀ others, tier.read .standard depth (before ++ lexeme :: others) =
            .rejected (.nestingTooDeep lexeme.position) others) ∧
      ∀ word : USize, Nesting.standard.admits word.toNat = true →
        (word + 1).toNat = word.toNat + 1 := by
  have reads : Reads none (.expression tier) depth lexemes (tier.read none depth lexemes) :=
    reads_iff.mpr rfl
  generalize tier.read none depth lexemes = free at reads ⊢
  obtain ⟨taken, rfl⟩ := reads.rest_suffix
  refine ⟨taken, rfl, ?_, ?_, fun word admitted => ?_⟩
  · intro within
    rcases bounded 128 reads with ⟨_, bounded⟩ | ⟨before, lexeme, taken, above, _⟩
    · exact bounded.read_eq
    · obtain ⟨⟨level, opensAt, above⟩, _⟩ := above
      exact absurd (within before lexeme level taken opensAt) (Nat.not_le_of_lt above)
  · intro beyond
    rcases bounded 128 reads with ⟨within, _⟩ | ⟨before, lexeme, taken, above, stops⟩
    · exact absurd within beyond
    · exact ⟨before, lexeme, taken, above, fun others => (stops others).read_eq⟩
  · have below : word.toNat < 128 := of_decide_eq_true admitted
    have size := USize.le_size
    have one : (1 : USize).toNat = 1 := by simp
    rw [USize.toNat_add, one]
    exact Nat.mod_eq_of_lt (show word.toNat + 1 < USize.size by omega)

end Tier

end Reckoner
