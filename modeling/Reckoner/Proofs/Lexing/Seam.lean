import Reckoner.Lexeme

namespace Reckoner.Lexeme

/-- No lexeme reaches into the text from before it. -/
def Detached (text : List Char) : Prop :=
  ∀ first rest, text = first :: rest → isNumeral first = false ∧ first ≠ 'o' ∧ first ≠ 'g'

variable {right : List Char}

theorem Detached.takeWhile_append (detached : Detached right) (left : List Char) :
    (left ++ right).takeWhile isNumeral = left.takeWhile isNumeral := by
  induction left with
  | nil =>
      cases right with
      | nil => rfl
      | cons first rest => exact List.takeWhile_cons_of_neg (by simp [(detached _ _ rfl).1])
  | cons first rest ih =>
      simp only [List.cons_append, List.takeWhile_cons, ih]

theorem Detached.isPrefixOf_append (detached : Detached right) (first : Char) (rest : List Char) :
    ['l', 'o', 'g'].isPrefixOf (first :: (rest ++ right)) =
      ['l', 'o', 'g'].isPrefixOf (first :: rest) := by
  cases right with
  | nil => rw [List.append_nil]
  | cons next others =>
      obtain ⟨_, unlikeO, unlikeG⟩ := detached _ _ rfl
      rcases rest with _ | ⟨second, _ | ⟨third, rest⟩⟩
      · simp [List.isPrefixOf, unlikeO.symm]
      · simp [List.isPrefixOf, unlikeG.symm]
      · rfl

theorem Detached.lead_append (detached : Detached right) (separator : Separator) (position : Nat)
    (first : Char) (rest : List Char) :
    lead separator position first (rest ++ right) = lead separator position first rest := by
  unfold lead
  rw [detached.takeWhile_append, detached.isPrefixOf_append]

theorem lead_length_le {separator : Separator} {position : Nat} {first : Char} {rest : List Char}
    {token : Token} {further : Nat}
    (led : lead separator position first rest = .ok (token, further)) : further ≤ rest.length := by
  unfold lead at led
  split at led
  · cases value : separator.number position (first :: rest.takeWhile isNumeral) with
    | error error => simp [value, Except.map] at led
    | ok value' =>
        simp only [value, Except.map, Except.ok.injEq, Prod.mk.injEq] at led
        rw [← led.2]
        exact (List.takeWhile_sublist _).length_le
  · split at led
    · cases led
      exact Nat.zero_le _
    · split at led
      next log =>
        cases led
        obtain ⟨more, starts⟩ := List.isPrefixOf_iff_prefix.mp log
        have length := congrArg List.length starts
        simp only [List.length_append, List.length_cons, List.length_nil] at length
        omega
      · cases led

theorem scan_append (detached : Detached right) (separator : Separator) (position : Nat)
    (found : List Lexeme) (left : List Char) :
    scan separator position found (left ++ right) =
      (scan separator position found left).bind fun lexemes =>
        scan separator (position + left.length) lexemes.reverse right := by
  induction size : left.length using Nat.strongRecOn generalizing position found left with
  | ind size shorter =>
      subst size
      cases left with
      | nil =>
          rw [scan_nil, List.nil_append]
          simp only [Except.bind, List.reverse_reverse, List.length_nil, Nat.add_zero]
      | cons first rest =>
          rw [List.cons_append]
          cases blank : isBlank first with
          | true =>
              rw [scan_blank _ _ _ _ blank, scan_blank _ _ _ _ blank,
                shorter _ (Nat.lt_succ_self _) _ _ _ rfl, List.length_cons, Nat.add_right_comm,
                Nat.add_assoc]
          | false =>
              have together := detached.lead_append separator position first rest
              cases led : lead separator position first rest with
              | error error =>
                  rw [scan_refused _ _ _ _ blank led,
                    scan_refused _ _ _ _ blank (together.trans led)]
                  rfl
              | ok pair =>
                  obtain ⟨token, further⟩ := pair
                  have within := lead_length_le led
                  have fewer : (rest.drop further).length < (first :: rest).length := by
                    simp only [List.length_drop, List.length_cons]
                    omega
                  have places : position + 1 + further + (rest.drop further).length =
                      position + (first :: rest).length := by
                    simp only [List.length_drop, List.length_cons]
                    omega
                  rw [scan_lead _ _ _ _ blank led, scan_lead _ _ _ _ blank (together.trans led),
                    List.drop_append_of_le_length within, shorter _ fewer _ _ _ rfl, places]

/-- A text that scans stands for its lexemes wherever it is detached from what
follows. -/
theorem scan_of_scan {separator : Separator} {position : Nat} {left : List Char}
    {lexemes : List Lexeme} (scanned : scan separator position [] left = .ok lexemes)
    (detached : Detached right) (found : List Lexeme) :
    scan separator position found (left ++ right) =
      scan separator (position + left.length) (lexemes.reverse ++ found) right := by
  rw [scan_append detached, scan_found, scanned]
  simp only [Except.map, Except.bind, List.reverse_append, List.reverse_reverse]

theorem eq_sign {sign : Char} {token : Token} (signs : Token.ofChar? sign = some token) :
    sign = '(' ∨ sign = ')' ∨ ∃ operator : BinaryOp, sign = operator.symbol := by
  unfold Token.ofChar? at signs
  split at signs
  · exact .inl rfl
  · exact .inr (.inl rfl)
  · obtain ⟨operator, found, _⟩ := Option.map_eq_some_iff.mp signs
    unfold BinaryOp.ofChar? at found
    have same := List.find?_some found
    exact .inr (.inr ⟨operator, (eq_of_beq same).symm⟩)

theorem detached_sign {sign : Char} {token : Token} (signs : Token.ofChar? sign = some token)
    (rest : List Char) : Detached (sign :: rest) := by
  intro first others same
  cases same
  rcases eq_sign signs with rfl | rfl | ⟨operator, rfl⟩
  · decide
  · decide
  · cases operator <;> decide

theorem lead_sign (separator : Separator) (position : Nat) {sign : Char} {token : Token}
    (signs : Token.ofChar? sign = some token) (rest : List Char) :
    lead separator position sign rest = .ok (token, 0) := by
  unfold lead
  simp only [(detached_sign signs rest _ _ rfl).1, signs, Bool.false_eq_true, if_false]

theorem scan_sign (separator : Separator) (position : Nat) (found : List Lexeme)
    {sign : Char} {token : Token} (signs : Token.ofChar? sign = some token) (rest : List Char) :
    scan separator position found (sign :: rest) =
      scan separator (position + 1) (⟨token, position⟩ :: found) rest := by
  have solid : isBlank sign = false := by
    rcases eq_sign signs with rfl | rfl | ⟨operator, rfl⟩
    · decide
    · decide
    · cases operator <;> decide
  exact scan_lead separator position found rest solid (lead_sign separator position signs rest)

theorem scan_log (separator : Separator) (position : Nat) (found : List Lexeme)
    (rest : List Char) :
    scan separator position found ('l' :: 'o' :: 'g' :: rest) =
      scan separator (position + 3) (⟨.log, position⟩ :: found) rest := by
  have led : lead separator position 'l' ('o' :: 'g' :: rest) = .ok (.log, 2) := rfl
  exact scan_lead separator position found _ rfl led

end Reckoner.Lexeme
