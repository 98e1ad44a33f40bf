import Reckoner.Evaluation
import Reckoner.Proofs.Reading.Chains
import Reckoner.Proofs.Reading.Relocation

namespace Reckoner

/-! What operators do to the values of whole sources.  Where two sources are put
together with an operator between them, and each is an expression of a tier that
the operator takes on its side, the value is the operator applied to the values.
-/

/-- The reader of the tier takes the whole source, inside `depth` constructs,
and what it reads comes to `value`. -/
def Tier.Takes (separator : Separator) (tier : Tier) (depth : Nat) (source : String)
    (value : Float) : Prop :=
  ∃ lexemes expr, tokenize separator source = .ok lexemes ∧
    tier.read .standard depth lexemes = .accepted expr [] ∧ expr.eval = value

/-- The lexemes are a number or a group, or the negation of one, with its value:
what can be raised to a power. -/
inductive Raisable : List Lexeme → Float → Prop where
  | number {value position} : Raisable [⟨.number value, position⟩] value
  | negatedNumber {value position place} :
      Raisable [⟨.operator .sub, position⟩, ⟨.number value, place⟩] (-value)
  | group {start stop content expr}
      (reads : Tier.read .standard .sum 1 content = .accepted expr []) :
      Raisable (⟨.opening, start⟩ :: (content ++ [⟨.closing, stop⟩])) expr.eval
  | negatedGroup {position start stop content expr}
      (reads : Tier.read .standard .sum 2 content = .accepted expr []) :
      Raisable (⟨.operator .sub, position⟩ :: ⟨.opening, start⟩ :: (content ++ [⟨.closing, stop⟩]))
        (-expr.eval)

namespace Expr

theorem eval_chained (first : Expr) (links : List (Link Expr)) :
    (first.chained links).eval = evalLinks first.eval links := by
  cases links <;> rfl

theorem evalLinks_append (value : Float) (links more : List (Link Expr)) :
    evalLinks value (links ++ more) = evalLinks (evalLinks value links) more := by
  induction links generalizing value with
  | nil => rfl
  | cons link links ih => exact ih _

/-- One more operand is taken by the operator after all that is before it. -/
theorem eval_chained_concat (first : Expr) (links : List (Link Expr)) (link : Link Expr) :
    (first.chained (links ++ [link])).eval =
      link.operator.apply (first.chained links).eval link.operand.eval := by
  rw [eval_chained, eval_chained, evalLinks_append]
  rfl

end Expr

namespace Derives

variable {nesting : Nesting} {depth : Nat} {lexemes more : List Lexeme} {expr operand : Expr}

/-- One more operand makes a chain longer, and nothing in it changes. -/
theorem concat {tier : Tier} {operator : BinaryOp} (links : tier.links operator = true)
    (position : Nat) (left : Derives nesting tier depth lexemes expr)
    (right : Derives nesting tier.operands depth more operand) :
    ∃ whole, Derives nesting tier depth (lexemes ++ ⟨.operator operator, position⟩ :: more) whole ∧
      whole.eval = operator.apply expr.eval operand.eval := by
  have chains := chains_of_links links
  obtain ⟨begun, first, parts, rfl, rfl, begins, linked⟩ := (chain_iff chains).mp left
  refine ⟨first.chained (parts.map Part.link ++ [⟨operator, position, operand⟩]), ?_,
    Expr.eval_chained_concat _ _ _⟩
  refine (chain_iff chains).mpr
    ⟨begun, first, parts ++ [⟨operator, position, more, operand⟩], ?_, ?_, begins, ?_⟩
  · simp [Part.spelling]
  · simp [Part.link]
  · exact List.forall_mem_append.mpr ⟨linked, List.forall_mem_singleton.mpr ⟨links, right⟩⟩

/-- Wherever an expression of any tier can stand on its own, it is one that
stands inside nothing. -/
theorem outermost {tier : Tier} (derives : Derives .standard tier depth lexemes expr) :
    Derives .standard .sum 0 lexemes expr := by
  have shallow : Derives .standard tier 0 lexemes expr := by
    refine derives.relaxed fun inside admitted => ?_
    have bound : depth + inside < 128 := of_decide_eq_true admitted
    exact decide_eq_true (show 0 + inside < 128 by omega)
  cases tier with
  | sum => exact shallow
  | product => exact shallow.sum_of_product
  | logarithm => exact shallow.sum_of_logarithm
  | power => exact shallow.product_of_power.sum_of_product
  | primary => exact shallow.sum_of_primary

end Derives

theorem evaluate_of_derives {separator : Separator} {source : String} {lexemes : List Lexeme}
    {expr : Expr} (scanned : tokenize separator source = .ok lexemes)
    (derives : Derives .standard .sum 0 lexemes expr) :
    evaluate separator source = .ok expr.eval := by
  simp only [evaluate_def, scanned, Expr.ofLexemes_of_accepted derives.reads_all]

/-- A reader that takes all lexemes takes an expression that can stand on its
own. -/
theorem Derives.outermost_of_read {tier : Tier} {depth : Nat} {lexemes : List Lexeme} {expr : Expr}
    (read : tier.read .standard depth lexemes = .accepted expr []) :
    Derives .standard .sum 0 lexemes expr := by
  cases tier with
  | sum | product | logarithm | power => exact (Derives.of_read_all (by decide) read).outermost
  | primary =>
      have reads : Reads .standard (.expression .primary) depth lexemes (.accepted expr []) :=
        reads_iff.mpr read
      obtain ⟨consumed, rfl, derives⟩ := reads.spelled _ _ rfl
      rw [List.append_nil]
      rcases derives with derives | ⟨derives, _⟩
      · exact derives.outermost
      · exact derives.outermost

theorem Raisable.derives {lexemes : List Lexeme} {value : Float}
    (raisable : Raisable lexemes value) :
    ∃ expr, Derives .standard .primary 0 lexemes expr ∧ expr.eval = value := by
  cases raisable with
  | number => exact ⟨_, .number, rfl⟩
  | negatedNumber => exact ⟨_, .negatedNumber rfl, rfl⟩
  | group reads => exact ⟨_, .group rfl (.of_read_all (by decide) reads), rfl⟩
  | negatedGroup reads => exact ⟨_, .negatedGroup rfl (.of_read_all (by decide) reads), rfl⟩

/-- What can be negated is negated as a whole, at whatever positions. -/
theorem Derives.negation {tier : Tier} {first : Lexeme} {rest : List Lexeme} {expr : Expr}
    (negatable : Tier.negated? first.token = some tier)
    (read : tier.read .standard 1 (first :: rest) = .accepted expr [])
    (position : Nat) (move : Nat → Nat) :
    ∃ whole, Derives .standard .power 0
        (⟨.operator .sub, position⟩ :: (first :: rest).map (Lexeme.moved move)) whole ∧
      whole.eval = -expr.eval := by
  obtain ⟨token, place⟩ := first
  cases token with
  | number value =>
      cases negatable
      rw [Tier.read_primary_number] at read
      cases read
      exact ⟨_, .base (.negatedNumber rfl), rfl⟩
  | opening =>
      cases negatable
      have closed := (Tier.read_primary_opening _ _ _ _).symm.trans read
      obtain ⟨stop, content⟩ := Reading.closed_eq_accepted.mp closed
      obtain ⟨consumed, rfl, derives⟩ := Derives.of_read (by decide) content
      have moved := derives.moved move
      refine ⟨.unary .negate position (expr.moved move), ?_, ?_⟩
      · rw [List.map_cons, List.map_append]
        exact .base (.negatedGroup rfl moved)
      · rw [Expr.eval, Expr.eval_moved]
        rfl
  | log =>
      cases negatable
      have argument := (Tier.read_logarithm_log _ _ _ _).symm.trans read
      obtain ⟨inner, content, rfl⟩ := Reading.map_eq_accepted.mp argument
      have moved := (Derives.of_read_all (by decide) content).moved move
      refine ⟨_, .negatedLogarithm rfl moved, ?_⟩
      rw [Expr.eval, Expr.eval, Expr.eval_moved]
      rfl
  | operator sign => cases negatable
  | closing => cases negatable

namespace Tier.Takes

variable {separator : Separator} {tier : Tier} {depth : Nat} {source : String} {value : Float}

theorem evaluate_eq (takes : tier.Takes separator depth source value) :
    evaluate separator source = .ok value := by
  obtain ⟨lexemes, expr, scanned, read, rfl⟩ := takes
  exact evaluate_of_derives scanned (.outermost_of_read read)

theorem of_derives {layout : Layout} {expr : Expr} (valid : layout.Valid separator)
    (same : layout.text = source.toList)
    (derives : Derives .standard tier depth layout.lexemes expr) :
    tier.Takes separator depth source expr.eval :=
  ⟨_, _, Layout.tokenize_eq valid same, derives.reads_all.read_eq, rfl⟩

/-- A number is taken at every tier and every depth. -/
theorem of_numeral (written : List Char) (numeral : separator.Numeral written)
    (same : written = source.toList) (tier : Tier) (depth : Nat) :
    tier.Takes separator depth source
      (Double.toFloat (Double.ofDecimal (separator.decimal written))) := by
  have text : (Layout.numeral separator written).text = source.toList := by
    rw [← same]
    simp [Layout.numeral, Layout.text]
  exact of_derives (.numeral numeral) text (.numeral tier _ _)

theorem exists_layout (takes : tier.Takes separator depth source value)
    (compound : tier ≠ .primary) :
    ∃ layout : Layout, layout.Valid separator ∧ layout.text = source.toList ∧
      ∃ expr, Derives .standard tier depth layout.lexemes expr ∧ expr.eval = value := by
  obtain ⟨lexemes, expr, scanned, read, rfl⟩ := takes
  obtain ⟨layout, valid, same, rfl⟩ := Layout.exists_of_tokenize scanned
  exact ⟨layout, valid, same, expr, .of_read_all compound read, rfl⟩

end Tier.Takes

variable {separator : Separator}

/-- The value of a source that is put together from two around a token. -/
theorem evaluate_joined {left right : Layout} {written : List Char} {token : Token}
    (valid : left.Valid separator) (spells : Spells separator written token)
    (plain : token.isNumber = false) (valid' : right.Valid separator) {source : String}
    (same : source.toList = left.text ++ (written ++ right.text)) {value : Float}
    (derives : ∃ expr, Derives .standard .sum 0
        (left.lexemes ++ ⟨token, byteSize left.text⟩ ::
          right.lexemes.map (Lexeme.moved (byteSize (left.text ++ written) + ·))) expr ∧
      expr.eval = value) :
    evaluate separator source = .ok value := by
  obtain ⟨expr, derives, rfl⟩ := derives
  have scanned := Layout.tokenize_eq (valid.joined spells plain valid')
    ((Layout.text_joined left written token right).trans same.symm)
  rw [Layout.lexemes_joined] at scanned
  exact evaluate_of_derives scanned derives

/-- Operators that link operands to a chain take the chain before them. -/
theorem Tier.Takes.concat {tier : Tier} (operator : BinaryOp) (links : tier.links operator = true)
    {depth : Nat} {left right : String} {value other : Float}
    (takes : tier.Takes separator depth left value)
    (takes' : tier.operands.Takes separator depth right other) :
    tier.Takes separator depth (left ++ operator.symbol.toString ++ right)
      (operator.apply value other) := by
  have chains := Derives.chains_of_links links
  have compound : tier ≠ .primary ∧ tier.operands ≠ .primary := by
    rcases chains with rfl | rfl <;> decide
  obtain ⟨first, valid, same, expr, derives, rfl⟩ := takes.exists_layout compound.1
  obtain ⟨second, valid', same', operand, derives', rfl⟩ := takes'.exists_layout compound.2
  obtain ⟨whole, together, value⟩ :=
    derives.concat links (byteSize first.text) (derives'.moved _)
  rw [Expr.eval_moved] at value
  rw [← value]
  refine .of_derives (valid.joined (.operator operator) rfl valid') ?_ ?_
  · rw [Layout.text_joined]
    simp [same, same']
  · rwa [Layout.lexemes_joined]

/-- What can be raised to a power is raised to the whole power after it. -/
theorem evaluate_raised {lexemes : List Lexeme} {left right : String} {value other : Float}
    (scanned : tokenize separator left = .ok lexemes) (raisable : Raisable lexemes value)
    (takes : Tier.power.Takes separator 1 right other) :
    evaluate separator (left ++ "^" ++ right) = .ok (Float.pow value other) := by
  obtain ⟨first, valid, same, rfl⟩ := Layout.exists_of_tokenize scanned
  obtain ⟨base, derives, rfl⟩ := raisable.derives
  obtain ⟨second, valid', same', exponent, derives', rfl⟩ := takes.exists_layout (by decide)
  refine evaluate_joined valid (.operator .pow) rfl valid' ?_ ?_
  · simp [same, same', BinaryOp.symbol]
  · refine ⟨_, Derives.sum_of_logarithm (.plain (.power rfl derives (derives'.moved _))), ?_⟩
    rw [Expr.eval, Expr.eval_moved]
    rfl

theorem evaluate_logarithm {right : String} {other : Float}
    (takes : Tier.power.Takes separator 1 right other) :
    evaluate separator ("log" ++ right) = .ok (Float.log other) := by
  obtain ⟨layout, valid, same, argument, derives, rfl⟩ := takes.exists_layout (by decide)
  refine evaluate_joined Layout.valid_nil .log rfl valid ?_ ?_
  · rw [same, String.toList_append]
    rfl
  · refine ⟨_, Derives.sum_of_logarithm (.logarithm rfl (derives.moved _)), ?_⟩
    rw [Expr.eval, Expr.eval_moved]
    rfl

theorem evaluate_negated {tier : Tier} {first : Lexeme} {rest : List Lexeme} {right : String}
    {other : Float} (scanned : tokenize separator right = .ok (first :: rest))
    (negatable : Tier.negated? first.token = some tier)
    (takes : tier.Takes separator 1 right other) :
    evaluate separator ("-" ++ right) = .ok (-other) := by
  obtain ⟨lexemes, expr, scanned', read, rfl⟩ := takes
  cases scanned.symm.trans scanned'
  obtain ⟨layout, valid, same, found⟩ := Layout.exists_of_tokenize scanned
  refine evaluate_joined Layout.valid_nil (.operator .sub) rfl valid ?_ ?_
  · rw [same, String.toList_append]
    rfl
  · rw [found]
    obtain ⟨whole, derives, value⟩ := Derives.negation negatable read _ _
    exact ⟨whole, Derives.sum_of_logarithm (.plain derives), value⟩

/-- The laws of precedence, as laws on values: what each operator takes on its
left and on its right.  Sums take products, products take logarithms; a power
takes a number, a group or the negation of one, and on its right another power;
a logarithm takes a power, and a minus sign no more than a number, a group or a
logarithm.  All of these come to a value, and so do the sources they are put
together from. -/
theorem evaluate_operators (separator : Separator) (left right : String) (value other : Float) :
    (Tier.sum.Takes separator 0 left value → Tier.product.Takes separator 0 right other →
      evaluate separator (left ++ "+" ++ right) = .ok (value + other) ∧
        evaluate separator (left ++ "-" ++ right) = .ok (value - other)) ∧
    (Tier.product.Takes separator 0 left value → Tier.logarithm.Takes separator 0 right other →
      evaluate separator (left ++ "*" ++ right) = .ok (value * other) ∧
        evaluate separator (left ++ "/" ++ right) = .ok (value / other)) ∧
    (∀ lexemes, tokenize separator left = .ok lexemes → Raisable lexemes value →
      Tier.power.Takes separator 1 right other →
      evaluate separator (left ++ "^" ++ right) = .ok (Float.pow value other) ∧
        evaluate separator left = .ok value) ∧
    (Tier.power.Takes separator 1 right other →
      evaluate separator ("log" ++ right) = .ok (Float.log other)) ∧
    (∀ first rest, tokenize separator right = .ok (first :: rest) →
      ((∃ number, first.token = .number number) ∨ first.token = .opening →
        Tier.primary.Takes separator 1 right other →
        evaluate separator ("-" ++ right) = .ok (-other)) ∧
      (first.token = .log → Tier.logarithm.Takes separator 1 right other →
        evaluate separator ("-" ++ right) = .ok (-other))) ∧
    ∀ (tier : Tier) (depth : Nat) (source : String) (value : Float),
      tier.Takes separator depth source value → evaluate separator source = .ok value := by
  refine ⟨fun takes takes' => ⟨?_, ?_⟩, fun takes takes' => ⟨?_, ?_⟩, ?_, ?_, ?_,
    fun tier depth source value takes => takes.evaluate_eq⟩
  · exact (takes.concat .add rfl takes').evaluate_eq
  · exact (takes.concat .sub rfl takes').evaluate_eq
  · exact (takes.concat .mul rfl takes').evaluate_eq
  · exact (takes.concat .div rfl takes').evaluate_eq
  · intro lexemes scanned raisable takes
    obtain ⟨base, derives, alone⟩ := raisable.derives
    have whole := evaluate_of_derives scanned (Derives.base derives).outermost
    exact ⟨evaluate_raised scanned raisable takes, alone ▸ whole⟩
  · exact fun takes => evaluate_logarithm takes
  · intro first rest scanned
    refine ⟨fun simple takes => ?_, fun word takes => ?_⟩
    · refine evaluate_negated scanned ?_ takes
      rcases simple with ⟨number, same⟩ | same
      · rw [same, Tier.negated?]
      · rw [same, Tier.negated?]
    · exact evaluate_negated scanned (by rw [word, Tier.negated?]) takes

/-- A difference is what is added to and what the next minus sign subtracts from, a
quotient is what is multiplied and divided, and the negation of a number is what is
raised to a power. -/
theorem evaluate_operators_of_digits :
    evaluate .point ("3-2" ++ "+" ++ "1") = .ok (3 - 2 + 1) ∧
      evaluate .point ("3-2" ++ "-" ++ "1") = .ok (3 - 2 - 1) ∧
      evaluate .point ("3/2" ++ "*" ++ "1") = .ok (3 / 2 * 1) ∧
      evaluate .point ("3/2" ++ "/" ++ "1") = .ok (3 / 2 / 1) ∧
      evaluate .point ("-2" ++ "^" ++ "3") = .ok (Float.pow (-2) 3) ∧
      evaluate .point ("log" ++ "2") = .ok (Float.log 2) ∧
      evaluate .point ("-" ++ "2") = .ok (-2) ∧
      evaluate .point ("-" ++ "log2") = .ok (-Float.log 2) := by
  have amounts : Double.toFloat (Double.ofDecimal ⟨1, 0⟩) = 1 ∧
      Double.toFloat (Double.ofDecimal ⟨2, 0⟩) = 2 ∧
      Double.toFloat (Double.ofDecimal ⟨3, 0⟩) = 3 := by decide +kernel
  obtain ⟨isOne, isTwo, isThree⟩ := amounts
  have one : ∀ tier depth, Tier.Takes .point tier depth "1" 1 :=
    isOne ▸ .of_numeral ['1'] (.of_isDigit rfl) rfl
  have two : ∀ tier depth, Tier.Takes .point tier depth "2" 2 :=
    isTwo ▸ .of_numeral ['2'] (.of_isDigit rfl) rfl
  have three : ∀ tier depth, Tier.Takes .point tier depth "3" 3 :=
    isThree ▸ .of_numeral ['3'] (.of_isDigit rfl) rfl
  have difference : Tier.sum.Takes .point 0 "3-2" (3 - 2) :=
    (three _ _).concat .sub rfl (two _ _)
  have quotient : Tier.product.Takes .point 0 "3/2" (3 / 2) :=
    (three _ _).concat .div rfl (two _ _)
  obtain ⟨added, subtracted⟩ :=
    (evaluate_operators .point "3-2" "1" _ _).1 difference (one _ _)
  obtain ⟨multiplied, divided⟩ :=
    (evaluate_operators .point "3/2" "1" _ _).2.1 quotient (one _ _)
  refine ⟨added, subtracted, multiplied, divided, ?_, ?_, ?_, ?_⟩
  · have scanned : tokenize .point "-2" = .ok [⟨.operator .sub, 0⟩, ⟨.number 2, 1⟩] := by
      decide +kernel
    exact ((evaluate_operators .point "-2" "3" _ _).2.2.1 _ scanned .negatedNumber (three _ _)).1
  · exact (evaluate_operators .point "" "2" 0 _).2.2.2.1 (two _ _)
  · have scanned : tokenize .point "2" = .ok [⟨.number 2, 0⟩] := by decide +kernel
    exact ((evaluate_operators .point "" "2" 0 _).2.2.2.2.1 _ _ scanned).1 (.inl ⟨2, rfl⟩) (two _ _)
  · have scanned : tokenize .point "log2" = .ok [⟨.log, 0⟩, ⟨.number 2, 3⟩] := by decide +kernel
    have derives : Derives .standard .logarithm 1 [⟨.log, 0⟩, ⟨.number 2, 3⟩]
        (.unary .ln 0 (.literal 2 3)) := .logarithm rfl (.base .number)
    have logarithm : Tier.logarithm.Takes .point 1 "log2" (Float.log 2) :=
      ⟨_, _, scanned, derives.reads_all.read_eq, rfl⟩
    exact ((evaluate_operators .point "" "log2" 0 _).2.2.2.2.1 _ _ scanned).2 rfl logarithm

end Reckoner
