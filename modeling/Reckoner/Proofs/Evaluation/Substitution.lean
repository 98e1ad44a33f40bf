import Reckoner.Proofs.Evaluation.Precedence
import Reckoner.Proofs.Reading.Grouping

namespace Reckoner

/-- The source is accepted, and the expression is what it spells. -/
def Spelled (separator : Separator) (source : String) (expr : Expr) : Prop :=
  ∃ lexemes, tokenize separator source = .ok lexemes ∧ Expr.ofLexemes lexemes = .ok expr

/-- After `before` there are `count` constructs open: groups, minus signs,
logarithms and exponents. -/
def Encloses (before : List Lexeme) (count : Nat) : Prop :=
  ∃ place, Tier.sum.start.walk none 0 before = .ok place ∧ place.around.length = count

section

variable {separator : Separator} {before after inserted : Layout} {written : List Char}
  {value : Float} {expr inner : Expr}

/-- Parentheses around one layout between two others. -/
def Layout.around (before inserted after : Layout) : Layout :=
  (before.joined ['('] .opening inserted).joined [')'] .closing after

theorem Layout.lexemes_around (before inserted after : Layout) :
    ∃ stop distance, (before.around inserted after).lexemes =
      before.lexemes ++ ⟨.opening, byteSize before.text⟩ ::
        (inserted.lexemes.map (Lexeme.moved (byteSize before.text + 1 + ·)) ++
          ⟨.closing, stop⟩ :: after.lexemes.map (Lexeme.moved (distance + ·))) := by
  have one : byteSize (before.text ++ ['(']) = byteSize before.text + 1 := byteSize_append _ _
  refine ⟨byteSize (before.joined ['('] .opening inserted).text,
    byteSize ((before.joined ['('] .opening inserted).text ++ [')']), ?_⟩
  rw [Layout.around, lexemes_joined, lexemes_joined, one, List.append_assoc, List.cons_append]

theorem Layout.text_around (before inserted after : Layout) :
    (before.around inserted after).text =
      before.text ++ '(' :: (inserted.text ++ ')' :: after.text) := by
  simp [Layout.around, text_joined]

theorem Layout.Valid.around (valid : before.Valid separator) (valid' : inserted.Valid separator)
    (valid'' : after.Valid separator) : (before.around inserted after).Valid separator :=
  (valid.joined .opening rfl valid').joined .closing rfl valid''

theorem Spelled.evaluate_eq {source : String} (spelled : Spelled separator source expr) :
    evaluate separator source = .ok expr.eval := by
  obtain ⟨lexemes, scanned, accepted⟩ := spelled
  simp only [evaluate_def, scanned, accepted]

theorem exists_takes_iff {tier : Tier} {depth : Nat} {source : String} {lexemes : List Lexeme}
    (scanned : tokenize separator source = .ok lexemes) :
    (∃ amount, tier.Takes separator depth source amount) ↔
      ∃ expr, tier.read .standard depth lexemes = .accepted expr [] := by
  constructor
  · intro takes
    obtain ⟨_, others, expr, scanned', read, _⟩ := takes
    cases scanned.symm.trans scanned'
    exact ⟨expr, read⟩
  · intro accepted
    obtain ⟨expr, read⟩ := accepted
    exact ⟨expr.eval, lexemes, expr, scanned, read, rfl⟩

theorem Spelled.of_derives {layout : Layout} {source : String} (valid : layout.Valid separator)
    (same : layout.text = source.toList) (derives : Derives .standard .sum 0 layout.lexemes expr) :
    Spelled separator source expr :=
  ⟨_, Layout.tokenize_eq valid same, Expr.ofLexemes_of_accepted derives.reads_all⟩

theorem Spelled.exists_layout {source : String} (spelled : Spelled separator source expr) :
    ∃ layout : Layout, layout.Valid separator ∧ layout.text = source.toList ∧
      Expr.ofLexemes layout.lexemes = .ok expr := by
  obtain ⟨lexemes, scanned, accepted⟩ := spelled
  obtain ⟨layout, valid, same, rfl⟩ := Layout.exists_of_tokenize scanned
  exact ⟨layout, valid, same, accepted⟩

/-- Where a lexeme goes for the parentheses at `start`, if those after `stop` go
after `stop'`. -/
def displaced (start stop stop' position : Nat) : Nat :=
  if position < start then position else stop' + (position - stop)

/-- The lexemes of a layout with a number in it, and what becomes of those after
the number. -/
theorem Layout.lexemes_number
    (valid : (before.joined written (.number value) after).Valid separator) (distance : Nat) :
    ∃ rest, (before.joined written (.number value) after).lexemes =
        before.lexemes ++ ⟨.number value, byteSize before.text⟩ :: rest ∧
      (∀ lexeme ∈ rest, lexeme.position ≠ byteSize before.text) ∧
      after.lexemes.map (Lexeme.moved (distance + ·)) = rest.map (Lexeme.moved
        (displaced (byteSize before.text) (byteSize (before.text ++ written)) distance)) := by
  obtain ⟨_, spells, _⟩ := valid.of_joined
  obtain ⟨first, more, starts, _⟩ := spells.starts
  have longer : byteSize before.text < byteSize (before.text ++ written) := by
    rw [byteSize_append, byteSize_eq_length spells.utf8Size, starts, List.length_cons]
    omega
  refine ⟨_, lexemes_joined _ _ _ _, ?_, ?_⟩
  · intro lexeme member
    obtain ⟨original, _, rfl⟩ := List.mem_map.mp member
    simp only [Lexeme.moved]
    omega
  · rw [List.map_map]
    refine List.map_congr_left fun lexeme _ => ?_
    have later : ¬ byteSize (before.text ++ written) + lexeme.position < byteSize before.text := by
      omega
    simp only [Function.comp_apply, Lexeme.moved, displaced, if_neg later, Nat.add_sub_cancel_left]

/-- What becomes of a layout when parentheses take the place of a number. -/
theorem Layout.ofLexemes_around
    (valid : (before.joined written (.number value) after).Valid separator)
    (valid' : inserted.Valid separator)
    (accepted : Expr.ofLexemes (before.joined written (.number value) after).lexemes = .ok expr)
    (accepted' : Expr.ofLexemes inserted.lexemes = .ok inner) :
    ∃ count, Encloses before.lexemes count ∧
      (count < 128 ∧ (∃ content,
          Tier.read .standard .sum (count + 1) inserted.lexemes = .accepted content []) →
        ∃ tree, Expr.ofLexemes (before.around inserted after).lexemes = .ok tree ∧
          tree.unplaced = (expr.replaced (byteSize before.text) inner).unplaced ∧
          tree.eval = (expr.replaced (byteSize before.text)
            (.literal inner.eval (byteSize before.text))).eval) ∧
      (¬ (count < 128 ∧ ∃ content,
          Tier.read .standard .sum (count + 1) inserted.lexemes = .accepted content []) →
        ∃ position, Expr.ofLexemes (before.around inserted after).lexemes =
            .error (.nestingTooDeep position) ∧
          byteSize before.text ≤ position ∧
          position ≤ byteSize before.text + byteSize inserted.text) := by
  obtain ⟨stop, distance, around⟩ := lexemes_around before inserted after
  obtain ⟨rest, numbered, later, displaced⟩ := lexemes_number valid distance
  rw [numbered] at accepted
  obtain ⟨place, reached, due, onward⟩ := Place.exists_place (Expr.run_of_ofLexemes accepted)
  refine ⟨place.around.length, ⟨place, Place.walk_unbounded reached, rfl⟩, ?_, ?_⟩
  · intro fits
    obtain ⟨room, content, read⟩ := fits
    have derives := Derives.of_read_all (by decide) read
    have reads := (derives.moved (byteSize before.text + 1 + ·)).reads_all
    have tokens : rest.map Lexeme.token =
        (after.lexemes.map (Lexeme.moved (distance + ·))).map Lexeme.token := by
      rw [displaced, List.map_map]
      rfl
    have admitted : Nesting.standard.admits place.around.length = true := decide_eq_true room
    have passes := (Place.run_append _ reached).trans
      (Place.run_group (byteSize before.text) stop due admitted reads
        (Place.run_eq_ok_of_tokens _ _ tokens onward))
    rw [displaced] at passes around
    rw [around]
    refine Expr.ofLexemes_grouped accepted accepted' (fun lexeme member => ?_) later passes
    have earlier := position_lt valid.of_joined.1 member
    exact ⟨Nat.ne_of_lt earlier, if_pos earlier⟩
  · intro crowded
    obtain ⟨blamed, rejected, blames⟩ := Expr.ofLexemes_grouped_tooDeep
      (byteSize before.text) (byteSize before.text + 1)
      (⟨.closing, stop⟩ :: after.lexemes.map (Lexeme.moved (distance + ·)))
      reached due accepted' crowded
    refine ⟨blamed, around ▸ rejected, ?_⟩
    rcases blames with rfl | ⟨lexeme, member, rfl⟩
    · exact ⟨Nat.le_refl _, Nat.le_add_right _ _⟩
    · have within := position_lt valid' member
      omega

/-- A source is laid out around one of its numbers; another takes the place of
the number, in parentheses.  If `count` constructs enclose the number, and the
other source is an expression inside one more, then the two are one expression
with one value: the expression of the first with that of the other for the
number, and the value of the first with that of the other for the number.
Otherwise the nesting is too deep, at the opening parenthesis or after it. -/
theorem evaluate_substituted (separator : Separator) (before after : Layout)
    (written : List Char) (value : Float) (source inserted whole : String) (expr inner : Expr)
    (valid : (before.joined written (.number value) after).Valid separator)
    (laid : source.toList = before.text ++ (written ++ after.text))
    (spelled : Spelled separator source expr) (spelled' : Spelled separator inserted inner)
    (put : whole.toList = before.text ++ '(' :: (inserted.toList ++ ')' :: after.text)) :
    ∃ count, Encloses before.lexemes count ∧
      (count < 128 ∧ (∃ amount, Tier.sum.Takes separator (count + 1) inserted amount) →
        ∃ tree, Spelled separator whole tree ∧
          tree.unplaced = (expr.replaced (byteSize before.text) inner).unplaced ∧
          evaluate separator whole = .ok (expr.replaced (byteSize before.text)
            (.literal inner.eval (byteSize before.text))).eval) ∧
      (¬ (count < 128 ∧ ∃ amount, Tier.sum.Takes separator (count + 1) inserted amount) →
        ∃ position, evaluate separator whole = .error (.parse (.nestingTooDeep position)) ∧
          byteSize before.text ≤ position ∧
          position ≤ byteSize before.text + byteSize inserted.toList) := by
  obtain ⟨lexemes, scanned, accepted⟩ := spelled
  cases (Layout.tokenize_eq valid ((Layout.text_joined _ _ _ _).trans laid.symm)).symm.trans scanned
  obtain ⟨content, contentValid, contentText, inside⟩ := spelled'.exists_layout
  obtain ⟨beforeValid, _, afterValid⟩ := valid.of_joined
  have wholeScanned : tokenize separator whole = .ok (before.around content after).lexemes := by
    refine Layout.tokenize_eq (beforeValid.around contentValid afterValid) ?_
    rw [Layout.text_around, contentText, put]
  obtain ⟨count, encloses, fits, crowded⟩ :=
    Layout.ofLexemes_around valid contentValid accepted inside
  simp only [exists_takes_iff (Layout.tokenize_eq contentValid contentText)]
  refine ⟨count, encloses, fun room => ?_, fun full => ?_⟩
  · obtain ⟨tree, spelled, shape, amount⟩ := fits room
    have whole : Spelled separator whole tree := ⟨_, wholeScanned, spelled⟩
    exact ⟨tree, whole, shape, whole.evaluate_eq.trans (congrArg Except.ok amount)⟩
  · obtain ⟨position, rejected, bounds⟩ := crowded full
    rw [contentText] at bounds
    exact ⟨position, by simp only [evaluate_def, wholeScanned, rejected], bounds⟩

end

/-- `2*3,5` with `1+1` for its second number. -/
theorem evaluate_product_of_sum :
    evaluate .comma "2*(1+1)" =
      .ok (Double.toFloat (Double.ofDecimal ⟨2, 0⟩) *
        (Double.toFloat (Double.ofDecimal ⟨1, 0⟩) + Double.toFloat (Double.ofDecimal ⟨1, 0⟩))) := by
  have digit : ∀ written : Char, written.isDigit = true →
      (Layout.numeral .comma [written]).Valid .comma := fun written isDigit =>
    .numeral (.of_isDigit isDigit)
  have numeral : (Layout.numeral .comma ['3', ',', '5']).Valid .comma :=
    .numeral ⟨by simp [Separator.char], ⟨'3', by simp, rfl⟩, by decide⟩
  have product : ∀ left right, Derives .standard .sum 0
      [⟨.number left, 0⟩, ⟨.operator .mul, 1⟩, ⟨.number right, 2⟩]
      (.chain (.literal left 0) [⟨.mul, 1, .literal right 2⟩]) := fun left right =>
    .sum_of_product (.link (rfl : Tier.product.links .mul = true) (.numeral _ left 0)
      (.numeral _ right 2))
  have sum : ∀ depth left right, Derives .standard .sum depth
      [⟨.number left, 0⟩, ⟨.operator .add, 1⟩, ⟨.number right, 2⟩]
      (.chain (.literal left 0) [⟨.add, 1, .literal right 2⟩]) := fun depth left right =>
    .link (rfl : Tier.sum.links .add = true) (.numeral _ left 0) (.numeral _ right 2)
  have two := (digit '2' rfl).joined (.operator .mul) rfl numeral
  have ones := (digit '1' rfl).joined (.operator .add) rfl (digit '1' rfl)
  obtain ⟨count, ⟨place, walked, rfl⟩, fits, _⟩ := evaluate_substituted .comma
    ((Layout.numeral .comma ['2']).joined ['*'] (.operator .mul) ⟨[], []⟩) ⟨[], []⟩
    ['3', ',', '5'] _ "2*3,5" "1+1" "2*(1+1)" _ _ two rfl
    (.of_derives two rfl (product _ _)) (.of_derives ones rfl (sum 0 _ _)) rfl
  obtain rfl : place = ⟨[], .operand⟩ := Except.ok.inj (walked.symm.trans rfl)
  obtain ⟨tree, _, _, amount⟩ := fits ⟨by decide, _, .of_derives ones rfl (sum 1 _ _)⟩
  exact amount

end Reckoner
