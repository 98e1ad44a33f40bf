import Reckoner.Double

namespace Reckoner.Double

/-! The text of a double: the shortest decimal that reads back as the same
double, written out in full.  Grids of decimals are tried from coarse to fine,
and on each grid the two neighbours of the exact number. -/

/-- Whether the decimal with this coefficient is read as this rung. -/
def readsBack (rung coefficient places : Nat) : Bool :=
  ofDecimal ⟨coefficient, places⟩ == rung

/-- Cuts `dropped` digits off the exact decimal, or fewer if the result would
not read back.  Of two neighbours that both do, the nearer one is taken, and
the upper one if they are equally near. -/
def shorten (rung : Nat) (exact : Decimal) : (dropped : Nat) → Decimal
  | 0 => exact
  | dropped + 1 =>
      let step := Decimal.scale (dropped + 1)
      let below := exact.coefficient / step * step
      let above := below + step
      if readsBack rung below exact.places then
        if readsBack rung above exact.places ∧ step ≤ 2 * (exact.coefficient - below) then
          ⟨above, exact.places⟩
        else ⟨below, exact.places⟩
      else if readsBack rung above exact.places then ⟨above, exact.places⟩
      else shorten rung exact dropped

/-- The decimal with the fewest digits that reads back as this rung. -/
def shortest (rung : Nat) : Decimal :=
  let exact := exact rung
  (shorten rung exact ((Nat.toDigits 10 exact.coefficient).length - 1)).trimmed

def signed (negative : Bool) (magnitude : List Char) : List Char :=
  if negative then '-' :: magnitude else magnitude

/-- Numbers are written with a point as their separator and never with an
exponent. -/
def text : Double → List Char
  | .notANumber => ['N', 'a', 'N']
  | .infinite negative => signed negative ['i', 'n', 'f']
  | .finite negative rung => signed negative ((shortest rung).text '.')

/-- A double rounded to a fixed count of places, a half going to the even
digit. -/
def fixedText (point : Char) (precision : Nat) : Double → List Char
  | .notANumber => ['n', 'a', 'n']
  | .infinite negative => signed negative ['i', 'n', 'f']
  | .finite negative rung => signed negative ((exact rung).fixedText point precision)

end Reckoner.Double
