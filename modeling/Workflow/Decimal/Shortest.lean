import Workflow.Decimal.Nearest

/-!
# The shortest decimal that reads back

The text of a floating-point number has as few digits as reading allows: of one digit, two digits
and so on up to seventeen, the first length is taken at which one of the number's two neighbours on
that decimal grid reads back as the number itself.  If both do, the nearer is taken; a tie between
them is decided by the format.

* `shortest` is that decimal.
* `exact` is the decimal that equals a magnitude; it stands behind the search, so that the search
  needs no argument for its end.
-/

namespace Workflow.Decimal

/-- Which of two equally near neighbours is taken. -/
inductive Tie where
  | toEven
  | awayFromZero
deriving DecidableEq, Repr

/-- The decimal that equals a finite magnitude. -/
def exact (b : Magnitude) : Decimal :=
  let (m, q) := b.split
  if 0 ≤ q then ⟨m <<< q.toNat, 0⟩ else ⟨m * Nat.pow 5 (-q).toNat, q⟩

/-- The power of ten just above a fraction of at least `10 ^ -400`. -/
def leadingPower (num den : Nat) : Int :=
  ((digitsText (num * Nat.pow 10 400 / den)).length : Int) - 400

/-- The neighbours of a fraction on the grid of the multiples of `10 ^ grid`, the nearer first. -/
def neighbours (tie : Tie) (num den : Nat) (grid : Int) : List Decimal :=
  let (n, d) :=
    if 0 ≤ grid then (num, den * Nat.pow 10 grid.toNat)
    else (num * Nat.pow 10 (-grid).toNat, den)
  let below := n / d
  let lower : Decimal := ⟨below, grid⟩
  let upper : Decimal := ⟨below + 1, grid⟩
  let twice := 2 * (n % d)
  if twice < d ∨ (twice = d ∧ tie = .toEven ∧ below % 2 = 0) then [lower, upper]
  else [upper, lower]

/-- The decimal with the fewest digits that reads back as a finite magnitude, and of those the
nearest. -/
def shortest (tie : Tie) (b : Magnitude) : Decimal :=
  let (num, den) := b.fraction
  let lead := leadingPower num den
  let hit := (List.range 17).findSome? fun (more : Nat) =>
    (neighbours tie num den (lead - 1 - more)).find? fun d => d.magnitude == b
  hit.getD (exact b)

end Workflow.Decimal
