import Workflow.Decimal.Shortest

/-!
# Laying out the digits of a number

Two formats of this library write floating-point numbers, and they differ in four decisions only:
which powers of ten are written out with zeros, whether a whole number keeps a fraction, how an
exponent is marked, and which way an exact tie goes.  `Layout` is the record of these decisions and
`Layout.text` the function that both share.
-/

namespace Workflow.Decimal

/-- The decisions of a number format. -/
structure Layout where
  /-- Which way a tie between two shortest decimals goes. -/
  tie : Tie
  /-- Whether a number with this power of ten at its leading digit is written out with zeros. -/
  positional : Int → Bool
  /-- What follows the digits of a whole number. -/
  wholeEnding : List Char
  /-- What stands between the digits and an exponent that is not negative. -/
  exponentMark : List Char

/-- The digits without their final zeros, and the power of ten of the last one kept. -/
def stripZeros (d : Decimal) : List Char × Int :=
  let ds := digitsText d.digits
  let kept := (ds.reverse.dropWhile (· = '0')).reverse
  if kept = [] then (['0'], 0)
  else (kept, d.exponent + (ds.length - kept.length : Nat))

/-- Digits with the point after the first `point` of them, zeros filling any gap. -/
def Layout.positionalText (l : Layout) (ds : List Char) (point : Int) : List Char :=
  if point ≤ 0 then '0' :: '.' :: (List.replicate (-point).toNat '0' ++ ds)
  else
    let width := point.toNat
    if ds.length ≤ width then ds ++ List.replicate (width - ds.length) '0' ++ l.wholeEnding
    else ds.take width ++ '.' :: ds.drop width

/-- One digit, a fraction if there are more, and the power of ten of the leading digit. -/
def Layout.exponentText (l : Layout) (ds : List Char) (lead : Int) : List Char :=
  let mantissa := match ds with
    | c :: rest@(_ :: _) => c :: '.' :: rest
    | _ => ds
  let mark := if 0 ≤ lead then l.exponentMark else ['e', '-']
  mantissa ++ mark ++ digitsText lead.natAbs

/-- The text of a decimal. -/
def Layout.decimalText (l : Layout) (d : Decimal) : List Char :=
  let (ds, exponent) := stripZeros d
  let point := exponent + ds.length
  if l.positional (point - 1) then l.positionalText ds point else l.exponentText ds (point - 1)

/-- The text of a finite number.  The sign of a negative zero is kept. -/
def Layout.text (l : Layout) (x : Float) : List Char :=
  let sign := if x.toBits ≥ 0x8000000000000000 then ['-'] else []
  let b := Magnitude.ofFloat x
  sign ++ l.decimalText (if b = 0 then ⟨0, 0⟩ else shortest l.tie b)

end Workflow.Decimal
