/-!
# Decimal numerals

A decimal numeral is a natural number of digits and a power of ten.  This file reads the digits of
a numeral and writes them; how a numeral becomes a floating-point number and back is the subject of
`Workflow.Decimal.Nearest` and `Workflow.Decimal.Shortest`.

* `Decimal.ofText?` reads an unsigned numeral: digits, at most one point, an exponent.
* `digitsText` writes a natural number in base ten.
-/

namespace Workflow

/-- The number `digits · 10 ^ exponent`. -/
structure Decimal where
  /-- The significant digits, as one natural number. -/
  digits : Nat
  /-- The power of ten that the last digit counts. -/
  exponent : Int
deriving DecidableEq, Repr, Inhabited

namespace Decimal

/-- A natural number in base ten, without leading zeros. -/
def digitsText (n : Nat) : List Char :=
  Nat.toDigits 10 n

/-- The value of a list of decimal digits. -/
def digitsValue (cs : List Char) : Nat :=
  cs.foldl (fun value c => 10 * value + (c.toNat - '0'.toNat)) 0

/-- Splits a text after its leading decimal digits. -/
def spanDigits (cs : List Char) : List Char × List Char :=
  (cs.takeWhile Char.isDigit, cs.dropWhile Char.isDigit)

/-- The exponent part of a numeral: nothing, or `e`, an optional sign and at least one digit. -/
def exponentOf? : List Char → Option Int
  | [] => some 0
  | e :: rest =>
    if e = 'e' ∨ e = 'E' then
      match rest with
      | '+' :: ds => unsigned? ds
      | '-' :: ds => (unsigned? ds).map (- ·)
      | ds => unsigned? ds
    else none
where
  /-- At least one digit and nothing else. -/
  unsigned? (ds : List Char) : Option Int :=
    if ds ≠ [] ∧ ds.all Char.isDigit then some (digitsValue ds) else none

/-- Reads an unsigned numeral.  The digits may stand on either side of the point, but there has to
be one; a numeral that is all exponent is none. -/
def ofText? (cs : List Char) : Option Decimal :=
  let (whole, rest) := spanDigits cs
  let (fraction, rest) :=
    match rest with
    | '.' :: after => spanDigits after
    | _ => ([], rest)
  if whole = [] ∧ fraction = [] then none
  else (exponentOf? rest).map fun e =>
    ⟨digitsValue (whole ++ fraction), e - fraction.length⟩

end Decimal
end Workflow
