import Workflow.Decimal.Basic

/-!
# The floating-point number nearest to a decimal

A non-negative floating-point number is determined by its magnitude, the sixty-three bits below the
sign.  A magnitude `b` under `2 ^ 52` stands for `b · 2 ^ -1074`; above, the eleven upper bits count
powers of two and the lower fifty-two follow an implicit one.  In both cases the magnitude of
`m · 2 ^ q` is `(q + 1074) · 2 ^ 52 + m`, which is why one formula serves numbers of every size and
why a mantissa that rounds up to `2 ^ 53` needs no second look.

* `Magnitude.split` is the mantissa and the power of two of a magnitude.
* `Magnitude.nearest` rounds a fraction to the nearest magnitude, ties to the even mantissa.
* `Decimal.toFloat` is the floating-point number nearest to a decimal.
-/

namespace Workflow

/-- The bits of a floating-point number below its sign. -/
abbrev Magnitude := Nat

namespace Magnitude

/-- The weight of the bit above the fifty-two bits of a mantissa that are written down. -/
def implicitOne : Nat := 0x10000000000000

/-- The weight of the sign. -/
def signBit : Nat := 0x8000000000000000

/-- The magnitude of infinity. -/
def infinity : Magnitude := 0x7FF0000000000000

/-- The magnitude of a floating-point number. -/
def ofFloat (x : Float) : Magnitude :=
  x.toBits.toNat % signBit

/-- The floating-point number with a given sign and magnitude. -/
def toFloat (negative : Bool) (b : Magnitude) : Float :=
  Float.ofBits (UInt64.ofNat (if negative then signBit + b else b))

/-- The mantissa `m` and the power `q` of a finite magnitude, which stands for `m · 2 ^ q`. -/
def split (b : Magnitude) : Nat × Int :=
  if b < implicitOne then (b, -1074)
  else (implicitOne + b % implicitOne, (b / implicitOne : Nat) - 1075)

/-- A finite magnitude as a fraction. -/
def fraction (b : Magnitude) : Nat × Nat :=
  let (m, q) := split b
  if 0 ≤ q then (m <<< q.toNat, 1) else (m, 1 <<< (-q).toNat)

/-- A quotient rounded to the nearest natural number, ties to even. -/
def roundEven (num den : Nat) : Nat :=
  let floor := num / den
  let twice := 2 * (num % den)
  if twice < den ∨ (twice = den ∧ floor % 2 = 0) then floor else floor + 1

/-- The quotient `num / (den · 2 ^ q)`, as a numerator and a denominator. -/
def scale (num den : Nat) (q : Int) : Nat × Nat :=
  if 0 ≤ q then (num, den <<< q.toNat) else (num <<< (-q).toNat, den)

/-- The power of two at or below a positive fraction. -/
def binaryExponent (num den : Nat) : Int :=
  let guess : Int := (num.log2 : Int) - den.log2
  let (n, d) := scale num den guess
  if d ≤ n then guess else guess - 1

/-- The magnitude nearest to a fraction, of two equally near ones the one with an even mantissa;
fractions beyond every finite magnitude give infinity. -/
def nearest (num den : Nat) : Magnitude :=
  if num = 0 then 0
  else
    let q := max (binaryExponent num den - 52) (-1074)
    let (n, d) := scale num den q
    min ((q + 1074).toNat * implicitOne + roundEven n d) infinity

end Magnitude

namespace Decimal

/-- A decimal as a fraction. -/
def fraction (d : Decimal) : Nat × Nat :=
  if 0 ≤ d.exponent then (d.digits * Nat.pow 10 d.exponent.toNat, 1)
  else (d.digits, Nat.pow 10 (-d.exponent).toNat)

/-- The magnitude nearest to a decimal.  Decimals from `10 ^ 310` on and those under `10 ^ -330`
are decided by their size alone, so that no power of ten is formed that the answer cannot need. -/
def magnitude (d : Decimal) : Magnitude :=
  if d.digits = 0 then 0
  else if d.exponent > 310 then Magnitude.infinity
  else if d.exponent + (digitsText d.digits).length < -330 then 0
  else Magnitude.nearest d.fraction.1 d.fraction.2

/-- The floating-point number nearest to a decimal. -/
def toFloat (d : Decimal) : Float :=
  Magnitude.toFloat false d.magnitude

end Decimal
end Workflow
