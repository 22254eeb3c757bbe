import Workflow.Decimal.Layout
import Workflow.Text.Blank

/-!
# Values

What a condition computes with: numbers, booleans, strings and null.  No operation on them fails;
where an operand has the wrong type it is coerced.

* `Value.isTruthy` and `Value.toNumber` are the two coercions.
* `Value.display` is the text of a value.
* The operators: `Value.add`, `Value.strictEq`, `Value.looseEq`, and `Value.compare?`, of which the
  orders are tests.
-/

namespace Workflow

/-- A value of a condition. -/
inductive Value where
  | number (x : Float)
  | bool (b : Bool)
  | string (s : String)
  | null
deriving DecidableEq, Repr, Inhabited

namespace Value

/-! ## Coercions -/

/-- Everything is true but zero, NaN, `false`, the empty string and null. -/
def isTruthy : Value → Bool
  | .number x => x != 0 && !x.isNaN
  | .bool b => b
  | .string s => s != ""
  | .null => false

/-- NaN, the number that a text without a number stands for. -/
def nan : Float := 0.0 / 0.0

/-- The infinite numbers. -/
def infinity : Float := 1.0 / 0.0

/-- Reads a number without its sign: a numeral, or one of three words in any case. -/
def unsignedOfText? (cs : List Char) : Option Float :=
  let word := cs.map Char.toLower
  if word = "inf".toList ∨ word = "infinity".toList then some infinity
  else if word = "nan".toList then some nan
  else (Decimal.ofText? cs).map Decimal.toFloat

/-- Reads a number with an optional sign. -/
def numberOfText? : List Char → Option Float
  | '+' :: cs => unsignedOfText? cs
  | '-' :: cs => (unsignedOfText? cs).map fun x => -x
  | cs => unsignedOfText? cs

/-- The numeric coercion.  A string counts as the number it spells between blanks; a blank string is
zero and any other string NaN. -/
def toNumber : Value → Float
  | .number x => x
  | .bool b => if b then 1 else 0
  | .string s =>
    match Text.trim s.toList with
    | [] => 0
    | cs => (numberOfText? cs).getD nan
  | .null => 0

/-- The name of a value's type. -/
def typeName : Value → String
  | .number _ => "number"
  | .bool _ => "boolean"
  | .string _ => "string"
  | .null => "null"

/-! ## Text -/

/-- Numbers are written out in full, without an exponent and without a fraction that is zero. -/
def numberLayout : Decimal.Layout where
  tie := .awayFromZero
  positional := fun _ => true
  wholeEnding := []
  exponentMark := []

/-- The text of a number.  Both zeros are written `0`. -/
def numberText (x : Float) : List Char :=
  if x.isNaN then "NaN".toList
  else if x.isInf then if x < 0 then "-Infinity".toList else "Infinity".toList
  else if x == 0 then ['0']
  else numberLayout.text x

/-- The text of a value.  A string is its own text. -/
def display : Value → List Char
  | .number x => numberText x
  | .bool b => if b then "true".toList else "false".toList
  | .string s => s.toList
  | .null => "null".toList

/-! ## Operators -/

/-- A string on either side makes the sum a concatenation of texts. -/
def add (a b : Value) : Value :=
  match a, b with
  | .string s, _ => .string (s ++ String.ofList b.display)
  | _, .string s => .string (String.ofList a.display ++ s)
  | _, _ => .number (a.toNumber + b.toNumber)

/-- Equality without coercion: values of different types differ. -/
def strictEq : Value → Value → Bool
  | .number x, .number y => x == y
  | .bool x, .bool y => x == y
  | .string x, .string y => x == y
  | .null, .null => true
  | _, _ => false

/-- The number of booleans that a value is. -/
def boolCount : Value → Nat
  | .bool _ => 1
  | _ => 0

/-- Equality with coercion: null equals only itself, a boolean gives way to the number it counts as,
and a string beside a number is read as one. -/
def looseEq : Value → Value → Bool
  | .null, .null => true
  | .null, _ => false
  | _, .null => false
  | .bool p, b => looseEq (.number (toNumber (.bool p))) b
  | a, .bool q => looseEq a (.number (toNumber (.bool q)))
  | .number x, .string s => x == toNumber (.string s)
  | .string s, .number y => toNumber (.string s) == y
  | a, b => strictEq a b
termination_by a b => a.boolCount + b.boolCount
decreasing_by all_goals simp [boolCount]

/-- How two numbers compare; NaN compares with nothing. -/
def compareNumbers? (x y : Float) : Option Ordering :=
  if x < y then some .lt
  else if x == y then some .eq
  else if y < x then some .gt
  else none

/-- How two values compare: two strings by code points, all else by number. -/
def compare? : Value → Value → Option Ordering
  | .string s, .string t => some (compare s t)
  | a, b => compareNumbers? a.toNumber b.toNumber

end Value
end Workflow
