import Workflow.Json.Basic

/-!
# Writing JSON

Values are written without any blanks and objects in the order of their members.  In strings, the
quote, the backslash and the control characters are escaped and every other character stands for
itself.  Floating-point numbers keep a fraction even where it is zero, and change to an exponent
from `1e+16` upwards and below `1e-5`, so the text of a number shows which kind it is.
-/

namespace Workflow

/-- How JSON lays out floating-point numbers. -/
def JsonNumber.layout : Decimal.Layout where
  tie := .toEven
  positional := fun lead => -5 ≤ lead && lead < 16
  wholeEnding := ['.', '0']
  exponentMark := ['e', '+']

/-- The text of a number. -/
def JsonNumber.text : JsonNumber → List Char
  | .natural n => Decimal.digitsText n.toNat
  | .negative m _ => '-' :: Decimal.digitsText m
  | .float x _ => layout.text x

namespace Json

/-- What a character becomes in a string. -/
def escape (c : Char) : List Char :=
  if c = '"' then ['\\', '"']
  else if c = '\\' then ['\\', '\\']
  else if c = '\x08' then ['\\', 'b']
  else if c = '\x0c' then ['\\', 'f']
  else if c = '\n' then ['\\', 'n']
  else if c = '\r' then ['\\', 'r']
  else if c = '\t' then ['\\', 't']
  else if c.toNat < 0x20 then
    ['\\', 'u', '0', '0', Nat.digitChar (c.toNat / 16), Nat.digitChar (c.toNat % 16)]
  else [c]

/-- A string between quotes. -/
def quote (s : String) : List Char :=
  '"' :: s.toList.flatMap escape ++ ['"']

mutual

/-- The text of a value.  What stands for no value is written as null. -/
def write : Json → List Char
  | .null | .unusable => "null".toList
  | .bool b => if b then "true".toList else "false".toList
  | .number n => n.text
  | .string s => quote s
  | .array items => '[' :: writeItems items ++ [']']
  | .object members => '\x7b' :: writeMembers members ++ ['\x7d']

/-- The items of an array, with commas between them. -/
def writeItems : List Json → List Char
  | [] => []
  | [item] => write item
  | item :: rest => write item ++ ',' :: writeItems rest

/-- The members of an object, with commas between them. -/
def writeMembers : List (String × Json) → List Char
  | [] => []
  | [(name, item)] => quote name ++ ':' :: write item
  | (name, item) :: rest => quote name ++ ':' :: write item ++ ',' :: writeMembers rest

end

/-- The text of a value. -/
def text (j : Json) : String :=
  String.ofList j.write

end Json
end Workflow
