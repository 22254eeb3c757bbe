import Workflow.Json.Basic

/-!
# Reading JSON

The grammar is the strict one: blanks are the space, the tab and the two line ends, numbers have no
leading zeros and a digit on either side of the point, strings hold no raw control characters, and
nothing follows the value but blanks.

* `numberAt?` and `stringAt?` read the two leaves that need work.
* `Json.parse?` reads a whole text.

The functions that read nested values are given three times as much fuel as the text has characters.
Of any three calls that lead to one another at least one takes a character, so a text never runs out
of it.
-/

namespace Workflow.Json

/-! ## Blanks -/

/-- A blank of the grammar. -/
def isBlank (c : Char) : Bool :=
  c == ' ' || c == '\n' || c == '\r' || c == '\t'

/-- Passes over blanks. -/
def skipBlanks (cs : List Char) : List Char :=
  cs.dropWhile isBlank

/-! ## Numbers -/

/-- The fraction at the front of a text: none, or a point and at least one digit. -/
def fractionAt? (cs : List Char) : Option (List Char × List Char) :=
  match cs with
  | '.' :: rest =>
    match Decimal.spanDigits rest with
    | ([], _) => none
    | (digits, rest) => some ('.' :: digits, rest)
  | _ => some ([], cs)

/-- The exponent at the front of a text: none, or `e`, perhaps a sign, and at least one digit. -/
def exponentAt? (cs : List Char) : Option (List Char × List Char) :=
  match cs with
  | e :: rest =>
    if e = 'e' ∨ e = 'E' then
      let (sign, rest) := match rest with
        | '+' :: after => (['+'], after)
        | '-' :: after => (['-'], after)
        | _ => ([], rest)
      match Decimal.spanDigits rest with
      | ([], _) => none
      | (digits, rest) => some (e :: sign ++ digits, rest)
    else some ([], cs)
  | [] => some ([], [])

/-- The digits before the point: a zero, or digits of which the first is none. -/
def wholeAt? (cs : List Char) : Option (List Char × List Char) :=
  match cs with
  | '0' :: rest => some (['0'], rest)
  | _ =>
    match Decimal.spanDigits cs with
    | ([], _) => none
    | (digits, rest) => some (digits, rest)

/-- Reads the number at the front of a text. -/
def numberAt? (cs : List Char) : Option (Json × List Char) := do
  let (isNegative, cs) := match cs with
    | '-' :: rest => (true, rest)
    | _ => (false, cs)
  let (whole, cs) ← wholeAt? cs
  let (fraction, cs) ← fractionAt? cs
  let (exponent, cs) ← exponentAt? cs
  let d ← Decimal.ofText? (whole ++ fraction ++ exponent)
  let n := JsonNumber.ofNumeral? isNegative (fraction.isEmpty && exponent.isEmpty) d
  return (n.elim .unusable .number, cs)

/-! ## Strings -/

/-- The value of a hexadecimal digit. -/
def hexDigit? (c : Char) : Option Nat :=
  if c.isDigit then some (c.toNat - '0'.toNat)
  else if 'a' ≤ c ∧ c ≤ 'f' then some (c.toNat - 'a'.toNat + 10)
  else if 'A' ≤ c ∧ c ≤ 'F' then some (c.toNat - 'A'.toNat + 10)
  else none

/-- The value of four hexadecimal digits. -/
def hexQuad? (a b c d : Char) : Option Nat := do
  return ((← hexDigit? a) * 16 + (← hexDigit? b)) * 256 + (← hexDigit? c) * 16 + (← hexDigit? d)

/-- The code that a short escape stands for. -/
def shortEscape? (c : Char) : Option Nat :=
  match c with
  | '"' | '\\' | '/' => some c.toNat
  | 'b' => some 0x08
  | 'f' => some 0x0C
  | 'n' => some 0x0A
  | 'r' => some 0x0D
  | 't' => some 0x09
  | _ => none

/-- The codes up to the closing quote, and the text after it.  A code is a character's or, from an
escape, half of a surrogate pair. -/
def codesAt? : List Char → Option (List Nat × List Char)
  | [] => none
  | '"' :: rest => some ([], rest)
  | '\\' :: 'u' :: a :: b :: c :: d :: rest => do
    let code ← hexQuad? a b c d
    let (codes, rest) ← codesAt? rest
    return (code :: codes, rest)
  | '\\' :: e :: rest => do
    let code ← shortEscape? e
    let (codes, rest) ← codesAt? rest
    return (code :: codes, rest)
  | c :: rest =>
    if c.toNat < 0x20 ∨ c = '\\' then none
    else (codesAt? rest).map fun (codes, rest) => (c.toNat :: codes, rest)

/-- Whether a code is the first half of a surrogate pair. -/
def isHighHalf (code : Nat) : Bool := 0xD800 ≤ code && code < 0xDC00

/-- Whether a code is the second half of a surrogate pair. -/
def isLowHalf (code : Nat) : Bool := 0xDC00 ≤ code && code < 0xE000

/-- The characters of a list of codes, if every half of a surrogate pair has its other half. -/
def charsOfCodes? : List Nat → Option (List Char)
  | [] => some []
  | [code] => if isHighHalf code || isLowHalf code then none else some [Char.ofNat code]
  | code :: next :: rest =>
    if isHighHalf code then
      if isLowHalf next then
        let c := Char.ofNat (0x10000 + (code - 0xD800) * 0x400 + (next - 0xDC00))
        (charsOfCodes? rest).map (c :: ·)
      else none
    else if isLowHalf code then none
    else (charsOfCodes? (next :: rest)).map (Char.ofNat code :: ·)

/-- Reads a string whose opening quote has been read.  The inner option is empty if the string is
well formed but stands for no text. -/
def stringAt? (cs : List Char) : Option (Option String × List Char) :=
  (codesAt? cs).map fun (codes, rest) => ((charsOfCodes? codes).map String.ofList, rest)

/-! ## Values -/

/-- The object with the members read so far, `unusable` if a name among them stands for no text. -/
def objectOfMembers (members : List (Option String × Json)) : Json :=
  match members.mapM fun (name, item) => name.map (·, item) with
  | some members => .object members
  | none => .unusable

mutual

/-- Reads the value at the front of a text, which starts with no blank. -/
def valueAt? : Nat → List Char → Option (Json × List Char)
  | 0, _ => none
  | fuel + 1, cs =>
    match cs with
    | 'n' :: 'u' :: 'l' :: 'l' :: rest => some (.null, rest)
    | 't' :: 'r' :: 'u' :: 'e' :: rest => some (.bool true, rest)
    | 'f' :: 'a' :: 'l' :: 's' :: 'e' :: rest => some (.bool false, rest)
    | '"' :: rest => (stringAt? rest).map fun (s, rest) => (s.elim .unusable .string, rest)
    | '[' :: rest =>
      match skipBlanks rest with
      | ']' :: rest => some (.array [], rest)
      | rest => (itemsAt? fuel rest).map fun (items, rest) => (.array items, rest)
    | '\x7b' :: rest =>
      match skipBlanks rest with
      | '\x7d' :: rest => some (.object [], rest)
      | rest => (membersAt? fuel rest).map fun (members, rest) => (objectOfMembers members, rest)
    | _ => numberAt? cs

/-- Reads the items of an array and the bracket that ends it. -/
def itemsAt? : Nat → List Char → Option (List Json × List Char)
  | 0, _ => none
  | fuel + 1, cs =>
    match valueAt? fuel cs with
    | none => none
    | some (item, rest) =>
      match skipBlanks rest with
      | ',' :: rest =>
        (itemsAt? fuel (skipBlanks rest)).map fun (items, rest) => (item :: items, rest)
      | ']' :: rest => some ([item], rest)
      | _ => none

/-- Reads the members of an object and the brace that ends it. -/
def membersAt? : Nat → List Char → Option (List (Option String × Json) × List Char)
  | 0, _ => none
  | fuel + 1, cs =>
    match memberAt? fuel cs with
    | none => none
    | some (member, rest) =>
      match skipBlanks rest with
      | ',' :: rest =>
        (membersAt? fuel (skipBlanks rest)).map fun (members, rest) => (member :: members, rest)
      | '\x7d' :: rest => some ([member], rest)
      | _ => none

/-- Reads one member of an object. -/
def memberAt? : Nat → List Char → Option ((Option String × Json) × List Char)
  | 0, _ => none
  | fuel + 1, cs =>
    match cs with
    | '"' :: rest =>
      match stringAt? rest with
      | none => none
      | some (name, rest) =>
        match skipBlanks rest with
        | ':' :: rest =>
          (valueAt? fuel (skipBlanks rest)).map fun (item, rest) => ((name, item), rest)
        | _ => none
    | _ => none

end

/-- Reads a text that is one value, with blanks around it. -/
def parse? (source : String) : Option Json :=
  let cs := skipBlanks source.toList
  match valueAt? (3 * cs.length + 1) cs with
  | some (j, rest) => if skipBlanks rest = [] then some j else none
  | none => none

end Workflow.Json
