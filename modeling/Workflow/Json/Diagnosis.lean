import Workflow.Json.Reader
import Workflow.Json.Shape

/-!
# What is wrong with a JSON text

A text that cannot be read is gone through from its front to the first place at which it can no
longer be read as a value of the expected shape.  Where nobody looks at a value, only its form
counts: strings may hold half of a surrogate pair, numbers may be of any size and arrays and objects
may be nested to any depth.

* `passNumber`, `passString` and `leafAt` pass over the leaves, `passValue` over a value.
* `faultOf` is the fault of a whole text.

The functions that pass over nested values are given more fuel than the text has characters to
spend it on.
-/

namespace Workflow.Json

/-! ## Words and numbers -/

/-- Passes over the rest of a word. -/
def passWord : List Char → List Char → Except Snag (List Char)
  | [], cs => .ok cs
  | _ :: _, [] => .error (.before [] (.endIn .value))
  | w :: word, c :: rest =>
    if w = c then passWord word rest else .error (.past (c :: rest) .wordExpected)

/-- Passes over one digit or more. -/
def passDigits (isIgnored : Bool) (cs : List Char) : Except Snag (List Char) :=
  match Decimal.spanDigits cs with
  | ([], []) => .error (.before [] (if isIgnored then .invalidNumber else .endIn .value))
  | ([], _) => .error (.past cs .invalidNumber)
  | (_, rest) => .ok rest

/-- Passes over the digits before the point: a zero, or digits of which the first is none. -/
def passWhole (isIgnored : Bool) (cs : List Char) : Except Snag (List Char) :=
  match cs with
  | '0' :: c :: rest =>
    if c.isDigit then .error (.past (c :: rest) .invalidNumber) else .ok (c :: rest)
  | _ => passDigits isIgnored cs

/-- Passes over a sign. -/
def skipSign : List Char → List Char
  | '+' :: rest | '-' :: rest => rest
  | cs => cs

/-- Passes over a fraction, if there is one. -/
def passFraction (isIgnored : Bool) : List Char → Except Snag (List Char)
  | '.' :: rest => passDigits isIgnored rest
  | cs => .ok cs

/-- Passes over an exponent, if there is one. -/
def passExponent (isIgnored : Bool) : List Char → Except Snag (List Char)
  | 'e' :: rest | 'E' :: rest => passDigits isIgnored (skipSign rest)
  | cs => .ok cs

/-- Passes over a number. -/
def passNumber (isIgnored : Bool) (cs : List Char) : Except Snag (List Char) := do
  let cs := match cs with
    | '-' :: rest => rest
    | _ => cs
  passExponent isIgnored (← passFraction isIgnored (← passWhole isIgnored cs))

/-- The exponents from here on are too great to be counted. -/
def exponentLimit : Nat := 0x80000000

/-- Passes over the digits of an exponent, given the value of those before, up to the digit that
takes it to the limit. -/
def passCounted (value : Nat) : List Char → List Char
  | [] => []
  | c :: rest =>
    if value < exponentLimit && c.isDigit then
      passCounted (10 * value + (c.toNat - '0'.toNat)) rest
    else c :: rest

/-- The text after the place at which a number turns out to be too great: the end of the number, if
its exponent can be counted. -/
def afterTooGreat (cs : List Char) : List Char :=
  match cs.dropWhile fun c => c.isDigit || c == '-' || c == '.' with
  | 'e' :: rest | 'E' :: rest => passCounted 0 (skipSign rest)
  | rest => rest

/-! ## Strings -/

/-- What is wrong with an escape that should go on with four hexadecimal digits. -/
def hexSnag (rest : List Char) : Snag :=
  let left := Text.byteLength rest
  if left < 4 then .before [] (.endIn .string) else ⟨.invalidEscape, left - 4⟩

/-- Passes over a string whose opening quote has been passed; `isOpen` says that the first half of a
surrogate pair has just been passed. -/
def passString (isIgnored : Bool) : Bool → List Char → Except Snag (List Char)
  | _, [] => .error (.before [] (.endIn .string))
  | false, '"' :: rest => .ok rest
  | isOpen, '\\' :: 'u' :: a :: b :: c :: d :: rest =>
    match hexQuad? a b c d with
    | none => .error (hexSnag (a :: b :: c :: d :: rest))
    | some code =>
      if isIgnored then passString isIgnored false rest
      else if isLowHalf code == isOpen then passString isIgnored (isHighHalf code) rest
      else .error (.before rest .wrongHalf)
  | _, '\\' :: 'u' :: rest => .error (hexSnag rest)
  | _, ['\\'] => .error (.before [] (.endIn .string))
  | isOpen, '\\' :: e :: rest =>
    if isOpen then .error (.past (e :: rest) .missingHalf)
    else if (shortEscape? e).isSome then passString isIgnored false rest
    else .error (.past (e :: rest) .invalidEscape)
  | isOpen, c :: rest =>
    if isOpen then .error (.past (c :: rest) .missingHalf)
    else if 0x20 ≤ c.toNat then passString isIgnored false rest
    else if isIgnored then .error (.before (c :: rest) .controlCharacter)
    else .error (.past (c :: rest) .controlCharacter)

/-- The string whose opening quote has been passed, if it is one. -/
def stringOf (cs : List Char) : String :=
  ((stringAt? cs).bind Prod.fst).getD ""

/-! ## Values -/

/-- The leaf at the front of a text, and the text after it.  An array or an object is not passed
over and stands for its kind. -/
def leafAt (isIgnored : Bool) (cs : List Char) : Except Snag (Json × List Char) := do
  match cs with
  | [] => .error (.before [] (.endIn .value))
  | '[' :: _ => return (.array [], cs)
  | '\x7b' :: _ => return (.object [], cs)
  | '"' :: rest => return (.string (stringOf rest), ← passString isIgnored false rest)
  | 'n' :: rest => return (.null, ← passWord ['u', 'l', 'l'] rest)
  | 't' :: rest => return (.bool true, ← passWord ['r', 'u', 'e'] rest)
  | 'f' :: rest => return (.bool false, ← passWord ['a', 'l', 's', 'e'] rest)
  | c :: _ =>
    if c.isDigit || c == '-' then
      let rest ← passNumber isIgnored cs
      match numberAt? cs with
      | some (.number n, _) => return (.number n, rest)
      | _ =>
        if isIgnored then return (.null, rest)
        else .error (.before (afterTooGreat cs) .numberTooGreat)
    else .error (.past cs .valueExpected)

/-- Passes over the end of an array that should have no more items. -/
def passEnd (cs : List Char) : Except Snag (List Char) :=
  match skipBlanks cs with
  | [] => .error (.before [] (.endIn .list))
  | ']' :: rest => .ok rest
  | ',' :: rest =>
    match skipBlanks rest with
    | ']' :: rest => .error (.past (']' :: rest) .trailingComma)
    | rest => .error (.past rest .trailingText)
  | rest => .error (.past rest .trailingText)

/-- Passes to what goes before the next item of an array: nothing before the first one, else a
comma. -/
def passSeparator (isIgnored isFirst : Bool) (cs : List Char) : Except Snag (List Char) :=
  if isFirst then .ok cs
  else
    match cs with
    | ',' :: rest =>
      match skipBlanks rest with
      | ']' :: rest =>
        .error (.past (']' :: rest) (if isIgnored then .valueExpected else .trailingComma))
      | rest => .ok rest
    | _ => .error (.past cs .listGoesOn)

/-- Passes to what goes before the next name of an object: nothing before the first one, else a
comma. -/
def passNameSeparator (isIgnored isFirst : Bool) (cs : List Char) : Except Snag (List Char) :=
  if isFirst then .ok cs
  else
    match cs with
    | ',' :: rest =>
      match skipBlanks rest with
      | [] => .error (.before [] (.endIn (if isIgnored then .object else .value)))
      | '\x7d' :: rest =>
        .error (.past ('\x7d' :: rest) (if isIgnored then .nameExpected else .trailingComma))
      | rest => .ok rest
    | _ => .error (.past cs .objectGoesOn)

/-- Ends a value that there may be something to say against. -/
def settle (rest : List Char) : Option Cause → Except Snag (List Char)
  | none => .ok rest
  | some cause => .error (.before rest cause)

/-- The text after a name that should not stand there.  A brace right after it counts as passed. -/
def afterRepeated (cs : List Char) : List Char :=
  match skipBlanks cs with
  | '\x7d' :: rest => rest
  | rest => rest

mutual

/-- Passes over a value of a given shape that may be nested to a given depth. -/
def passValue : Nat → Nat → Shape → List Char → Except Snag (List Char)
  | 0, _, _, cs => .error (.past cs .tooDeep)
  | fuel + 1, depth, .optional inner, cs =>
    match skipBlanks cs with
    | 'n' :: rest => passWord ['u', 'l', 'l'] rest
    | cs => passValue fuel depth inner cs
  | fuel + 1, depth, shape, cs => do
    let cs := skipBlanks cs
    let (found, rest) ← leafAt shape.isIgnored cs
    match shape.objection found with
    | some cause => .error (.before rest cause)
    | none =>
      match found, cs with
      | .array _, _ :: inside =>
        if depth = 0 && !shape.isIgnored then .error (.past cs .tooDeep)
        else
          match shape with
          | .record _ _ => passFields fuel (depth - 1) shape 0 inside
          | .list item => passItems fuel (depth - 1) item true inside
          | shape => passItems fuel (depth - 1) shape true inside
      | .object _, _ :: inside =>
        if depth = 0 && !shape.isIgnored then .error (.past cs .tooDeep)
        else passMembers fuel (depth - 1) shape [] inside
      | _, _ => .ok rest

/-- Passes over the items of an array that are left, and its end. -/
def passItems : Nat → Nat → Shape → Bool → List Char → Except Snag (List Char)
  | 0, _, _, _, cs => .error (.past cs .tooDeep)
  | fuel + 1, depth, item, isFirst, cs =>
    match skipBlanks cs with
    | [] => .error (.before [] (.endIn .list))
    | ']' :: rest => .ok rest
    | cs => do
      let cs ← passSeparator item.isIgnored isFirst cs
      passItems fuel depth item false (← passValue fuel depth item cs)

/-- Passes over the fields of a record that is written as an array, from the one after a
number of them on, and the end of the array. -/
def passFields : Nat → Nat → Shape → Nat → List Char → Except Snag (List Char)
  | 0, _, _, _, cs => .error (.past cs .tooDeep)
  | fuel + 1, depth, shape, done, cs =>
    match shape.fields[done]? with
    | none => passEnd cs
    | some field =>
      match skipBlanks cs with
      | [] => .error (.before [] (.endIn .list))
      | ']' :: rest => settle rest (shape.tooShort? done)
      | cs => do
        let rest ← passValue fuel depth field.shape (← passSeparator false (done == 0) cs)
        passFields fuel depth shape (done + 1) rest

/-- Passes over the members of an object that are left, given the names of those before, and its
end. -/
def passMembers : Nat → Nat → Shape → List String → List Char → Except Snag (List Char)
  | 0, _, _, _, cs => .error (.past cs .tooDeep)
  | fuel + 1, depth, shape, earlier, cs =>
    match skipBlanks cs with
    | [] => .error (.before [] (.endIn .object))
    | '\x7d' :: rest => settle rest (shape.missing? earlier)
    | cs => do
      let cs ← passNameSeparator shape.isIgnored earlier.isEmpty cs
      match cs with
      | '"' :: rest =>
        let after ← passString shape.isIgnored false rest
        let name := stringOf rest
        match shape.repeated? earlier name with
        | some cause => .error (.before (afterRepeated after) cause)
        | none =>
          match skipBlanks after with
          | ':' :: rest =>
            passMembers fuel depth shape (name :: earlier)
              (← passValue fuel depth (shape.member name) rest)
          | [] => .error (.before [] (.endIn .object))
          | cs => .error (.past cs .colonExpected)
      | cs => .error (.past cs .nameExpected)

end

/-- What is wrong with a text from which a value of a given shape cannot be read.  If nothing is
wrong with the value, it is what follows it. -/
def faultOf (shape : Shape) (source : String) : Fault :=
  let cs := source.toList
  match passValue (4 * cs.length + 4) maxNesting shape cs with
  | .error snag => snag.fault source
  | .ok rest => (Snag.past (skipBlanks rest) .trailingText).fault source

end Workflow.Json
