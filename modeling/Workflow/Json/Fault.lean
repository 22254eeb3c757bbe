import Workflow.Text.Bytes

/-!
# Faults of JSON texts

What is wrong with a JSON text, and where.  A place is given by its line, counted from one, and by
the number of bytes that stand before it in the line.

* `Cause` is what is wrong, `Cause.message` says it in words.
* `Snag` is a cause and the number of bytes that are left after its place; `Snag.before` and
  `Snag.past` put a cause before or after the next byte of a text.
* `Fault` is a cause and its place, `Fault.message` the whole message.
-/

namespace Workflow.Json

/-! ## Causes -/

/-- What a text may end in the middle of. -/
inductive Construct where
  | value
  | list
  | object
  | string
deriving DecidableEq, Repr

/-- What is wrong at one place. -/
inductive Cause where
  | endIn (construct : Construct)
  | valueExpected
  | wordExpected
  | colonExpected
  | nameExpected
  | listGoesOn
  | objectGoesOn
  | trailingComma
  | trailingText
  | invalidNumber
  | numberTooGreat
  | invalidEscape
  | controlCharacter
  /-- Half of a surrogate pair with a wrong other half. -/
  | wrongHalf
  /-- Half of a surrogate pair with nothing like another half after it. -/
  | missingHalf
  | tooDeep
  | wrongKind (found expected : String)
  | wrongValue (found expected : String)
  | wrongLength (length : Nat) (expected : String)
  | missingField (name : String)
  | repeatedField (name : String)
  /-- A string that its reader has something to say against. -/
  | refused (message : String)
deriving DecidableEq, Repr

/-- The words for what a text may end in the middle of. -/
def Construct.name : Construct → String
  | .value => "a value"
  | .list => "a list"
  | .object => "an object"
  | .string => "a string"

/-- The words for a cause. -/
def Cause.message : Cause → String
  | .endIn construct => "EOF while parsing " ++ construct.name
  | .valueExpected => "expected value"
  | .wordExpected => "expected ident"
  | .colonExpected => "expected `:`"
  | .nameExpected => "key must be a string"
  | .listGoesOn => "expected `,` or `]`"
  | .objectGoesOn => "expected `,` or `\x7d`"
  | .trailingComma => "trailing comma"
  | .trailingText => "trailing characters"
  | .invalidNumber => "invalid number"
  | .numberTooGreat => "number out of range"
  | .invalidEscape => "invalid escape"
  | .controlCharacter => "control character (\\u0000-\\u001F) found while parsing a string"
  | .wrongHalf => "lone leading surrogate in hex escape"
  | .missingHalf => "unexpected end of hex escape"
  | .tooDeep => "recursion limit exceeded"
  | .wrongKind found expected => s!"invalid type: {found}, expected {expected}"
  | .wrongValue found expected => s!"invalid value: {found}, expected {expected}"
  | .wrongLength length expected => s!"invalid length {length}, expected {expected}"
  | .missingField name => s!"missing field `{name}`"
  | .repeatedField name => s!"duplicate field `{name}`"
  | .refused message => message

/-! ## Places -/

/-- A cause, and the number of bytes of the text that are left after its place. -/
structure Snag where
  cause : Cause
  left : Nat
deriving DecidableEq, Repr

namespace Snag

/-- A cause right before the rest of a text. -/
def before (rest : List Char) (cause : Cause) : Snag :=
  ⟨cause, Text.byteLength rest⟩

/-- A cause after the next byte of the rest of a text, or at the end if there is none. -/
def past (rest : List Char) (cause : Cause) : Snag :=
  ⟨cause, Text.byteLength rest - 1⟩

end Snag

/-- What is wrong with a text, and where. -/
structure Fault where
  cause : Cause
  line : Nat
  column : Nat
deriving DecidableEq, Repr

/-- The fault that a snag is in a whole text. -/
def Snag.fault (s : Snag) (source : String) : Fault :=
  let before := source.toUTF8.toList.take (source.utf8ByteSize - s.left)
  let isLineEnd (b : UInt8) : Bool := b == 10
  { cause := s.cause
    line := before.countP isLineEnd + 1
    column := (before.reverse.takeWhile fun b => !isLineEnd b).length }

/-- The message for a fault. -/
def Fault.message (f : Fault) : String :=
  s!"{f.cause.message} at line {f.line} column {f.column}"

end Workflow.Json
