import Workflow.Expr.Error
import Workflow.Text.Bytes

/-!
# Reading tokens

A text is read from left to right: blanks are passed over and at every other character the longest
lexeme is taken.

* `numberText`, `stringBody` and `symbolAt?` delimit the lexemes that are not just runs of a class.
* `lexeme` reads the one token at the front of a text and says how many characters it took.
* `tokenize` reads them all; it fails at the first lexeme that is none.
-/

namespace Workflow

/-! ## Character classes -/

/-- A character that an identifier may start with. -/
def isIdentStart (c : Char) : Bool :=
  c.isAlpha || c == '_' || c == '$'

/-- A character that an identifier may go on with. -/
def isIdentContinue (c : Char) : Bool :=
  isIdentStart c || c.isDigit

/-! ## Lexemes -/

/-- The exponent at the front of a text: `e`, perhaps a sign, and the digits that follow.  There may
be no digits, in which case the number is refused later. -/
def exponentText : List Char → List Char
  | e :: rest =>
    if e = 'e' ∨ e = 'E' then
      match rest with
      | '+' :: after => e :: '+' :: after.takeWhile Char.isDigit
      | '-' :: after => e :: '-' :: after.takeWhile Char.isDigit
      | after => e :: after.takeWhile Char.isDigit
    else []
  | [] => []

/-- The number at the front of a text: digits, perhaps a point and more digits, and, if there was a
digit, perhaps an exponent. -/
def numberText (cs : List Char) : List Char :=
  let (whole, rest) := Decimal.spanDigits cs
  let fraction := match rest with
    | '.' :: after => '.' :: after.takeWhile Char.isDigit
    | _ => []
  let mantissa := whole ++ fraction
  if mantissa.any Char.isDigit then mantissa ++ exponentText (cs.drop mantissa.length)
  else mantissa

/-- The character that an escape stands for. -/
def unescape : Char → Char
  | 'n' => '\n'
  | 't' => '\t'
  | 'r' => '\r'
  | c => c

/-- The characters of a string up to its closing quote, and how many characters were read, the
closing quote included.  A line feed may stand in a string only after a backslash. -/
def stringBody (close : Char) : List Char → Option (List Char × Nat)
  | [] => none
  | c :: rest =>
    if c = close then some ([], 1)
    else if c = '\\' then
      match rest with
      | [] => none
      | e :: rest => (stringBody close rest).map fun (s, n) => (unescape e :: s, n + 2)
    else if c = '\n' then none
    else (stringBody close rest).map fun (s, n) => (c :: s, n + 1)

/-- The longest symbol that starts with a character, and its length. -/
def symbolAt? (c : Char) (rest : List Char) : Option (Symbol × Nat) :=
  match c, rest with
  | '+', _ => some (.plus, 1)
  | '-', _ => some (.minus, 1)
  | '*', _ => some (.star, 1)
  | '/', _ => some (.slash, 1)
  | '(', _ => some (.openParen, 1)
  | ')', _ => some (.closeParen, 1)
  | ',', _ => some (.comma, 1)
  | '<', '=' :: _ => some (.lessEqual, 2)
  | '<', _ => some (.less, 1)
  | '>', '=' :: _ => some (.greaterEqual, 2)
  | '>', _ => some (.greater, 1)
  | '=', '=' :: '=' :: _ => some (.strictEqual, 3)
  | '=', '=' :: _ => some (.equal, 2)
  | '!', '=' :: '=' :: _ => some (.strictNotEqual, 3)
  | '!', '=' :: _ => some (.notEqual, 2)
  | '!', _ => some (.bang, 1)
  | '&', '&' :: _ => some (.and, 2)
  | '|', '|' :: _ => some (.or, 2)
  | _, _ => none

/-- Reads the number at the front of a text, at a byte offset.  A number may not run into an
identifier. -/
def numberLexeme (offset : Nat) (cs : List Char) : Except ExprError (Token × Nat) :=
  let text := numberText cs
  match (cs.drop text.length).head?.filter isIdentStart with
  | some c => .error (.invalidNumber (String.ofList (text ++ [c])))
  | none =>
    if text = ['.'] then .error (.unexpectedCharacter '.' offset)
    else
      match Decimal.ofText? text with
      | some d => .ok (.number d.toFloat, text.length)
      | none => .error (.invalidNumber (String.ofList text))

/-- Reads the token at the front of a text that starts with `c`, at a byte offset, and counts the
characters that it takes. -/
def lexeme (offset : Nat) (c : Char) (rest : List Char) : Except ExprError (Token × Nat) :=
  if c.isDigit || c == '.' then numberLexeme offset (c :: rest)
  else if c == '"' || c == '\'' then
    match stringBody c rest with
    | some (s, n) => .ok (.string (String.ofList s), n + 1)
    | none => .error (.unterminatedString offset)
  else if isIdentStart c then
    let name := c :: rest.takeWhile isIdentContinue
    .ok (.ident (String.ofList name), name.length)
  else
    match symbolAt? c rest with
    | some (s, n) => .ok (.symbol s, n)
    | none => .error (.unexpectedCharacter c offset)

/-! ## Whole texts -/

/-- The tokens of a text that starts at a byte offset. -/
def tokenizeFrom (offset : Nat) : List Char → Except ExprError (List Token)
  | [] => .ok []
  | c :: rest =>
    if Text.isBlank c then tokenizeFrom (offset + c.utf8Size) rest
    else
      match lexeme offset c rest with
      | .error fault => .error fault
      | .ok (token, width) =>
        let taken := c :: rest.take (width - 1)
        (tokenizeFrom (offset + Text.byteLength taken) (rest.drop (width - 1))).map (token :: ·)
termination_by cs => cs.length
decreasing_by
  · simp
  · simp only [List.length_drop, List.length_cons]; omega

/-- The tokens of a text. -/
def tokenize (source : String) : Except ExprError (List Token) :=
  tokenizeFrom 0 source.toList

end Workflow
