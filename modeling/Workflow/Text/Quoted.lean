import Workflow.Text.EscapedRanges

/-!
# Quoted texts

A string inside a printed expression stands between double quotes.  The quote and the backslash are
written after a backslash, five control characters by a letter or digit, and every other character
that would not show by its code point: `\u{301}`.

* `escape` is what one character becomes.
* `quote` is the whole quoted text.
-/

namespace Workflow.Text

/-- Whether a character is written by its code point. -/
def isSpeltOut (c : Char) : Bool :=
  let n := c.toNat
  n < 0x20 || n == 0x7F ||
    (0x80 ≤ n && escapedRanges.any fun (first, last) => first ≤ n && n ≤ last)

/-- What a character becomes between quotes. -/
def escape (c : Char) : List Char :=
  if c = '"' then ['\\', '"']
  else if c = '\\' then ['\\', '\\']
  else if c = '\n' then ['\\', 'n']
  else if c = '\r' then ['\\', 'r']
  else if c = '\t' then ['\\', 't']
  else if c = '\x00' then ['\\', '0']
  else if isSpeltOut c then
    ['\\', 'u', '\x7b'] ++ Nat.toDigits 16 c.toNat ++ ['\x7d']
  else [c]

/-- A text between double quotes. -/
def quote (cs : List Char) : List Char :=
  '"' :: cs.flatMap escape ++ ['"']

end Workflow.Text
