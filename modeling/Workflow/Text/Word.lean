import Workflow.Text.WordRanges

/-!
# Whole words

A word is a maximal run of word characters: letters, marks, decimal digits, connecting punctuation
and the two joiners.  A word boundary lies wherever a word character meets anything else, the ends
of the text included.

* `isWord` decides the class, `isBoundary` the boundary between two neighbours.
* `replaceWhole` puts a text in the place of every occurrence of a name that has a word boundary at
  both ends.  The occurrences are found from left to right and do not overlap.
-/

namespace Workflow.Text

/-- A word character. -/
def isWord (c : Char) : Bool :=
  c.isAlphanum || c == '_' ||
    (0x80 ≤ c.toNat && wordRanges.any fun (first, last) => first ≤ c.toNat && c.toNat ≤ last)

/-- Whether a word begins or ends between two neighbours, of which either may be missing. -/
def isBoundary (before after : Option Char) : Bool :=
  before.any isWord != after.any isWord

/-- Whether `name` stands at the front of a text, with a word boundary at both of its ends. -/
def standsAt (name : List Char) (before : Option Char) (cs : List Char) : Bool :=
  name.isPrefixOf cs && isBoundary before cs.head? &&
    isBoundary (name.getLast?.or before) (cs.drop name.length).head?

/-- The worker of `replaceWhole`: `skip` characters of an occurrence are still to be passed over,
and `before` is the character that precedes the rest of the text. -/
def replaceFrom (name replacement : List Char) : Nat → Option Char → List Char → List Char
  | _, before, [] => if name = [] ∧ isBoundary before none then replacement else []
  | skip + 1, _, c :: rest => replaceFrom name replacement skip (some c) rest
  | 0, before, c :: rest =>
    if standsAt name before (c :: rest) then
      match name with
      | [] => replacement ++ c :: replaceFrom name replacement 0 (some c) rest
      | _ :: more => replacement ++ replaceFrom name replacement more.length (some c) rest
    else c :: replaceFrom name replacement 0 (some c) rest

/-- Puts `replacement` in the place of every whole-word occurrence of `name`.  The empty name occurs
at every word boundary. -/
def replaceWhole (name replacement : List Char) (cs : List Char) : List Char :=
  replaceFrom name replacement 0 none cs

end Workflow.Text
