import Workflow.Decimal.Layout

/-!
# JSON values

The trees that JSON texts stand for.  Three kinds of number are told apart, as each prints in its
own way: natural numbers of sixty-four bits, negative whole numbers of sixty-four bits, and
floating-point numbers for all the rest.

A text may be well formed and still stand for no value: a number may exceed every finite
floating-point number, and a string may hold half of a surrogate pair.  Such a place becomes
`Json.unusable`, so that whoever ignores the member it stands in need not mind.

* `Json.isUsable` says that a tree can be taken as a value: nothing in it is unusable and it is not
  nested too deep.

Floating-point numbers are taken to be read exactly: `JsonNumber.ofNumeral?` gives the one that is
nearest to the numeral, the even one of two.  A reader that rounds in between may miss it by one unit
in the last place where a numeral is long; here none does.
-/

namespace Workflow

/-- The greatest magnitude of a negative whole number of sixty-four bits. -/
def greatestNegative : Nat := 0x8000000000000000

/-- A number as JSON keeps it. -/
inductive JsonNumber where
  | natural (n : UInt64)
  | negative (magnitude : Nat) (bounds : 0 < magnitude ∧ magnitude ≤ greatestNegative)
  | float (x : Float) (finite : x.isFinite = true)
deriving DecidableEq

/-- A JSON value.  The members of an object keep their order, and a name may stand twice. -/
inductive Json where
  | null
  | bool (b : Bool)
  | number (n : JsonNumber)
  | string (s : String)
  | array (items : List Json)
  | object (members : List (String × Json))
  | unusable

namespace JsonNumber

/-- The floating-point number nearest to a number. -/
def toFloat : JsonNumber → Float
  | .natural n => Decimal.toFloat ⟨n.toNat, 0⟩
  | .negative m _ => -Decimal.toFloat ⟨m, 0⟩
  | .float x _ => x

/-- A floating-point number as a JSON number; NaN and the infinities are none. -/
def ofFloat? (x : Float) : Option JsonNumber :=
  if h : x.isFinite = true then some (.float x h) else none

/-- The number with a sign and a numeral; `whole` says that the numeral has neither a fraction nor
an exponent.  Whole numbers beyond sixty-four bits and a negative zero become floating-point. -/
def ofNumeral? (isNegative whole : Bool) (d : Decimal) : Option JsonNumber :=
  let float := ofFloat? (if isNegative then -d.toFloat else d.toFloat)
  if whole then
    if isNegative then
      if h : 0 < d.digits ∧ d.digits ≤ greatestNegative then some (.negative d.digits h) else float
    else if d.digits < UInt64.size then some (.natural (UInt64.ofNat d.digits))
    else float
  else float

end JsonNumber

namespace Json

/-- How deep arrays and objects may be nested in a value. -/
def maxNesting : Nat := 127

mutual

/-- Whether a tree is a value that is nested at most `depth` deep. -/
def isUsableAt (depth : Nat) : Json → Bool
  | .null | .bool _ | .number _ | .string _ => true
  | .unusable => false
  | .array items => 0 < depth && areUsableItems (depth - 1) items
  | .object members => 0 < depth && areUsableMembers (depth - 1) members

/-- Whether all items of an array are usable at a depth. -/
def areUsableItems (depth : Nat) : List Json → Bool
  | [] => true
  | item :: rest => isUsableAt depth item && areUsableItems depth rest

/-- Whether all members of an object are usable at a depth. -/
def areUsableMembers (depth : Nat) : List (String × Json) → Bool
  | [] => true
  | (_, item) :: rest => isUsableAt depth item && areUsableMembers depth rest

end

theorem areUsableItems_iff {depth : Nat} {items : List Json} :
    areUsableItems depth items = true ↔ ∀ item ∈ items, item.isUsableAt depth = true := by
  induction items with
  | nil => simp [areUsableItems]
  | cons item rest ih => rw [areUsableItems, Bool.and_eq_true, ih, List.forall_mem_cons]

theorem areUsableMembers_iff {depth : Nat} {members : List (String × Json)} :
    areUsableMembers depth members = true ↔ ∀ m ∈ members, m.2.isUsableAt depth = true := by
  induction members with
  | nil => simp [areUsableMembers]
  | cons m rest ih => rw [areUsableMembers, Bool.and_eq_true, ih, List.forall_mem_cons]

/-- Whether a tree can be taken as a value. -/
def isUsable (j : Json) : Bool :=
  j.isUsableAt maxNesting

end Json
end Workflow
