import Workflow.Json.Basic

/-!
# Reading records

A record is written as an object whose members may stand in any order, or as an array of its fields
in the order of their declaration.  Members that no field is named for are ignored, and a field that
is given twice, be it under two of its names, makes the record unreadable.

* `Json.slots?` finds what a value gives for each of a list of fields.
* `required`, `optional` and `defaulted` read a field from its slot.
* The readers `Json.string?`, `Json.float?`, `Json.natural?`, `Json.list?` and `Json.choice?` read
  what stands in a field.
-/

namespace Workflow

namespace Json

/-! ## Fields -/

/-- The names that a field goes by. -/
abbrev FieldNames := List String

/-- What an object gives for a field; nothing at all if the field is given twice. -/
def slot? (members : List (String × Json)) (names : FieldNames) : Option (Option Json) :=
  match members.filter (names.contains ·.1) with
  | [] => some none
  | [(_, item)] => some (some item)
  | _ => none

/-- What a value gives for each of the fields of a record. -/
def slots? (fields : List FieldNames) : Json → Option (List (Option Json))
  | .object members => fields.mapM (slot? members)
  | .array items =>
    if items.length ≤ fields.length then
      some (items.map some ++ List.replicate (fields.length - items.length) none)
    else none
  | _ => none

/-- A field that has to be given. -/
def required {α : Type} (read : Json → Option α) (slot : Option Json) : Option α :=
  slot.bind read

/-- A field that may be missing or null. -/
def optional {α : Type} (read : Json → Option α) : Option Json → Option (Option α)
  | none | some .null => some none
  | some j => (read j).map some

/-- A field that has a default where it is missing. -/
def defaulted {α : Type} (default : α) (read : Json → Option α) : Option Json → Option α
  | none => some default
  | some j => read j

/-! ## What stands in a field -/

/-- Reads a string. -/
def string? : Json → Option String
  | .string s => some s
  | _ => none

/-- Reads a number of any kind as floating-point. -/
def float? : Json → Option Float
  | .number n => some n.toFloat
  | _ => none

/-- Reads a natural number of sixty-four bits. -/
def natural? : Json → Option UInt64
  | .number (.natural n) => some n
  | _ => none

/-- Reads an array, item by item. -/
def list? {α : Type} (read : Json → Option α) : Json → Option (List α)
  | .array items => items.mapM read
  | _ => none

/-- Reads one of a list of named alternatives: its name, or an object with null under its name. -/
def choice? {α : Type} (alternatives : List (String × α)) : Json → Option α
  | .string name => alternatives.lookup name
  | .object [(name, .null)] => alternatives.lookup name
  | _ => none

/-! ## Writing -/

/-- A floating-point number, or null for one that JSON has no number for. -/
def ofFloat (x : Float) : Json :=
  (JsonNumber.ofFloat? x).elim .null .number

/-- The member of an object for a field that is left out when it has no value. -/
def optionalMember {α : Type} (name : String) (encode : α → Json) :
    Option α → List (String × Json)
  | none => []
  | some a => [(name, encode a)]

end Json
end Workflow
