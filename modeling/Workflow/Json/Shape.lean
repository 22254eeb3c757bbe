import Workflow.Json.Fault
import Workflow.Json.Record
import Workflow.Json.Writer
import Workflow.Text.Quoted

/-!
# Shapes of JSON values

What a reader expects of a JSON value: its kind and, for arrays and records, the shapes of what is
in it.  A shape says no more than whether a value will do, and if not, in which words to say so.

* `Shape.objection` is what a shape has against a leaf, or against an array or an object as such.
* `Shape.member` is the shape of a member, `Shape.missing?` a member that is not there but should.
-/

namespace Workflow.Json

/-- A field of a record: the names it goes by, whether it has to be given, and its shape. -/
structure Field (σ : Type) where
  names : FieldNames
  isRequired : Bool
  shape : σ

/-- What a reader expects of a value. -/
inductive Shape where
  /-- Any value at all. -/
  | any
  /-- A value that nobody looks at. -/
  | ignored
  /-- A string, described in words, that there may be something to say against. -/
  | text (description : String) (complaint? : String → Option String)
  | number
  | natural
  | optional (inner : Shape)
  | list (item : Shape)
  | record (name : String) (fields : List (Field Shape))

/-- A leaf of a JSON value, or the kind of an array or an object, in words. -/
def kindText : Json → String
  | .null | .unusable => "null"
  | .bool b => s!"boolean `{b}`"
  | .number (.float x h) =>
    let shown := (Json.number (.float x h)).text
    s!"floating point `{shown}`"
  | .number n =>
    let shown := (Json.number n).text
    s!"integer `{shown}`"
  | .string s =>
    let shown := String.ofList (Text.quote s.toList)
    s!"string {shown}"
  | .array _ => "sequence"
  | .object _ => "map"

namespace Shape

/-- Any string. -/
def string : Shape :=
  .text "a string" fun _ => none

/-- A record with fields that go by the given names. -/
def ofFields (name : String) (names : List FieldNames) (specs : List (Bool × Shape)) : Shape :=
  .record name ((names.zip specs).map fun (names, isRequired, shape) => ⟨names, isRequired, shape⟩)

/-- Whether nobody looks at the value. -/
def isIgnored : Shape → Bool
  | .ignored => true
  | _ => false

/-- What a shape expects, in words. -/
def description : Shape → String
  | .any | .ignored => "any value"
  | .text description _ => description
  | .number => "f64"
  | .natural => "u64"
  | .optional _ => "option"
  | .list _ => "a sequence"
  | .record name _ => "struct " ++ name

/-- What a shape has against a leaf, or against an array or an object as such. -/
def objection (s : Shape) (j : Json) : Option Cause :=
  match s, j with
  | .any, _ | .ignored, _ => none
  | .text _ complaint?, .string t => (complaint? t).map .refused
  | .number, .number _ | .natural, .number (.natural _) => none
  | .natural, .number (.negative _ _) => some (.wrongValue j.kindText s.description)
  | .list _, .array _ | .record _ _, .array _ | .record _ _, .object _ => none
  | _, _ => some (.wrongKind j.kindText s.description)

/-- The fields of a shape, in order. -/
def fields : Shape → List (Field Shape)
  | .record _ fields => fields
  | _ => []

/-- The field that a name stands for. -/
def field? (s : Shape) (name : String) : Option (Field Shape) :=
  s.fields.find? fun f => f.names.contains name

/-- The shape of the member with a name.  Nobody looks at a member that no field is named for. -/
def member (s : Shape) (name : String) : Shape :=
  match s with
  | .record _ _ => ((s.field? name).map Field.shape).getD .ignored
  | s => s

/-- What is wrong with a member, given the names before it: that its field has been given. -/
def repeated? (s : Shape) (earlier : List String) (name : String) : Option Cause := do
  let f ← s.field? name
  if earlier.any f.names.contains then some (.repeatedField (f.names.headD name)) else none

/-- What is wrong with an object of members with the given names: that a field is missing. -/
def missing? (s : Shape) (given : List String) : Option Cause := do
  let f ← s.fields.find? fun f => f.isRequired && !given.any f.names.contains
  return .missingField (f.names.headD "")

/-- What is wrong with an array of a given length: that it ends before a field that has to be
given. -/
def tooShort? (s : Shape) (length : Nat) : Option Cause := do
  let missing ← (s.fields.drop length).findIdx? Field.isRequired
  let count := s.fields.length
  return .wrongLength (length + missing) s!"{s.description} with {count} elements"

end Shape
end Workflow.Json
