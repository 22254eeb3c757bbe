import Workflow.Document.Conversion
import Workflow.OrderedMap

/-!
# Document stores

A store keeps documents by their ids, in the order of their first saving.  It puts down when a
document was first saved and when last, whatever the document itself says of that; the time of
saving is given to it.

* `Store.save`, `Store.delete` and `Store.get?` are the operations of the map, with their answers.
* `Store.load` converts a stored document to a graph.
-/

namespace Workflow

/-- The documents of a store by their ids. -/
abbrev Store := OrderedMap Document

/-- Why a store gives no graph. -/
inductive StoreError where
  | notFound (id : String)
  | conversion (fault : ConversionError)
deriving DecidableEq, Repr

/-- The message for a fault of a store. -/
def StoreError.message : StoreError → String
  | .notFound id => s!"Workflow '{id}' was not found in the store"
  | .conversion fault => fault.message

namespace Store

/-- The form in which a document is saved at a given time. -/
def stamped (s : Store) (now : Instant) (d : Document) : Document :=
  let createdAt := ((s.get? d.id).bind Document.createdAt).getD now
  { d with createdAt := some createdAt, updatedAt := some now }

/-- Saves a document, in the place of the one with its id if there is one, and gives it back in the
form in which it is kept. -/
def save (s : Store) (now : Instant) (d : Document) : Store × Document :=
  let stored := s.stamped now d
  (s.insert d.id stored, stored)

/-- Deletes the document with an id, and says whether there is one less. -/
def delete (s : Store) (id : String) : Store × Bool :=
  let rest := s.erase id
  (rest, rest.size != s.size)

/-- The documents, in the order of their first saving. -/
def documents (s : Store) : List Document :=
  s.entries.map Prod.snd

/-- The graph of the document with an id. -/
def load (s : Store) (id : String) : Except StoreError Graph :=
  match s.get? id with
  | none => .error (.notFound id)
  | some d => d.toGraph.mapError .conversion

end Store
end Workflow
