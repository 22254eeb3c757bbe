/-!
# Insertion-ordered maps

Finite maps from names to values that remember in which order their names came in.  Giving a name
that is present a new value leaves it where it stands; a new name goes last.

* `OrderedMap.insert`, `OrderedMap.erase` and `OrderedMap.get?` are the operations.
* `get?_insert`, `get?_erase`, `keys_insert` and `keys_erase` say what they do to the two views of a
  map: what a name is bound to, and which names there are in which order.
-/

namespace Workflow

/-- A map from names to values, in the order in which the names were first inserted. -/
structure OrderedMap (α : Type) where
  /-- The names with their values. -/
  entries : List (String × α)
  /-- No name stands twice. -/
  nodup : (entries.map Prod.fst).Nodup
deriving DecidableEq

namespace OrderedMap

variable {α : Type}

/-- The names, in order. -/
def keys (m : OrderedMap α) : List String :=
  m.entries.map Prod.fst

/-- The map without names. -/
def empty : OrderedMap α where
  entries := []
  nodup := by simp

/-- The value of a name. -/
def get? (m : OrderedMap α) (name : String) : Option α :=
  (m.entries.find? (·.1 = name)).map Prod.snd

/-- The number of names. -/
def size (m : OrderedMap α) : Nat :=
  m.entries.length

/-- Gives a name a value in a list of entries. -/
def insertEntry (name : String) (a : α) : List (String × α) → List (String × α)
  | [] => [(name, a)]
  | (n, b) :: rest => if n = name then (name, a) :: rest else (n, b) :: insertEntry name a rest

theorem map_fst_insertEntry (name : String) (a : α) (l : List (String × α)) :
    (insertEntry name a l).map Prod.fst =
      if name ∈ l.map Prod.fst then l.map Prod.fst else l.map Prod.fst ++ [name] := by
  induction l with
  | nil => simp [insertEntry]
  | cons e rest ih =>
    obtain ⟨n, b⟩ := e
    by_cases h : n = name
    · simp [insertEntry, h]
    · have h' : ¬name = n := fun e => h e.symm
      simp only [insertEntry, h, if_false, List.map_cons, ih, List.mem_cons, h', false_or]
      split <;> simp

/-- Gives a name a value. -/
def insert (m : OrderedMap α) (name : String) (a : α) : OrderedMap α where
  entries := insertEntry name a m.entries
  nodup := by
    rw [map_fst_insertEntry]
    split
    · exact m.nodup
    · next h =>
      rw [List.nodup_append]
      refine ⟨m.nodup, by simp, fun x hx y hy => ?_⟩
      simp only [List.mem_singleton] at hy
      rintro rfl
      exact h (hy ▸ hx)

/-- Takes a name out. -/
def erase (m : OrderedMap α) (name : String) : OrderedMap α where
  entries := m.entries.filter (·.1 ≠ name)
  nodup := (m.nodup).sublist ((List.filter_sublist ..).map _)

/-- The map of a list of entries; where a name stands twice, its first place and its last value
count. -/
def ofList (l : List (String × α)) : OrderedMap α :=
  l.foldl (fun m e => m.insert e.1 e.2) empty

/-! ## What the operations do -/

/-- An insertion keeps the names that were there, in their order. -/
theorem keys_insert (m : OrderedMap α) (name : String) (a : α) :
    (m.insert name a).keys = if name ∈ m.keys then m.keys else m.keys ++ [name] :=
  map_fst_insertEntry name a m.entries

/-- An insertion sets the one name. -/
theorem get?_insert (m : OrderedMap α) (name : String) (a : α) (other : String) :
    (m.insert name a).get? other = if other = name then some a else m.get? other := by
  simp only [get?, insert]
  induction m.entries with
  | nil => by_cases h : name = other <;> simp [insertEntry, h, eq_comm]
  | cons e rest ih =>
    obtain ⟨n, b⟩ := e
    by_cases hn : n = name
    · by_cases ho : other = name
      · simp [insertEntry, hn, ho]
      · have : ¬name = other := fun e => ho e.symm
        simp [insertEntry, hn, ho, this]
    · by_cases ho : n = other
      · have : ¬other = name := fun e => hn (ho.trans e)
        simp [insertEntry, ho, this]
      · simpa [insertEntry, hn, ho] using ih

/-- Taking a name out leaves the other names, in their order. -/
theorem keys_erase (m : OrderedMap α) (name : String) :
    (m.erase name).keys = m.keys.filter (· ≠ name) := by
  simp only [keys, erase]
  induction m.entries with
  | nil => rfl
  | cons e rest ih => by_cases h : e.1 = name <;> simp [h] at ih ⊢ <;> exact ih

/-- Taking a name out unsets the one name. -/
theorem get?_erase (m : OrderedMap α) (name other : String) :
    (m.erase name).get? other = if other = name then none else m.get? other := by
  simp only [get?, erase]
  induction m.entries with
  | nil => simp
  | cons e rest ih =>
    by_cases hn : e.1 = name
    · by_cases ho : other = name
      · simp [ho]
      · have : ¬name = other := fun e => ho e.symm
        simp [hn, ho, this] at ih ⊢
        exact ih
    · by_cases ho : e.1 = other
      · have : ¬other = name := fun h => hn (ho.trans h)
        simp [ho, this]
      · simp [hn, ho] at ih ⊢
        exact ih

end OrderedMap
end Workflow
