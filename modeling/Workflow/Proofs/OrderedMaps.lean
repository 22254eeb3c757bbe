import Mathlib.Data.List.Induction
import Mathlib.Data.List.Nodup
import Workflow.OrderedMap

/-!
# Insertion-ordered maps as two views

A map is what its names are bound to and the order in which its names stand.

* `OrderedMap.get?_eq_some_iff` and `OrderedMap.mem_keys_iff` tie the two views to the entries, and
  `OrderedMap.entries_eq` gives the entries back.
* `OrderedMap.entries_insert` are the entries after an insertion, and
  `OrderedMap.filter_entries_insert` says what it leaves alone.
* `OrderedMap.keys_ofList` and `OrderedMap.get?_ofList` are the map of a list in which names may
  stand twice: their first places and their last values count.
-/

namespace Workflow.OrderedMap

variable {α : Type}

/-! ## Entries and look-ups -/

theorem get?_eq_some_iff {m : OrderedMap α} {name : String} {a : α} :
    m.get? name = some a ↔ (name, a) ∈ m.entries := by
  rw [get?, Option.map_eq_some_iff]
  constructor
  · rintro ⟨⟨n, b⟩, hfound, rfl⟩
    have hname : n = name := by simpa using List.find?_some hfound
    exact hname ▸ List.mem_of_find?_eq_some hfound
  · intro hmem
    cases hfound : m.entries.find? (·.1 = name) with
    | none => simpa using List.find?_eq_none.1 hfound _ hmem
    | some e =>
        have hname : e.1 = name := by simpa using List.find?_some hfound
        have := List.inj_on_of_nodup_map m.nodup (List.mem_of_find?_eq_some hfound) hmem hname
        exact ⟨e, rfl, congrArg Prod.snd this⟩

theorem get?_eq_lookup (m : OrderedMap α) (name : String) : m.get? name = m.entries.lookup name := by
  rw [get?]
  induction m.entries with
  | nil => rfl
  | cons e rest ih =>
    rw [List.lookup_cons, List.find?_cons]
    by_cases h : e.1 = name
    · simp [h]
    · rw [decide_eq_false h, beq_eq_false_iff_ne.2 (Ne.symm h)]
      exact ih

/-- The order of the entries does not matter to what a name is bound to. -/
theorem get?_eq_of_perm {m n : OrderedMap α} (h : m.entries.Perm n.entries) (name : String) :
    m.get? name = n.get? name := by
  refine Option.ext fun a => ?_
  rw [get?_eq_some_iff, get?_eq_some_iff, h.mem_iff]

theorem mem_keys_iff {m : OrderedMap α} {name : String} :
    name ∈ m.keys ↔ (m.get? name).isSome := by
  rw [keys, get?, Option.isSome_map, List.find?_isSome]
  simp

/-- The entries are the names in their order, with what they are bound to. -/
theorem entries_eq (m : OrderedMap α) :
    m.entries = m.keys.filterMap fun name => (m.get? name).map (name, ·) := by
  have hentry : ∀ e ∈ m.entries, (m.get? e.1).map (e.1, ·) = some e := fun e he => by
    rw [get?_eq_some_iff.2 he]
    rfl
  rw [keys, List.filterMap_map]
  exact (List.filterMap_some.symm.trans (List.filterMap_congr fun e he => (hentry e he).symm))

/-! ## Insertions -/

theorem insertEntry_eq (name : String) (a : α) {l : List (String × α)}
    (h : (l.map Prod.fst).Nodup) :
    insertEntry name a l =
      if name ∈ l.map Prod.fst then l.map fun e => if e.1 = name then (name, a) else e
      else l ++ [(name, a)] := by
  induction l with
  | nil => rfl
  | cons e rest ih =>
    obtain ⟨hnew, hrest⟩ := List.nodup_cons.1 h
    obtain ⟨other, b⟩ := e
    by_cases hname : other = name
    · subst hname
      have hsame : ∀ e ∈ rest, (if e.1 = other then (other, a) else e) = e := fun e he =>
        if_neg fun heq : e.1 = other => hnew (List.mem_map.2 ⟨e, he, heq⟩)
      simp [insertEntry, List.map_congr_left hsame]
    · have hname' : ¬name = other := fun heq => hname heq.symm
      rw [insertEntry, if_neg hname, ih hrest]
      simp only [List.map_cons, List.mem_cons, hname', false_or, if_neg hname]
      split <;> rfl

/-- A name that is there gets its value where it stands, a new name goes last. -/
theorem entries_insert (m : OrderedMap α) (name : String) (a : α) :
    (m.insert name a).entries =
      if name ∈ m.keys then m.entries.map fun e => if e.1 = name then (name, a) else e
      else m.entries ++ [(name, a)] :=
  insertEntry_eq name a m.nodup

/-- An insertion leaves the other entries and their order alone. -/
theorem filter_entries_insert (m : OrderedMap α) (name : String) (a : α) :
    (m.insert name a).entries.filter (·.1 ≠ name) = m.entries.filter (·.1 ≠ name) := by
  rw [insert]
  simp only
  induction m.entries with
  | nil => simp [insertEntry]
  | cons e rest ih =>
    rw [insertEntry]
    split
    · next h => simp [h]
    · next h => rw [List.filter_cons, List.filter_cons, ih]

/-! ## Maps of lists -/

theorem ofList_concat (l : List (String × α)) (name : String) (a : α) :
    ofList (l ++ [(name, a)]) = (ofList l).insert name a := by
  rw [ofList, List.foldl_append]
  rfl

/-- Names stand at the first of their places. -/
theorem keys_ofList (l : List (String × α)) : (ofList l).keys = (l.map Prod.fst).eraseDups := by
  induction l using List.reverseRecOn with
  | nil => rfl
  | append_singleton l e ih =>
    obtain ⟨name, a⟩ := e
    rw [ofList_concat, keys_insert, ih, List.map_append, List.eraseDups_append, List.removeAll]
    by_cases h : name ∈ l.map Prod.fst
    · rw [if_pos (List.mem_eraseDups.2 h)]
      simp [h]
    · rw [if_neg (mt List.mem_eraseDups.1 h)]
      simp [h, List.eraseDups_cons]

/-- Names are bound to the last of their values. -/
theorem get?_ofList (l : List (String × α)) (name : String) :
    (ofList l).get? name = l.reverse.lookup name := by
  induction l using List.reverseRecOn with
  | nil => rfl
  | append_singleton l e ih =>
    obtain ⟨other, a⟩ := e
    rw [ofList_concat, get?_insert, List.reverse_concat, List.lookup_cons, ih]
    by_cases h : name = other
    · rw [if_pos h, beq_iff_eq.2 h]
    · rw [if_neg h, beq_eq_false_iff_ne.2 h]

/-- What the map of a list holds: the names in the order of their first places, each with the last
of its values. -/
theorem entries_ofList (l : List (String × α)) :
    (ofList l).entries =
      (l.map Prod.fst).eraseDups.filterMap fun name => (l.reverse.lookup name).map (name, ·) := by
  rw [entries_eq, keys_ofList]
  simp only [get?_ofList]

/-- A list in which no name stands twice is all that its map holds. -/
theorem entries_ofList_of_nodup {l : List (String × α)} (h : (l.map Prod.fst).Nodup) :
    (ofList l).entries = l := by
  induction l using List.reverseRecOn with
  | nil => rfl
  | append_singleton l e ih =>
    obtain ⟨name, a⟩ := e
    obtain ⟨hl, -, hapart⟩ := List.nodup_append.1 (List.map_append ▸ h)
    have hnew : name ∉ (ofList l).keys := by
      rw [keys, ih hl]
      exact fun hmem => hapart name hmem name List.mem_cons_self rfl
    rw [ofList_concat, entries_insert, if_neg hnew, ih hl]

theorem mem_of_mem_entries_ofList {l : List (String × α)} {e : String × α}
    (h : e ∈ (ofList l).entries) : e ∈ l := by
  have hget : (ofList l).get? e.1 = some e.2 := get?_eq_some_iff.2 h
  rw [get?_ofList, List.lookup_eq_some_iff] at hget
  obtain ⟨before, after, hl, -⟩ := hget
  rw [← List.mem_reverse, hl]
  exact List.mem_append_right _ List.mem_cons_self

end Workflow.OrderedMap
