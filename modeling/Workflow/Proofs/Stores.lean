import Mathlib.Data.List.DropRight
import Mathlib.Data.List.Find
import Mathlib.Data.List.Forall2
import Workflow.Proofs.OrderedMaps
import Workflow.Store

/-!
# Stores and their histories

What a store holds is determined by the changes that were made to it, and of these by the savings of
each id since its last deletion.

* `Store.Change` is a change, `Store.replay` makes a list of them to the empty store.
* `Store.savings` are the savings of an id that still count, `Store.kept?` what they leave of its
  document.
* `Store.EntersAt` is the place in a history at which an id came in.
* `Store.get?_replay` and `Store.exists_positions` say what a store holds and in which order,
  `Store.documents_delete` and `Store.filter_documents_save` what a change leaves alone.
* `Store.replay_keeps_savings` is the law of stores.
-/

namespace Workflow

namespace Store

/-! ## Histories -/

/-- A change to a store; the time of a saving is given. -/
inductive Change where
  | save (now : Instant) (d : Document)
  | delete (id : String)

/-- Makes a change. -/
def perform (s : Store) : Change → Store
  | .save now d => (s.save now d).1
  | .delete id => (s.delete id).1

/-- The store after the changes of a history. -/
def replay (history : List Change) : Store :=
  history.foldl perform .empty

/-- Whether a change deletes an id. -/
def Change.deletes (id : String) : Change → Bool
  | .save _ _ => false
  | .delete other => other = id

/-- The time and the document of a saving of an id. -/
def Change.saving? (id : String) : Change → Option (Instant × Document)
  | .save now d => if d.id = id then some (now, d) else none
  | .delete _ => none

/-- The savings of an id since its last deletion, in order. -/
def savings (id : String) (history : List Change) : List (Instant × Document) :=
  (history.rtakeWhile fun c => !c.deletes id).filterMap (Change.saving? id)

/-- What is kept of a document that was saved some times: its last form, with the time of the first
saving and that of the last in the place of the times that it came with. -/
def kept? (saved : List (Instant × Document)) : Option Document :=
  saved.getLast?.map fun (now, d) =>
    { d with createdAt := saved.head?.map Prod.fst, updatedAt := some now }

/-- Whether an id came into the store with the change at a place of a history: it was saved there
for the first time since its last deletion. -/
def EntersAt (history : List Change) (id : String) (i : Nat) : Prop :=
  ∃ now d, history[i]? = some (.save now d) ∧ d.id = id ∧ savings id (history.take i) = [] ∧
    ∀ c ∈ history.drop (i + 1), c.deletes id = false

theorem replay_concat (history : List Change) (c : Change) :
    replay (history ++ [c]) = (replay history).perform c := by
  rw [replay, List.foldl_append]
  rfl

theorem savings_concat_save (id : String) (history : List Change) (now : Instant) (d : Document) :
    savings id (history ++ [.save now d]) =
      if d.id = id then savings id history ++ [(now, d)] else savings id history := by
  rw [savings, List.rtakeWhile_concat_pos _ _ _ rfl, List.filterMap_append]
  by_cases h : d.id = id <;> simp [Change.saving?, savings, h]

theorem savings_concat_delete (id other : String) (history : List Change) :
    savings id (history ++ [.delete other]) = if other = id then [] else savings id history := by
  by_cases h : other = id
  · rw [savings, List.rtakeWhile_concat_neg _ _ _ (by simp [Change.deletes, h]), if_pos h]
    rfl
  · rw [savings, List.rtakeWhile_concat_pos _ _ _ (by simp [Change.deletes, h]), if_neg h,
      List.filterMap_append]
    exact List.append_nil _

/-! ## What a store holds -/

/-- The time of the first saving stays with a document. -/
theorem bind_createdAt_kept? (saved : List (Instant × Document)) :
    (kept? saved).bind Document.createdAt = saved.head?.map Prod.fst := by
  rw [kept?]
  cases hlast : saved.getLast? with
  | none =>
    rw [List.getLast?_eq_none_iff] at hlast
    rw [hlast]
    rfl
  | some last => rfl

theorem kept?_concat (saved : List (Instant × Document)) (now : Instant) (d : Document) :
    kept? (saved ++ [(now, d)]) = some { d with
      createdAt := some ((saved.head?.map Prod.fst).getD now), updatedAt := some now } := by
  rw [kept?, List.getLast?_concat, Option.map_some]
  cases saved <;> rfl

/-- A store holds of each id what its savings since the last deletion leave. -/
theorem get?_replay (history : List Change) (id : String) :
    (replay history).get? id = kept? (savings id history) := by
  induction history using List.reverseRecOn generalizing id with
  | nil => rfl
  | append_singleton history c ih =>
    rw [replay_concat]
    cases c with
    | save now d =>
      rw [savings_concat_save, perform, save, OrderedMap.get?_insert]
      by_cases h : d.id = id
      · subst h
        rw [if_pos rfl, if_pos rfl, stamped, ih, bind_createdAt_kept?, kept?_concat]
      · rw [if_neg (Ne.symm h), if_neg h, ih]
    | delete other =>
      rw [savings_concat_delete, perform, delete, OrderedMap.get?_erase]
      by_cases h : other = id
      · rw [if_pos h.symm, if_pos h]
        rfl
      · rw [if_neg (Ne.symm h), if_neg h, ih]

theorem kept?_eq_none_iff {saved : List (Instant × Document)} : kept? saved = none ↔ saved = [] := by
  rw [kept?, Option.map_eq_none_iff, List.getLast?_eq_none_iff]

theorem mem_keys_replay_iff (history : List Change) (id : String) :
    id ∈ (replay history).keys ↔ savings id history ≠ [] := by
  rw [OrderedMap.mem_keys_iff, get?_replay, Option.isSome_iff_ne_none, Ne, kept?_eq_none_iff]

/-! ## In which order -/

theorem EntersAt.lt_length {history : List Change} {id : String} {i : Nat}
    (h : EntersAt history id i) : i < history.length := by
  obtain ⟨now, d, hget, -⟩ := h
  exact (List.getElem?_eq_some_iff.1 hget).1

/-- An id stays where it came in as long as it is not deleted. -/
theorem EntersAt.concat {history : List Change} {id : String} {i : Nat}
    (h : EntersAt history id i) {c : Change} (hc : c.deletes id = false) :
    EntersAt (history ++ [c]) id i := by
  have hi := h.lt_length
  obtain ⟨now, d, hget, hid, hbefore, hafter⟩ := h
  refine ⟨now, d, (List.getElem?_append_left hi).trans hget, hid, ?_, ?_⟩
  · rwa [List.take_append_of_le_length hi.le]
  · rw [List.drop_append_of_le_length hi]
    intro c' hc'
    rcases List.mem_append.1 hc' with hc' | hc'
    · exact hafter c' hc'
    · rwa [List.mem_singleton.1 hc']

/-- A new id comes in at the end. -/
theorem entersAt_length {history : List Change} {now : Instant} {d : Document}
    (h : savings d.id history = []) :
    EntersAt (history ++ [.save now d]) d.id history.length :=
  ⟨now, d, List.getElem?_concat_length, rfl, by rwa [List.take_left], by simp⟩

theorem exists_forall₂_filter {α β : Type} {R : α → β → Prop} (p : α → Bool) {as : List α}
    {bs : List β} (h : List.Forall₂ R as bs) :
    ∃ bs', bs'.Sublist bs ∧ List.Forall₂ (fun a b => p a = true ∧ R a b) (as.filter p) bs' := by
  induction h with
  | nil => exact ⟨[], .slnil, .nil⟩
  | @cons a b as bs hab _ ih =>
    obtain ⟨bs', hsub, hrest⟩ := ih
    by_cases ha : p a = true
    · rw [List.filter_cons_of_pos ha]
      exact ⟨b :: bs', hsub.cons_cons b, .cons ⟨ha, hab⟩ hrest⟩
    · rw [List.filter_cons_of_neg ha]
      exact ⟨bs', hsub.cons b, hrest⟩

/-- The ids stand in the order in which they came in. -/
theorem exists_positions (history : List Change) :
    ∃ positions : List Nat, positions.Pairwise (· < ·) ∧
      List.Forall₂ (EntersAt history) (replay history).keys positions := by
  induction history using List.reverseRecOn with
  | nil => exact ⟨[], .nil, .nil⟩
  | append_singleton history c ih =>
    obtain ⟨positions, hpositions, henters⟩ := ih
    rw [replay_concat]
    cases c with
    | save now d =>
      have hstay := henters.imp fun id i h => h.concat (c := .save now d) rfl
      rw [perform, save, OrderedMap.keys_insert]
      split
      · exact ⟨positions, hpositions, hstay⟩
      · next hnew =>
        rw [mem_keys_replay_iff, not_not] at hnew
        refine ⟨positions ++ [history.length], ?_, List.rel_append hstay
          (.cons (entersAt_length hnew) .nil)⟩
        rw [List.pairwise_append]
        refine ⟨hpositions, List.pairwise_singleton _ _, fun i hi j hj => ?_⟩
        obtain ⟨k, hk, rfl⟩ := List.getElem_of_mem hi
        have hlength := henters.length_eq
        rw [List.mem_singleton.1 hj]
        exact (henters.get (hlength ▸ hk) hk).lt_length
    | delete other =>
      rw [perform, delete, OrderedMap.keys_erase]
      obtain ⟨positions', hsub, hkept⟩ := exists_forall₂_filter (· ≠ other) henters
      refine ⟨positions', hpositions.sublist hsub, hkept.imp fun id i h => h.2.concat ?_⟩
      exact decide_eq_false (Ne.symm (of_decide_eq_true h.1))

/-! ## The documents of a store -/

theorem id_of_mem_savings {id : String} {history : List Change} {x : Instant × Document}
    (h : x ∈ savings id history) : x.2.id = id := by
  obtain ⟨c, -, hc⟩ := List.mem_filterMap.1 h
  cases c with
  | delete other => cases hc
  | save now d =>
    rw [Change.saving?] at hc
    split at hc
    · next hid =>
      cases hc
      exact hid
    · cases hc

/-- Documents stand under their ids. -/
theorem id_of_mem_entries {history : List Change} {e : String × Document}
    (h : e ∈ (replay history).entries) : e.2.id = e.1 := by
  have hget := OrderedMap.get?_eq_some_iff.2 h
  rw [get?_replay, kept?, Option.map_eq_some_iff] at hget
  obtain ⟨x, hlast, hx⟩ := hget
  rw [← hx]
  exact id_of_mem_savings (List.mem_of_getLast? hlast)

theorem map_id_documents (history : List Change) :
    (replay history).documents.map Document.id = (replay history).keys := by
  rw [documents, List.map_map, OrderedMap.keys]
  exact List.map_congr_left fun e he => id_of_mem_entries he

theorem find?_documents (history : List Change) (id : String) :
    (replay history).documents.find? (·.id = id) = (replay history).get? id := by
  rw [documents, List.find?_map, OrderedMap.get?]
  congr 1
  exact List.find?_congr fun e he => by simp [id_of_mem_entries he]

theorem filter_documents (history : List Change) (id : String) :
    (replay history).documents.filter (·.id ≠ id) =
      ((replay history).entries.filter (·.1 ≠ id)).map Prod.snd := by
  rw [documents, List.filter_map]
  congr 1
  exact List.filter_congr fun e he => by simp [id_of_mem_entries he]

/-- A deletion takes out one document and leaves the others in their order. -/
theorem documents_delete (history : List Change) (id : String) :
    ((replay history).delete id).1.documents = (replay history).documents.filter (·.id ≠ id) :=
  (filter_documents history id).symm

/-- A saving leaves the other documents in their order. -/
theorem filter_documents_save (history : List Change) (now : Instant) (d : Document) :
    ((replay history).save now d).1.documents.filter (·.id ≠ d.id) =
      (replay history).documents.filter (·.id ≠ d.id) := by
  have hsave : ((replay history).save now d).1 = replay (history ++ [.save now d]) :=
    (replay_concat history (.save now d)).symm
  rw [hsave, filter_documents, filter_documents, ← hsave, save, OrderedMap.filter_entries_insert]

/-- A deletion answers whether the id was there. -/
theorem delete_snd_iff (s : Store) (id : String) : (s.delete id).2 = true ↔ id ∈ s.keys := by
  have hkept : (s.erase id).size = s.size ↔ ∀ e ∈ s.entries, decide (e.1 ≠ id) = true :=
    List.length_filter_eq_length_iff
  rw [delete, bne_iff_ne, Ne, hkept, OrderedMap.keys, List.mem_map]
  simp

/-- What a saving gives back is found afterwards. -/
theorem get?_save (s : Store) (now : Instant) (d : Document) :
    (s.save now d).1.get? d.id = some (s.save now d).2 := by
  rw [save, OrderedMap.get?_insert, if_pos rfl]

theorem load_replay (history : List Change) (id : String) :
    (replay history).load id = match (savings id history).getLast? with
      | none => .error (.notFound id)
      | some (_, d) => d.toGraph.mapError .conversion := by
  rw [load, get?_replay, kept?]
  cases (savings id history).getLast? <;> rfl

/-- **What a store holds.**  After any changes, a look-up finds of an id what its savings since its
last deletion leave: the last document that was saved, with the time of the first of these savings as
that of its creation and the time of the last as that of its update.  No id stands twice, and the ids
stand in the order in which they came in.  To delete an id is to take its document out of the list,
and the answer is whether it was there; to save a document touches no other, and the answer is what
is then found.  What is loaded is the graph of the document last saved. -/
theorem replay_keeps_savings (history : List Change) :
    let s := replay history
    let ids := s.documents.map Document.id
    (∀ id, s.get? id = kept? (savings id history)) ∧
      (∀ id, s.documents.find? (·.id = id) = s.get? id) ∧
      (∀ id, id ∈ ids ↔ savings id history ≠ []) ∧
      ids.Nodup ∧
      (∃ positions : List Nat, positions.Pairwise (· < ·) ∧
        List.Forall₂ (EntersAt history) ids positions) ∧
      (∀ id, (s.delete id).1.documents = s.documents.filter (·.id ≠ id) ∧
        ((s.delete id).2 = true ↔ id ∈ ids)) ∧
      (∀ now d, (s.save now d).1.documents.filter (·.id ≠ d.id) =
          s.documents.filter (·.id ≠ d.id) ∧
        (s.save now d).1.get? d.id = some (s.save now d).2) ∧
      ∀ id, s.load id = match (savings id history).getLast? with
        | none => .error (.notFound id)
        | some (_, d) => d.toGraph.mapError .conversion := by
  intro s ids
  have hids : ids = s.keys := map_id_documents history
  have hnodup : s.keys.Nodup := s.nodup
  rw [hids]
  refine ⟨get?_replay history, find?_documents history, mem_keys_replay_iff history, hnodup,
    exists_positions history, fun id => ⟨documents_delete history id, s.delete_snd_iff id⟩,
    fun now d => ⟨filter_documents_save history now d, s.get?_save now d⟩, load_replay history⟩

end Store

end Workflow
