import Mathlib.Data.List.Nodup
import Mathlib.Data.List.Perm.Subperm
import Mathlib.Logic.Relation
import Workflow.Run.Visits

/-!
# Breadth-first search

The search that the order of visits is measured against.  It is the textbook one: a queue of steps,
a set of marked ids, and a step is marked at the moment it is discovered, so that no step is ever
put into the queue twice.  Where a step leads is read off the lists of the graph, not its indexes.

* `Graph.taken` is the list of transitions that a run takes from a step, `Graph.successors` where
  they end, and `Graph.Leads` the relation between the two ends.
* `discover` picks the unmarked steps out of a list, `Graph.searchFrom` is the search and
  `Graph.breadthFirst` the search from one step.
* `discover_append`, `discover_filter` and `mem_map_id_discover` say what discovery does to lists
  that were put together, thinned out, or only looked at.
-/

namespace Workflow

/-! ## Discovery -/

/-- The steps of a list whose ids are not marked.  A step is marked when it is discovered, so of two
steps with one id only the first is among them. -/
def discover (marked : List String) : List Step → List Step
  | [] => []
  | s :: rest =>
    if s.id ∈ marked then discover marked rest else s :: discover (s.id :: marked) rest

@[simp] theorem discover_nil (marked : List String) : discover marked [] = [] := rfl

theorem discover_cons_of_mem {marked : List String} {s : Step} (h : s.id ∈ marked)
    (rest : List Step) : discover marked (s :: rest) = discover marked rest := by
  rw [discover, if_pos h]

theorem discover_cons_of_not_mem {marked : List String} {s : Step} (h : s.id ∉ marked)
    (rest : List Step) :
    discover marked (s :: rest) = s :: discover (s.id :: marked) rest := by
  rw [discover, if_neg h]

/-- Discovery depends on which ids are marked, not on how they are listed. -/
theorem discover_congr : ∀ (steps : List Step) {marked marked' : List String},
    (∀ id, id ∈ marked ↔ id ∈ marked') → discover marked steps = discover marked' steps := by
  intro steps
  induction steps with
  | nil => intro _ _ _; rfl
  | cons s rest ih =>
      intro marked marked' h
      by_cases hs : s.id ∈ marked
      · rw [discover_cons_of_mem hs, discover_cons_of_mem ((h s.id).1 hs), ih h]
      · rw [discover_cons_of_not_mem hs, discover_cons_of_not_mem fun hs' => hs ((h s.id).2 hs')]
        have hcons : ∀ id, id ∈ s.id :: marked ↔ id ∈ s.id :: marked' := by
          intro id
          rw [List.mem_cons, List.mem_cons, h id]
        rw [ih hcons]

theorem discover_sublist : ∀ (steps : List Step) (marked : List String),
    (discover marked steps).Sublist steps := by
  intro steps
  induction steps with
  | nil => intro _; exact List.Sublist.slnil
  | cons s rest ih =>
      intro marked
      by_cases hs : s.id ∈ marked
      · rw [discover_cons_of_mem hs]
        exact (ih marked).cons s
      · rw [discover_cons_of_not_mem hs]
        exact (ih _).cons_cons s

/-- Discovered are the ids that occur in the list and are not marked. -/
theorem mem_map_id_discover : ∀ (steps : List Step) (marked : List String) (id : String),
    id ∈ (discover marked steps).map Step.id ↔ id ∈ steps.map Step.id ∧ id ∉ marked := by
  intro steps
  induction steps with
  | nil => intro marked id; simp
  | cons s rest ih =>
      intro marked id
      by_cases hs : s.id ∈ marked
      · rw [discover_cons_of_mem hs, ih, List.map_cons, List.mem_cons]
        constructor
        · rintro ⟨hmem, hnot⟩
          exact ⟨Or.inr hmem, hnot⟩
        · rintro ⟨rfl | hmem, hnot⟩
          · exact absurd hs hnot
          · exact ⟨hmem, hnot⟩
      · rw [discover_cons_of_not_mem hs, List.map_cons, List.map_cons, List.mem_cons, List.mem_cons,
          ih, List.mem_cons]
        constructor
        · rintro (rfl | ⟨hmem, hnot⟩)
          · exact ⟨Or.inl rfl, hs⟩
          · exact ⟨Or.inr hmem, fun h => hnot (Or.inr h)⟩
        · rintro ⟨rfl | hmem, hnot⟩
          · exact Or.inl rfl
          · by_cases hid : id = s.id
            · exact Or.inl hid
            · exact Or.inr ⟨hmem, fun h => h.elim hid hnot⟩

/-- No id is discovered twice. -/
theorem nodup_map_id_discover : ∀ (steps : List Step) (marked : List String),
    ((discover marked steps).map Step.id).Nodup := by
  intro steps
  induction steps with
  | nil => intro _; exact List.nodup_nil
  | cons s rest ih =>
      intro marked
      by_cases hs : s.id ∈ marked
      · rw [discover_cons_of_mem hs]
        exact ih marked
      · rw [discover_cons_of_not_mem hs, List.map_cons, List.nodup_cons, mem_map_id_discover]
        exact ⟨fun h => h.2 (List.mem_cons_self ..), ih _⟩

/-- A second list is searched with the discoveries of the first marked as well. -/
theorem discover_append : ∀ (first second : List Step) (marked : List String),
    discover marked (first ++ second) =
      discover marked first ++
        discover ((discover marked first).map Step.id ++ marked) second := by
  intro first
  induction first with
  | nil => intro second marked; rfl
  | cons s rest ih =>
      intro second marked
      by_cases hs : s.id ∈ marked
      · rw [List.cons_append, discover_cons_of_mem hs, discover_cons_of_mem hs, ih]
      · rw [List.cons_append, discover_cons_of_not_mem hs, discover_cons_of_not_mem hs, ih,
          List.cons_append]
        congr 2
        refine discover_congr second fun id => ?_
        simp only [List.map_cons, List.mem_append, List.mem_cons]
        tauto

/-- Taking marked steps out of a list beforehand changes nothing. -/
theorem discover_filter : ∀ (steps : List Step) {visited marked : List String},
    (∀ id ∈ visited, id ∈ marked) →
      discover marked (steps.filter fun s => s.id ∉ visited) = discover marked steps := by
  intro steps
  induction steps with
  | nil => intro _ _ _; rfl
  | cons s rest ih =>
      intro visited marked h
      by_cases hv : s.id ∈ visited
      · rw [List.filter_cons_of_neg (by simpa using hv), discover_cons_of_mem (h _ hv), ih h]
      · rw [List.filter_cons_of_pos (by simpa using hv)]
        by_cases hs : s.id ∈ marked
        · rw [discover_cons_of_mem hs, discover_cons_of_mem hs, ih h]
        · rw [discover_cons_of_not_mem hs, discover_cons_of_not_mem hs,
            ih fun id hid => List.mem_cons_of_mem _ (h id hid)]

/-! ## Where a step leads -/

namespace Graph

/-- The transitions that a run takes from a step, in stored order.  Those that end at no step are
never taken; a terminal step takes none, and a condition only the first that admits its result. -/
def taken (g : Graph) (c : Context) (s : Step) : List Transition :=
  let leaving := g.transitions.filter fun t => t.source = s.id ∧ t.target ∈ g.steps.map Step.id
  match s.kind with
  | .terminal => []
  | .condition expression =>
    (leaving.filter fun t => t.admits (conditionResult c expression)).take 1
  | _ => leaving

/-- Whether a run may go from one step straight to another. -/
def Leads (g : Graph) (c : Context) (s t : Step) : Prop :=
  t ∈ g.steps ∧ ∃ transition ∈ g.taken c s, transition.target = t.id

/-- The steps that the transitions taken from a step end at, in the order of the transitions. -/
def successors (g : Graph) (c : Context) (s : Step) : List Step :=
  (g.taken c s).filterMap fun t => g.steps.find? (·.id = t.target)

/-- Two steps of a graph with one id are one step. -/
theorem eq_of_id_eq (g : Graph) {s t : Step} (hs : s ∈ g.steps) (ht : t ∈ g.steps)
    (h : s.id = t.id) : s = t :=
  List.inj_on_of_nodup_map g.nodup hs ht h

/-- Looking an id up finds the step that has it. -/
theorem find?_eq_some_iff (g : Graph) (id : String) (s : Step) :
    g.steps.find? (·.id = id) = some s ↔ s ∈ g.steps ∧ s.id = id := by
  constructor
  · intro h
    exact ⟨List.mem_of_find?_eq_some h, by simpa using List.find?_some h⟩
  · rintro ⟨hs, hid⟩
    cases h : g.steps.find? (·.id = id) with
    | none => exact absurd hid (by simpa using List.find?_eq_none.1 h s hs)
    | some t =>
        have ht : t.id = id := by simpa using List.find?_some h
        rw [g.eq_of_id_eq (List.mem_of_find?_eq_some h) hs (ht.trans hid.symm)]

theorem mem_successors_iff (g : Graph) (c : Context) (s t : Step) :
    t ∈ g.successors c s ↔ g.Leads c s t := by
  rw [successors, List.mem_filterMap, Leads]
  constructor
  · rintro ⟨transition, htaken, hfind⟩
    obtain ⟨ht, hid⟩ := (g.find?_eq_some_iff _ _).1 hfind
    exact ⟨ht, transition, htaken, hid.symm⟩
  · rintro ⟨ht, transition, htaken, hid⟩
    exact ⟨transition, htaken, (g.find?_eq_some_iff _ _).2 ⟨ht, hid.symm⟩⟩

theorem successors_subset (g : Graph) (c : Context) (s : Step) : g.successors c s ⊆ g.steps :=
  fun _ h => ((g.mem_successors_iff c s _).1 h).1

/-! ## The search -/

/-- The steps of a graph that are not marked. -/
def unmarked (g : Graph) (marked : List String) : List Step :=
  g.steps.filter (·.id ∉ marked)

/-- Every step that is discovered was unmarked before and is marked afterwards. -/
theorem length_unmarked_add_length_discover_le (g : Graph) (marked : List String)
    {steps : List Step} (h : steps ⊆ g.steps) :
    (g.unmarked ((discover marked steps).map Step.id ++ marked)).length +
      (discover marked steps).length ≤ (g.unmarked marked).length := by
  set found := discover marked steps with hfound
  have hfoundIds : ∀ s ∈ found, s.id ∉ marked := fun s hs =>
    ((mem_map_id_discover steps marked s.id).1 (List.mem_map_of_mem hs)).2
  have hnodup : (g.unmarked (found.map Step.id ++ marked) ++ found).Nodup := by
    refine List.Nodup.append ?_ ?_ ?_
    · exact (List.Nodup.of_map _ g.nodup).filter _
    · exact List.Nodup.of_map _ (nodup_map_id_discover steps marked)
    · intro s hs hs'
      have := (List.mem_filter.1 hs).2
      simp only [decide_not, Bool.not_eq_true', decide_eq_false_iff_not, List.mem_append] at this
      exact this (Or.inl (List.mem_map_of_mem hs'))
  have hsub : g.unmarked (found.map Step.id ++ marked) ++ found ⊆ g.unmarked marked := by
    intro s hs
    rcases List.mem_append.1 hs with hs | hs
    · obtain ⟨hmem, hnot⟩ := List.mem_filter.1 hs
      refine List.mem_filter.2 ⟨hmem, ?_⟩
      simp only [decide_not, Bool.not_eq_true', decide_eq_false_iff_not, List.mem_append] at hnot ⊢
      exact fun hmarked => hnot (Or.inr hmarked)
    · refine List.mem_filter.2 ⟨h ((discover_sublist steps marked).subset hs), ?_⟩
      simpa using hfoundIds s hs
  calc (g.unmarked (found.map Step.id ++ marked)).length + found.length
      = (g.unmarked (found.map Step.id ++ marked) ++ found).length := List.length_append.symm
    _ ≤ (g.unmarked marked).length := (hnodup.subperm hsub).length_le

/-- Breadth-first search from a queue of steps, all of which are marked. -/
def searchFrom (g : Graph) (c : Context) (queue : List Step) (marked : List String) : List Step :=
  match queue with
  | [] => []
  | s :: rest =>
    let found := discover marked (g.successors c s)
    s :: searchFrom g c (rest ++ found) (found.map Step.id ++ marked)
termination_by queue.length + (g.unmarked marked).length
decreasing_by
  have h := g.length_unmarked_add_length_discover_le marked (g.successors_subset c s)
  simp only [List.length_append, List.length_cons]
  omega

/-- The steps of a graph in the order of a breadth-first search from one of them. -/
def breadthFirst (g : Graph) (c : Context) (start : Step) : List Step :=
  g.searchFrom c [start] [start.id]

end Graph
end Workflow
