import Workflow.Proofs.Search

/-!
# The order of visits

The walk of a run marks a step when it comes up in the queue, so that a step may wait in the queue
more than once; a breadth-first search marks it when it is discovered.  Both come to the same order.

* `Graph.visitsFrom` is the walk from a state of the queue, without the steps that are passed over.
* `Graph.followed_eq_successors` says that the indexes lead where the lists of the graph lead.
* `Graph.visitsFrom_eq_searchFrom` is the simulation: the queue of the search is what discovery
  leaves of the queue of the walk.
* `Graph.visits_eq_breadthFirst`, `Graph.nodup_map_id_visits` and `Graph.mem_map_id_visits_iff` are
  what follows for a whole run: its order, that no step is visited twice, and which steps are.
-/

namespace Workflow
namespace Graph

/-! ## Indexes and lists -/

theorem target?_eq_find? (g : Graph) (t : Transition) :
    g.target? t = g.steps.find? (·.id = t.target) :=
  g.resolve?_eq_find? t.target

theorem isSome_target?_iff (g : Graph) (t : Transition) :
    (g.target? t).isSome ↔ t.target ∈ g.steps.map Step.id := by
  rw [target?_eq_find?, List.find?_isSome]
  simp only [decide_eq_true_eq, List.mem_map]

/-- What the lists say leaves a step for another is what the indexes say. -/
theorem filter_source_target_eq (g : Graph) (s : Step) :
    (g.transitions.filter fun t => t.source = s.id ∧ t.target ∈ g.steps.map Step.id) =
      (g.outgoing s.id).filter fun t => (g.target? t).isSome := by
  rw [outgoing_eq_filter, List.filter_filter]
  refine List.filter_congr fun t _ => ?_
  rw [Bool.eq_iff_iff, Bool.and_eq_true, decide_eq_true_eq, decide_eq_true_eq, isSome_target?_iff]
  exact and_comm

/-- Transitions that end nowhere add nothing to where a list of transitions leads. -/
theorem filterMap_filter_isSome_target? (g : Graph) (transitions : List Transition) :
    (transitions.filter fun t => (g.target? t).isSome).filterMap g.target? =
      transitions.filterMap g.target? := by
  rw [List.filterMap_filter]
  refine List.filterMap_congr fun t _ => ?_
  cases h : g.target? t <;> simp

/-- The walk leads from a step to its successors. -/
theorem followed_eq_successors (g : Graph) (c : Context) (s : Step) :
    g.followed c s = g.successors c s := by
  have htarget : (fun t : Transition => g.steps.find? (·.id = t.target)) = g.target? :=
    funext fun t => (g.target?_eq_find? t).symm
  rw [successors, taken, filter_source_target_eq, htarget, followed]
  cases s.kind with
  | terminal => rfl
  | condition expression =>
      simp only
      rw [List.filter_filter, List.take_one, List.head?_filter]
      cases (g.outgoing s.id).find? fun t =>
          t.admits (conditionResult c expression) && (g.target? t).isSome with
      | none => rfl
      | some t => cases h : g.target? t <;> simp [h]
  | _ => exact (g.filterMap_filter_isSome_target? _).symm

theorem mem_followed_iff (g : Graph) (c : Context) (s t : Step) :
    t ∈ g.followed c s ↔ g.Leads c s t := by
  rw [followed_eq_successors, mem_successors_iff]

/-! ## The walk -/

/-- The steps visited from a state of the queue and the ids visited so far. -/
def visitsFrom (g : Graph) (c : Context) (queue : List Step) (visited : List String) : List Step :=
  ((g.popsFrom c queue visited).filter Pop.isVisit).map Pop.step

/-- The steps that a visit puts into the queue. -/
def queued (g : Graph) (c : Context) (visited : List String) (s : Step) : List Step :=
  (g.followed c s).filter fun t => t.id ∉ s.id :: visited

variable (g : Graph) (c : Context)

@[simp] theorem visitsFrom_nil (visited : List String) : g.visitsFrom c [] visited = [] := by
  rw [visitsFrom, popsFrom]
  rfl

theorem visitsFrom_cons (s : Step) (rest : List Step) (visited : List String) :
    g.visitsFrom c (s :: rest) visited =
      if s.id ∈ visited then g.visitsFrom c rest visited
      else s :: g.visitsFrom c (rest ++ g.queued c visited s) (s.id :: visited) := by
  rw [visitsFrom, popsFrom]
  split <;> rfl

theorem visitsFrom_cons_of_mem {visited : List String} {s : Step} (h : s.id ∈ visited)
    (rest : List Step) : g.visitsFrom c (s :: rest) visited = g.visitsFrom c rest visited := by
  rw [visitsFrom_cons, if_pos h]

theorem visitsFrom_cons_of_not_mem {visited : List String} {s : Step} (h : s.id ∉ visited)
    (rest : List Step) :
    g.visitsFrom c (s :: rest) visited =
      s :: g.visitsFrom c (rest ++ g.queued c visited s) (s.id :: visited) := by
  rw [visitsFrom_cons, if_neg h]

theorem visits_eq_visitsFrom : g.visits c = g.visitsFrom c g.entry?.toList [] := rfl

/-- Without an entry step nothing is visited. -/
theorem visits_of_entry?_eq_none (h : g.entry? = none) : g.visits c = [] := by
  rw [visits_eq_visitsFrom, h, Option.toList_none, visitsFrom_nil]

/-- The induction that the walk allows: over a step that is passed over and over a visit. -/
theorem walk_induction {motive : List Step → List String → Prop}
    (nil : ∀ visited, motive [] visited)
    (skip : ∀ visited s rest, s.id ∈ visited → motive rest visited → motive (s :: rest) visited)
    (visit : ∀ visited s rest, s.id ∉ visited →
      motive (rest ++ g.queued c visited s) (s.id :: visited) → motive (s :: rest) visited) :
    ∀ queue visited, motive queue visited := by
  intro queue visited
  induction queue, visited using popsFrom.induct g c with
  | case1 visited => exact nil visited
  | case2 visited s rest h ih => exact skip visited s rest h ih
  | case3 visited s rest h next ih => exact visit visited s rest h ih

/-- No id is visited twice, and none that was visited before. -/
theorem nodup_map_id_visitsFrom : ∀ (queue : List Step) (visited : List String),
    ((g.visitsFrom c queue visited).map Step.id).Nodup ∧
      ∀ id ∈ (g.visitsFrom c queue visited).map Step.id, id ∉ visited := by
  refine g.walk_induction c ?nil ?skip ?visit
  case nil =>
    intro visited
    simp
  case skip =>
    intro visited s rest h ih
    rw [visitsFrom_cons_of_mem g c h]
    exact ih
  case visit =>
    intro visited s rest h ih
    obtain ⟨hnodup, hnew⟩ := ih
    rw [visitsFrom_cons_of_not_mem g c h, List.map_cons]
    refine ⟨List.nodup_cons.2 ⟨fun hs => hnew _ hs (List.mem_cons_self ..), hnodup⟩, ?_⟩
    intro id hid
    rcases List.mem_cons.1 hid with rfl | hid
    · exact h
    · exact fun hvisited => hnew id hid (List.mem_cons_of_mem _ hvisited)

/-! ## The simulation -/

theorem mem_map_id_queued (visited : List String) (s : Step) (id : String) :
    id ∈ (g.queued c visited s).map Step.id ↔
      id ∈ (g.successors c s).map Step.id ∧ id ≠ s.id ∧ id ∉ visited := by
  rw [queued, followed_eq_successors]
  simp only [List.mem_map, List.mem_filter, decide_eq_true_eq, List.mem_cons, not_or]
  constructor
  · rintro ⟨t, ⟨ht, hnew⟩, rfl⟩
    exact ⟨⟨t, ht, rfl⟩, hnew⟩
  · rintro ⟨⟨t, ht, rfl⟩, hnew⟩
    exact ⟨t, ⟨ht, hnew⟩, rfl⟩

/-- What discovery leaves of the queue after a visit: what it left of the rest of the queue, and
behind it what the search discovers at the step. -/
theorem discover_append_queued {visited marked : List String} (s : Step) (rest : List Step)
    (hmarked : ∀ id, id ∈ marked ↔ id ∈ s.id :: visited ∨ id ∈ rest.map Step.id) :
    discover (s.id :: visited) (rest ++ g.queued c visited s) =
      discover (s.id :: visited) rest ++ discover marked (g.successors c s) := by
  rw [discover_append, queued, followed_eq_successors,
    discover_filter _ fun id hid => List.mem_append_right _ hid]
  congr 1
  refine discover_congr _ fun id => ?_
  rw [List.mem_append, mem_map_id_discover, hmarked]
  tauto

/-- **The simulation.**  The walk visits what the search visits whose queue holds the discoveries in
the queue of the walk, if the marked ids are those that were visited or wait in the queue. -/
theorem visitsFrom_eq_searchFrom : ∀ (queue : List Step) (visited marked : List String),
    (∀ id, id ∈ marked ↔ id ∈ visited ∨ id ∈ queue.map Step.id) →
      g.visitsFrom c queue visited = g.searchFrom c (discover visited queue) marked := by
  refine g.walk_induction c ?nil ?skip ?visit
  case nil =>
    intro visited marked _
    rw [visitsFrom_nil, discover_nil, searchFrom]
  case skip =>
    intro visited s rest h ih marked hmarked
    rw [visitsFrom_cons_of_mem g c h, discover_cons_of_mem h]
    refine ih marked fun id => ?_
    rw [hmarked id, List.map_cons, List.mem_cons]
    constructor
    · rintro (hid | rfl | hid)
      · exact Or.inl hid
      · exact Or.inl h
      · exact Or.inr hid
    · rintro (hid | hid)
      · exact Or.inl hid
      · exact Or.inr (Or.inr hid)
  case visit =>
    intro visited s rest h ih marked hmarked
    have hmarked' : ∀ id, id ∈ marked ↔ id ∈ s.id :: visited ∨ id ∈ rest.map Step.id := by
      intro id
      rw [hmarked id, List.map_cons, List.mem_cons, List.mem_cons]
      tauto
    rw [visitsFrom_cons_of_not_mem g c h, discover_cons_of_not_mem h, searchFrom,
      ← discover_append_queued g c s rest hmarked']
    congr 1
    refine ih _ fun id => ?_
    rw [List.mem_append, mem_map_id_discover, hmarked', List.map_append, List.mem_append,
      mem_map_id_queued, List.mem_cons]
    tauto

/-- **The order of visits.**  A run visits the steps in the order of a breadth-first search from the
first entry step. -/
theorem visits_eq_breadthFirst {start : Step} (h : g.entry? = some start) :
    g.visits c = g.breadthFirst c start := by
  rw [visits_eq_visitsFrom, h, breadthFirst, Option.toList_some,
    g.visitsFrom_eq_searchFrom c [start] [] [start.id] (by simp),
    discover_cons_of_not_mem (List.not_mem_nil), discover_nil]

/-- No step is visited twice. -/
theorem nodup_map_id_visits : ((g.visits c).map Step.id).Nodup :=
  (g.nodup_map_id_visitsFrom c _ _).1

/-! ## Which steps are visited -/

/-- A visited step can be reached from the queue. -/
theorem exists_reaches_of_mem_visitsFrom : ∀ (queue : List Step) (visited : List String),
    ∀ s ∈ g.visitsFrom c queue visited, ∃ q ∈ queue, Relation.ReflTransGen (g.Leads c) q s := by
  refine g.walk_induction c ?nil ?skip ?visit
  case nil =>
    intro visited s hs
    rw [visitsFrom_nil] at hs
    exact absurd hs List.not_mem_nil
  case skip =>
    intro visited t rest h ih s hs
    rw [visitsFrom_cons_of_mem g c h] at hs
    obtain ⟨q, hq, hreach⟩ := ih s hs
    exact ⟨q, List.mem_cons_of_mem _ hq, hreach⟩
  case visit =>
    intro visited t rest h ih s hs
    rw [visitsFrom_cons_of_not_mem g c h] at hs
    rcases List.mem_cons.1 hs with rfl | hs
    · exact ⟨s, List.mem_cons_self .., .refl⟩
    · obtain ⟨q, hq, hreach⟩ := ih s hs
      rcases List.mem_append.1 hq with hq | hq
      · exact ⟨q, List.mem_cons_of_mem _ hq, hreach⟩
      · have hlead : g.Leads c t q := (g.mem_followed_iff c t q).1 (List.mem_of_mem_filter hq)
        exact ⟨t, List.mem_cons_self .., .head hlead hreach⟩

/-- Whatever waits in the queue was visited or is going to be. -/
theorem mem_visitsFrom_of_mem_queue : ∀ (queue : List Step) (visited : List String),
    ∀ q ∈ queue, q.id ∈ visited ∨ q.id ∈ (g.visitsFrom c queue visited).map Step.id := by
  refine g.walk_induction c ?nil ?skip ?visit
  case nil =>
    intro visited q hq
    exact absurd hq List.not_mem_nil
  case skip =>
    intro visited s rest h ih q hq
    rw [visitsFrom_cons_of_mem g c h]
    rcases List.mem_cons.1 hq with rfl | hq
    · exact Or.inl h
    · exact ih q hq
  case visit =>
    intro visited s rest h ih q hq
    rw [visitsFrom_cons_of_not_mem g c h, List.map_cons, List.mem_cons]
    rcases List.mem_cons.1 hq with rfl | hq
    · exact Or.inr (Or.inl rfl)
    · rcases ih q (List.mem_append_left _ hq) with hvisited | hlater
      · rcases List.mem_cons.1 hvisited with heq | hvisited
        · exact Or.inr (Or.inl heq)
        · exact Or.inl hvisited
      · exact Or.inr (Or.inr hlater)

/-- Where a visited step leads was visited or is going to be. -/
theorem mem_visitsFrom_of_leads : ∀ (queue : List Step) (visited : List String),
    ∀ s ∈ g.visitsFrom c queue visited, ∀ t, g.Leads c s t →
      t.id ∈ visited ∨ t.id ∈ (g.visitsFrom c queue visited).map Step.id := by
  refine g.walk_induction c ?nil ?skip ?visit
  case nil =>
    intro visited s hs
    rw [visitsFrom_nil] at hs
    exact absurd hs List.not_mem_nil
  case skip =>
    intro visited u rest h ih s hs t hst
    rw [visitsFrom_cons_of_mem g c h] at hs ⊢
    exact ih s hs t hst
  case visit =>
    intro visited u rest h ih s hs t hst
    rw [visitsFrom_cons_of_not_mem g c h] at hs ⊢
    rw [List.map_cons, List.mem_cons]
    by_cases hold : t.id ∈ u.id :: visited
    · rcases List.mem_cons.1 hold with heq | hvisited
      · exact Or.inr (Or.inl heq)
      · exact Or.inl hvisited
    refine Or.inr (Or.inr ?_)
    rcases List.mem_cons.1 hs with rfl | hs
    · have hqueued : t ∈ g.queued c visited s :=
        List.mem_filter.2 ⟨(g.mem_followed_iff c s t).2 hst, by simpa using hold⟩
      exact (g.mem_visitsFrom_of_mem_queue c _ _ t (List.mem_append_right _ hqueued)).resolve_left
        hold
    · exact (ih s hs t hst).resolve_left hold

theorem mem_steps_of_entry? {start : Step} (h : g.entry? = some start) : start ∈ g.steps :=
  List.mem_of_mem_filter (List.mem_of_mem_head? h)

/-- What can be reached from a step of the graph is a step of the graph. -/
theorem mem_steps_of_reaches {s t : Step} (hs : s ∈ g.steps)
    (h : Relation.ReflTransGen (g.Leads c) s t) : t ∈ g.steps := by
  induction h with
  | refl => exact hs
  | tail _ hlead _ => exact hlead.1

/-- **The steps that are visited** are those that can be reached from the first entry step. -/
theorem mem_map_id_visits_iff {start : Step} (h : g.entry? = some start) (id : String) :
    id ∈ (g.visits c).map Step.id ↔
      ∃ s, Relation.ReflTransGen (g.Leads c) start s ∧ s.id = id := by
  have hstart := g.mem_steps_of_entry? h
  rw [visits_eq_visitsFrom, h, Option.toList_some, List.mem_map]
  constructor
  · rintro ⟨s, hs, rfl⟩
    obtain ⟨q, hq, hreach⟩ := g.exists_reaches_of_mem_visitsFrom c _ _ s hs
    rw [List.mem_singleton.1 hq] at hreach
    exact ⟨s, hreach, rfl⟩
  · rintro ⟨s, hreach, rfl⟩
    refine List.mem_map.1 ?_
    induction hreach with
    | refl =>
        exact (g.mem_visitsFrom_of_mem_queue c _ _ start (List.mem_singleton_self _)).resolve_left
          List.not_mem_nil
    | @tail u t hsu hut ih =>
        obtain ⟨u', hu', hid⟩ := List.mem_map.1 ih
        obtain ⟨q, hq, hreach⟩ := g.exists_reaches_of_mem_visitsFrom c _ _ u' hu'
        rw [List.mem_singleton.1 hq] at hreach
        have heq : u' = u := g.eq_of_id_eq (g.mem_steps_of_reaches c hstart hreach)
          (g.mem_steps_of_reaches c hstart hsu) hid
        rw [heq] at hu'
        exact (g.mem_visitsFrom_of_leads c _ _ u hu' t hut).resolve_left List.not_mem_nil

end Graph
end Workflow
